import Mathlib.Data.List.Basic

/-!
# Fixed windows

A counter starts a new window with the first charge that comes `span` or more after the
start of the last one, and bounds what is spent in a window.  An interval shorter than
`span` meets two windows at most, so twice the bound is spent in it at most.
-/

namespace FileBelt.Support

/-- What is spent from `x` to `y`, of a list of times and amounts. -/
def spent (x y : ℕ) : List (ℕ × ℕ) → ℕ
  | [] => 0
  | (time, amount) :: rest => (if x ≤ time ∧ time ≤ y then amount else 0) + spent x y rest

/-- The charges were spent in windows of at most `limit`.  The last one starts at `start`,
and `used` covers the charges in it. -/
structure Windowed (span limit start used : ℕ) (charges : List (ℕ × ℕ)) : Prop where
  used_le : used ≤ limit
  before : ∀ charge ∈ charges, charge.1 < start + span
  inside : ∀ x y, start ≤ x → spent x y charges ≤ used
  recent : ∀ x y, start < x + span → spent x y charges ≤ limit + used
  twice : ∀ x y, y < x + span → spent x y charges ≤ 2 * limit

variable {span limit start used now amount x : ℕ} {charges : List (ℕ × ℕ)}

theorem windowed_nil (h : used ≤ limit) : Windowed span limit start used [] where
  used_le := h
  before _ hmem := absurd hmem List.not_mem_nil
  inside _ _ _ := Nat.zero_le _
  recent _ _ _ := Nat.zero_le _
  twice _ _ _ := Nat.zero_le _

theorem spent_eq_zero (y : ℕ) (h : ∀ charge ∈ charges, charge.1 < x) : spent x y charges = 0 := by
  induction charges with
  | nil => rfl
  | cons charge rest ih =>
    obtain ⟨hfirst, hrest⟩ := List.forall_mem_cons.mp h
    rw [spent, if_neg (by omega), ih hrest]

variable (h : Windowed span limit start used charges)
include h

/-- Only the charges of the window before are recent in a new window. -/
theorem Windowed.restart (hnow : start + span ≤ now) : Windowed span limit now 0 charges := by
  refine ⟨Nat.zero_le _, fun charge hmem => ?_, fun x y hx => ?_, fun x y hx => ?_, h.twice⟩
  · have hbefore := h.before charge hmem
    omega
  · exact Nat.le_of_eq (spent_eq_zero y fun charge hmem =>
      Nat.lt_of_lt_of_le (h.before charge hmem) (Nat.le_trans hnow hx))
  · exact Nat.le_trans (h.inside x y (by omega)) h.used_le

theorem Windowed.charge (hstart : start ≤ now) (hnow : now < start + span)
    (hfits : used + amount ≤ limit) :
    Windowed span limit start (used + amount) ((now, amount) :: charges) := by
  refine ⟨hfits, List.forall_mem_cons.mpr ⟨hnow, h.before⟩, fun x y hx => ?_,
    fun x y hx => ?_, fun x y hx => ?_⟩
  · have hinside := h.inside x y hx
    rw [spent]
    split <;> omega
  · have hrecent := h.recent x y hx
    rw [spent]
    split <;> omega
  · rw [spent]
    split
    · -- the interval meets the last window, so only the one before it counts besides
      have hrecent := h.recent x y (by omega)
      omega
    · rw [Nat.zero_add]
      exact h.twice x y hx

end FileBelt.Support
