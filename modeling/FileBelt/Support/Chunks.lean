import Mathlib.Algebra.BigOperators.Group.List.Basic
import Mathlib.Algebra.Order.Ring.Nat

/-!
# Cutting a length into chunks of one size

A length `n` cut into chunks of size `c`: chunk `k` starts at `k * c` and is
full except for the last one.
-/

namespace FileBelt.Support

def chunkLength (c n k : ℕ) : ℕ := min c (n - k * c)

def chunkCount (c n : ℕ) : ℕ := (n + (c - 1)) / c

theorem sum_chunkLength (c n m : ℕ) :
    ((List.range m).map (chunkLength c n)).sum = min (m * c) n := by
  induction m with
  | zero => simp
  | succ m ih =>
    rw [List.range_succ, List.map_append, List.sum_append, List.map_singleton,
      List.sum_singleton, chunkLength, Nat.succ_mul]
    omega

section

variable {c n k m : ℕ} (hc : 0 < c)
include hc

theorem lt_chunkCount_iff : k < chunkCount c n ↔ k * c < n := by
  rw [chunkCount, Nat.lt_div_iff_mul_lt hc]
  omega

theorem le_chunkCount_mul (n : ℕ) : n ≤ chunkCount c n * c := by
  by_contra hlt
  have h := (lt_chunkCount_iff hc).mpr (not_le.mp hlt)
  exact lt_irrefl _ h

theorem chunkCount_le_iff : chunkCount c n ≤ m ↔ n ≤ m * c := by
  rw [← not_lt, lt_chunkCount_iff hc, not_lt]

theorem sum_chunkLength_chunkCount (n : ℕ) :
    ((List.range (chunkCount c n)).map (chunkLength c n)).sum = n := by
  rw [sum_chunkLength, min_eq_right (le_chunkCount_mul hc n)]

theorem chunkLength_pos (hk : k < chunkCount c n) : 0 < chunkLength c n k := by
  have hlt := (lt_chunkCount_iff hc).mp hk
  rw [chunkLength]
  omega

theorem chunkLength_of_succ_lt (hk : k + 1 < chunkCount c n) : chunkLength c n k = c := by
  have hlt := (lt_chunkCount_iff hc).mp hk
  rw [Nat.succ_mul] at hlt
  rw [chunkLength]
  omega

theorem chunkLength_last (hk : k + 1 = chunkCount c n) : chunkLength c n k = n - k * c := by
  have hle := le_chunkCount_mul hc n
  rw [← hk, Nat.succ_mul] at hle
  rw [chunkLength]
  omega

end

variable {α : Type*} {c : ℕ}

/-- The chunks of a list, in order. -/
def slices (c : ℕ) (xs : List α) : List (List α) :=
  (List.range (chunkCount c xs.length)).map fun k => (xs.drop (k * c)).take c

@[simp]
theorem length_slices (c : ℕ) (xs : List α) : (slices c xs).length = chunkCount c xs.length := by
  rw [slices, List.length_map, List.length_range]

theorem length_le_of_mem_slices {xs ys : List α} (h : ys ∈ slices c xs) : ys.length ≤ c := by
  obtain ⟨_, -, rfl⟩ := List.mem_map.mp h
  exact List.length_take_le c _

theorem slices_of_length_le {xs : List α} (hne : xs ≠ []) (h : xs.length ≤ c) :
    slices c xs = [xs] := by
  have hpos := List.length_pos_iff.mpr hne
  have hone : chunkCount c xs.length = 1 := Nat.div_eq_of_lt_le (by omega) (by omega)
  rw [slices, hone, List.range_one, List.map_singleton, Nat.zero_mul,
    List.drop_zero, List.take_of_length_le h]

end FileBelt.Support
