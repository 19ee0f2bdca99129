import Mathlib.Data.List.Basic

/-!
# Arrays with holes

An array of a script language is a list of slots, some of which have never been
assigned.  Methods that take a callback skip these holes; reading one gives
undefined, and so does the iterator.
-/

namespace FileBelt.Support

/-- A slot is `none` while it is a hole. -/
structure ScriptArray (α : Type) where
  slots : List (Option α)
  deriving DecidableEq, Repr

namespace ScriptArray

variable {α β ε : Type}

/-- The array that the constructor makes of a length: holes only. -/
def ofLength (n : ℕ) : ScriptArray α := ⟨List.replicate n none⟩

def length (a : ScriptArray α) : ℕ := a.slots.length

/-- The value at an index, undefined at a hole and past the end. -/
def get (a : ScriptArray α) (i : ℕ) : Option α := (a.slots[i]?).join

def set (a : ScriptArray α) (i : ℕ) (x : α) : ScriptArray α := ⟨a.slots.set i (some x)⟩

/-- The values that a callback is called with. -/
def present (a : ScriptArray α) : List α := a.slots.filterMap id

/-- Whether a callback accepts every value that is present. -/
def every (a : ScriptArray α) (p : Option α → Bool) : Bool := a.present.all fun x => p (some x)

/-- The loop over the iterator. -/
def forOf (a : ScriptArray α) (body : β → Option α → Except ε β) (b : β) : Except ε β :=
  a.slots.foldlM body b

/-- A test for undefined never sees one: the holes are skipped. -/
@[simp]
theorem every_isSome (a : ScriptArray α) : a.every Option.isSome :=
  List.all_eq_true.mpr fun _ _ => rfl

/-- One assignment leaves a hole in an array of two or more slots. -/
theorem hole_mem_set {n : ℕ} (hn : 1 < n) (i : ℕ) (x : α) :
    none ∈ ((ofLength n).set i x).slots := by
  -- one of the first two slots is another one than `i`
  obtain ⟨j, hj, hij⟩ : ∃ j, j < n ∧ i ≠ j := by
    by_cases hi : i = 0
    · exact ⟨1, hn, by omega⟩
    · exact ⟨0, by omega, hi⟩
  apply List.mem_of_getElem?
  change ((List.replicate n none).set i (some x))[j]? = some none
  rw [List.getElem?_set_ne hij, List.getElem?_replicate_of_lt hj]

/-- A loop that cannot treat undefined fails on an array with a hole. -/
theorem forOf_of_hole {a : ScriptArray α} {body : β → Option α → Except ε β} {e : ε} {f : β → α → β}
    (hnone : ∀ b, body b none = .error e) (hsome : ∀ b x, body b (some x) = .ok (f b x))
    (hhole : none ∈ a.slots) (b : β) : a.forOf body b = .error e := by
  obtain ⟨slots⟩ := a
  change slots.foldlM body b = _
  induction slots generalizing b with
  | nil => cases hhole
  | cons slot slots ih =>
    rw [List.foldlM_cons]
    cases slot with
    | none =>
      rw [hnone]
      rfl
    | some x =>
      rw [hsome]
      exact ih (f b x) (List.mem_of_ne_of_mem (Option.some_ne_none x).symm hhole)

end ScriptArray

end FileBelt.Support
