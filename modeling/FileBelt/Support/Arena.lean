import Mathlib.Data.List.Basic

/-!
# Objects at positions of a list

The processes of a system, or the objects of a heap, are the elements of a list,
and a reference is a position.  These rules say what is at a position after an
object has been added or replaced.
-/

namespace FileBelt.Support

variable {α : Type*} {xs : List α} {x y : α} {i j : ℕ}

theorem getElem?_append_singleton (h : (xs ++ [x])[j]? = some y) :
    xs[j]? = some y ∨ j = xs.length ∧ y = x := by
  by_cases hj : j < xs.length
  · rw [List.getElem?_append_left hj] at h
    exact .inl h
  · rw [List.getElem?_append_right (Nat.not_lt.mp hj)] at h
    obtain ⟨hzero, hy⟩ := List.getElem?_eq_some_iff.mp h
    rw [List.length_singleton] at hzero
    refine .inr ⟨by omega, ?_⟩
    rw [← hy, List.getElem_singleton]

theorem getElem?_set_eq_some (h : (xs.set i x)[j]? = some y) :
    j ≠ i ∧ xs[j]? = some y ∨ j = i ∧ y = x := by
  by_cases hj : i = j
  · subst hj
    rw [List.getElem?_set_self'] at h
    cases hi : xs[i]? with
    | none =>
      rw [hi] at h
      cases h
    | some =>
      rw [hi] at h
      exact .inr ⟨rfl, (Option.some.inj h).symm⟩
  · rw [List.getElem?_set_ne hj] at h
    exact .inl ⟨fun heq => hj heq.symm, h⟩

end FileBelt.Support
