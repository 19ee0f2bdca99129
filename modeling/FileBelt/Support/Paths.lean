import Mathlib.Data.Set.Basic
import Mathlib.Order.Nat

/-!
# Paths and breadth-first depths

A breadth-first search assigns shortest distances: as long as every explored node has
passed its depth plus one to its successors, a path that leaves the explored nodes is
at least as long as the smallest depth outside them.
-/

namespace FileBelt.Support

variable {α : Type*} {r : α → α → Prop}

/-- Paths of `n` steps. -/
inductive Path (r : α → α → Prop) (a : α) : ℕ → α → Prop
  | refl : Path r a 0 a
  | tail {n : ℕ} {b c : α} (hab : Path r a n b) (hbc : r b c) : Path r a (n + 1) c

theorem Path.mem_of_closed {S : Set α} (hS : ∀ b ∈ S, ∀ c, r b c → c ∈ S)
    {a b : α} {n : ℕ} (h : Path r a n b) (ha : a ∈ S) : b ∈ S := by
  induction h with
  | refl => exact ha
  | tail _ hbc ih => exact hS _ ih _ hbc

variable (depth : α → Option ℕ) (explored : Set α) {source frontier b : α} {bound n : ℕ}
  (hsource : depth source = some 0)
  (hnear : ∀ a ∈ explored, ∀ d, depth a = some d → ∀ b, r a b → ∃ e, depth b = some e ∧ e ≤ d + 1)
  (houtside : ∀ a d, depth a = some d → a ∉ explored → bound ≤ d)
include hsource hnear houtside

/-- The recorded depth is at most the length of the path, unless the path has left the
explored nodes at a depth of at least `bound`. -/
theorem Path.depth_le (h : Path r source n b) : (∃ d, depth b = some d ∧ d ≤ n) ∨ bound ≤ n := by
  induction h with
  | refl => exact .inl ⟨0, hsource, le_rfl⟩
  | @tail n b c _ hbc ih =>
    rcases ih with ⟨d, hd, hle⟩ | hbound
    · by_cases hb : b ∈ explored
      · obtain ⟨e, he, hstep⟩ := hnear b hb d hd c hbc
        exact .inl ⟨e, he, hstep.trans (Nat.succ_le_succ hle)⟩
      · exact .inr (((houtside b d hd hb).trans hle).trans (Nat.le_succ n))
    · exact .inr (hbound.trans (Nat.le_succ n))

/-- The first node to be explored next has its shortest distance. -/
theorem Path.le_length_of_frontier (hfrontier : depth frontier = some bound)
    (h : Path r source n frontier) : bound ≤ n := by
  rcases h.depth_le depth explored hsource hnear houtside with ⟨_, hd, hle⟩ | hbound
  · rw [hfrontier, Option.some.injEq] at hd
    rw [hd]
    exact hle
  · exact hbound

end FileBelt.Support
