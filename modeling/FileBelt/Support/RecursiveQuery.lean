import Mathlib.Data.List.Dedup
import Mathlib.Logic.Relation

/-!
# Recursive queries

`WITH RECURSIVE ... UNION` in rounds: the rows derived from those present are added
without repeats.  When every derived row lies in a finite list, as many rounds as that
list is long reach the fixed point, the set of reachable rows.
-/

namespace FileBelt.Support

open Relation

variable {α : Type*} [DecidableEq α] (next : α → List α) {rows : List α} {rounds : ℕ}
  {candidates : List α} {R : α → Prop} {y : α}

def unionRound (rows : List α) : List α :=
  rows ++ (rows.flatMap next).dedup.filter fun x => x ∉ rows

def recursiveUnion : ℕ → List α → List α
  | 0, rows => rows
  | rounds + 1, rows => recursiveUnion rounds (unionRound next rows)

variable {next}

@[simp]
theorem mem_unionRound : y ∈ unionRound next rows ↔ y ∈ rows ∨ ∃ x ∈ rows, y ∈ next x := by
  simp only [unionRound, List.mem_append, List.mem_filter, List.mem_dedup,
    List.mem_flatMap, decide_eq_true_eq]
  tauto

theorem subset_recursiveUnion (rounds : ℕ) (rows : List α) :
    rows ⊆ recursiveUnion next rounds rows := by
  induction rounds generalizing rows with
  | zero => exact List.Subset.refl rows
  | succ rounds ih =>
    intro x hx
    exact ih _ (mem_unionRound.mpr (.inl hx))

theorem nodup_recursiveUnion (rounds : ℕ) (hrows : rows.Nodup) :
    (recursiveUnion next rounds rows).Nodup := by
  induction rounds generalizing rows with
  | zero => exact hrows
  | succ rounds ih =>
    refine ih (hrows.append ((List.nodup_dedup _).filter _) ?_)
    intro x hx hnew
    exact of_decide_eq_true (List.mem_filter.mp hnew).2 hx

/-- What holds of the first rows and of every derived row holds of the
result. -/
theorem recursiveUnion_induction (hnext : ∀ x, R x → ∀ y ∈ next x, R y) (hrows : ∀ x ∈ rows, R x) :
    ∀ x ∈ recursiveUnion next rounds rows, R x := by
  induction rounds generalizing rows with
  | zero => exact hrows
  | succ rounds ih =>
    refine ih ?_
    intro y hy
    rcases mem_unionRound.mp hy with hy | ⟨x, hx, hy⟩
    · exact hrows y hy
    · exact hnext x (hrows x hx) y hy

theorem recursiveUnion_congr {next' : α → List α}
    (hnext : ∀ x, R x → next x = next' x ∧ ∀ y ∈ next x, R y) (hrows : ∀ x ∈ rows, R x) :
    recursiveUnion next rounds rows = recursiveUnion next' rounds rows := by
  induction rounds generalizing rows with
  | zero => rfl
  | succ rounds ih =>
    have hderived : rows.flatMap next = rows.flatMap next' := by
      exact congrArg List.flatten (List.map_congr_left fun x hx => (hnext x (hrows x hx)).1)
    have hround : unionRound next rows = unionRound next' rows := by
      rw [unionRound, unionRound, hderived]
    rw [recursiveUnion, recursiveUnion, ← hround]
    refine ih ?_
    intro y hy
    rcases mem_unionRound.mp hy with hy | ⟨x, hx, hy⟩
    · exact hrows y hy
    · exact (hnext x (hrows x hx)).2 y hy

/-- Every derived row is present. -/
def Saturated (next : α → List α) (rows : List α) : Prop := ∀ x ∈ rows, next x ⊆ rows

theorem Saturated.unionRound_eq (h : Saturated next rows) : unionRound next rows = rows := by
  rw [unionRound, List.append_right_eq_self, List.filter_eq_nil_iff]
  intro y hy
  obtain ⟨x, hx, hxy⟩ := List.mem_flatMap.mp (List.mem_dedup.mp hy)
  simp [h x hx hxy]

theorem Saturated.recursiveUnion_eq (h : Saturated next rows) (rounds : ℕ) :
    recursiveUnion next rounds rows = rows := by
  induction rounds with
  | zero => rfl
  | succ rounds ih => rw [recursiveUnion, h.unionRound_eq, ih]

/-- Candidates that are not present yet. -/
def missing (candidates rows : List α) : ℕ := candidates.countP fun x => x ∉ rows

variable (hcandidates : ∀ x, next x ⊆ candidates)
include hcandidates

theorem missing_unionRound_lt (h : ¬Saturated next rows) :
    missing candidates (unionRound next rows) < missing candidates rows := by
  obtain ⟨x, hx, hsub⟩ : ∃ x ∈ rows, ¬next x ⊆ rows := by
    by_contra hnone
    exact h fun x hx => by_contra fun hsub => hnone ⟨x, hx, hsub⟩
  obtain ⟨y, hy, hfresh⟩ : ∃ y ∈ next x, y ∉ rows := by
    by_contra hnone
    exact hsub fun y hy => by_contra fun hfresh => hnone ⟨y, hy, hfresh⟩
  have hround : y ∈ unionRound next rows := mem_unionRound.mpr (.inr ⟨x, hx, hy⟩)
  obtain ⟨before, after, hsplit⟩ := List.append_of_mem (hcandidates x hy)
  have hmono : ∀ zs : List α, zs.countP (fun z => z ∉ unionRound next rows) ≤
        zs.countP (fun z => z ∉ rows) := by
    intro zs
    refine List.countP_mono_left fun z _ hz => ?_
    have hz := of_decide_eq_true hz
    exact decide_eq_true fun hmem => hz (mem_unionRound.mpr (.inl hmem))
  have hbefore := hmono before
  have hafter := hmono after
  simp only [missing, hsplit, List.countP_append, List.countP_cons]
  simp only [hround, hfresh, not_true_eq_false, not_false_eq_true,
    decide_false, decide_true, if_true]
  simp only [Bool.false_eq_true, if_false]
  omega

theorem saturated_recursiveUnion_of_missing (hrounds : missing candidates rows ≤ rounds) :
    Saturated next (recursiveUnion next rounds rows) := by
  induction rounds generalizing rows with
  | zero =>
    intro x _ y hy
    have hnone := List.countP_eq_zero.mp (Nat.le_zero.mp hrounds) y (hcandidates x hy)
    simpa [recursiveUnion] using hnone
  | succ rounds ih =>
    by_cases h : Saturated next rows
    · rw [h.recursiveUnion_eq]
      exact h
    · refine ih ?_
      have hlt := missing_unionRound_lt hcandidates h
      omega

/-- With a round for each candidate the result is exactly what is
reachable from the first rows. -/
theorem mem_recursiveUnion_iff (hrounds : candidates.length ≤ rounds) :
    y ∈ recursiveUnion next rounds rows ↔ ∃ x ∈ rows, ReflTransGen (fun a b => b ∈ next a) x y := by
  constructor
  · intro hy
    refine recursiveUnion_induction (R := fun y => ∃ x ∈ rows,
      ReflTransGen (fun a b => b ∈ next a) x y) ?_ ?_ y hy
    · rintro a ⟨x, hx, hxa⟩ b hb
      exact ⟨x, hx, hxa.tail hb⟩
    · intro x hx
      exact ⟨x, hx, .refl⟩
  · rintro ⟨_, hx, hxy⟩
    have hsaturated : Saturated next (recursiveUnion next rounds rows) :=
      saturated_recursiveUnion_of_missing hcandidates (Nat.le_trans List.countP_le_length hrounds)
    induction hxy with
    | refl => exact subset_recursiveUnion rounds rows hx
    | tail _ hb ih => exact hsaturated _ ih hb

end FileBelt.Support
