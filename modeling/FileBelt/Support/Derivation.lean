import Mathlib.Data.Set.Lattice
import Mathlib.Order.Bounds.Basic

/-!
# Derivations from seeds and finite premise sets

A goal is derivable when it is a seed, or when all goals of one of its premise sets are
derivable: a least fixed point.  The facts that a proof search needs are leastness, the
treatment of rootless cycles, and the comparison with a finite saturation of a fragment
that is closed under premises.
-/

namespace FileBelt.Support

variable {κ : Type*}

/-- Goals that hold outright and, for each goal, the premise sets that prove it. -/
structure ProofSystem (κ : Type*) where
  seed : Set κ
  premises : κ → Set (Set κ)

namespace ProofSystem

/-- Goals with a well-founded proof. -/
inductive Derivable (P : ProofSystem κ) : κ → Prop
  | seed {k : κ} (hk : k ∈ P.seed) : Derivable P k
  | step {k : κ} {ps : Set κ} (hps : ps ∈ P.premises k)
      (hall : ∀ q ∈ ps, Derivable P q) : Derivable P k

/-- `S` contains the seeds and every goal one of whose premise sets it
contains. -/
def Closed (P : ProofSystem κ) (S : Set κ) : Prop :=
  P.seed ⊆ S ∧ ∀ k, ∀ ps ∈ P.premises k, ps ⊆ S → k ∈ S

theorem closed_setOf_derivable (P : ProofSystem κ) : P.Closed {k | P.Derivable k} := by
  constructor
  · intro k hk
    exact Derivable.seed hk
  · intro k ps hps hsub
    exact Derivable.step hps fun q hq => hsub hq

variable {P : ProofSystem κ} {k : κ}

theorem Derivable.mem_of_closed {S : Set κ} (hS : P.Closed S) (hk : P.Derivable k) : k ∈ S := by
  induction hk with
  | seed hk => exact hS.1 hk
  | step hps _ ih => exact hS.2 _ _ hps fun q hq => ih q hq

theorem isLeast_setOf_derivable (P : ProofSystem κ) :
    IsLeast {S | P.Closed S} {k | P.Derivable k} := by
  constructor
  · exact closed_setOf_derivable P
  · intro S hS k hk
    exact hk.mem_of_closed hS

/-- No seed, and every premise set of a goal needs a goal of the set again. -/
def Rootless (P : ProofSystem κ) (C : Set κ) : Prop :=
  ∀ k ∈ C, k ∉ P.seed ∧ ∀ ps ∈ P.premises k, ∃ q ∈ ps, q ∈ C

/-- Rootless cycles prove nothing: the complement of a rootless set is
closed. -/
theorem Rootless.not_derivable {C : Set κ} (hC : P.Rootless C) (hk : k ∈ C) : ¬P.Derivable k := by
  have hclosed : P.Closed Cᶜ := by
    constructor
    · intro q hq hqC
      exact (hC q hqC).1 hq
    · intro q ps hps hsub hqC
      obtain ⟨_, hr, hrC⟩ := (hC q hqC).2 ps hps
      exact hsub hr hrC
  intro hderivable
  exact hderivable.mem_of_closed hclosed hk

/-- A fragment of the goals which contains, with a goal that is not a seed,
every goal of its premise sets. -/
def PremiseClosed (P : ProofSystem κ) (F : Set κ) : Prop :=
  ∀ k ∈ F, k ∉ P.seed → ∀ ps ∈ P.premises k, ps ⊆ F

/-- A search that saturates a premise-closed fragment decides derivability on
that fragment. -/
theorem derivable_iff_mem_of_saturated {F S : Set κ} (hF : P.PremiseClosed F)
    (hsound : ∀ k ∈ S, P.Derivable k) (hseed : ∀ k ∈ F, k ∈ P.seed → k ∈ S)
    (hstep : ∀ k ∈ F, k ∉ P.seed → ∀ ps ∈ P.premises k, ps ⊆ S → k ∈ S)
    (hk : k ∈ F) : P.Derivable k ↔ k ∈ S := by
  constructor
  · intro hderivable
    induction hderivable with
    | seed hs => exact hseed _ hk hs
    | @step k ps hps _ ih =>
      by_cases hs : k ∈ P.seed
      · exact hseed k hk hs
      · exact hstep k hk hs ps hps fun q hq =>
          ih q hq (hF k hk hs ps hps hq)
  · exact hsound k

end ProofSystem

end FileBelt.Support
