import Mathlib.Data.Finset.Image
import Mathlib.Data.Multiset.Fold

/-!
# Repository rulesets

Rulesets that match a ref are merged by `require`, under which they form a
semilattice.  The merged requirements admit a change exactly if each ruleset does.
-/

namespace FileBelt.Authz

inductive RefMutation
  | create | update | delete
  deriving DecidableEq, Repr

inductive VerifiedSigner
  | authenticatedActor | fileBeltService | otherRegistered
  deriving DecidableEq, Repr

inductive RequiredSigner
  | anyVerified | authenticatedActor | fileBeltService
  deriving DecidableEq, Repr

structure RepositoryRuleRequirements where
  (denyCreate denyUpdate denyDelete requireFastForward requireLinearHistory requirePullRequest
    : Bool := false)
  minimumApprovals : ℕ := 0
  requireLastPushApproval : Bool := false
  requiredSigners : Finset RequiredSigner := ∅
  requiredStatusChecks : Finset String := ∅
  requiredDeployments : Finset String := ∅
  deriving DecidableEq

structure RepositoryAdmissionEvidence where
  mutation : RefMutation
  fastForward : Bool
  linearHistory : Bool
  signer : Option VerifiedSigner
  pullRequest : Bool
  approvals : ℕ
  lastPushApproved : Bool
  successfulStatusChecks : Finset String
  successfulDeployments : Finset String
  validatedBypass : Bool

inductive RepositoryAdmissionFailure
  | creationDenied | updateDenied | deletionDenied | nonFastForward | nonLinearHistory
  | pullRequestRequired
  | approvalsRequired (required actual : ℕ)
  | lastPushApprovalRequired | verifiedSignatureRequired | authenticatedActorSignatureRequired
  | fileBeltServiceSignatureRequired
  | statusCheckRequired (context : String)
  | deploymentRequired (environment : String)
  deriving DecidableEq, Repr

def RequiredSigner.satisfied (signer : Option VerifiedSigner) : RequiredSigner → Bool
  | .anyVerified => signer.isSome
  | .authenticatedActor => signer = some .authenticatedActor
  | .fileBeltService => signer = some .fileBeltService

def RequiredSigner.failure : RequiredSigner → RepositoryAdmissionFailure
  | .anyVerified => .verifiedSignatureRequired
  | .authenticatedActor => .authenticatedActorSignatureRequired
  | .fileBeltService => .fileBeltServiceSignatureRequired

/-- The failure is inserted if the condition holds. -/
def failsIf (condition : Bool) (failure : RepositoryAdmissionFailure) :
    Finset RepositoryAdmissionFailure :=
  if condition then {failure} else ∅

namespace RepositoryRuleRequirements

def require (self other : RepositoryRuleRequirements) : RepositoryRuleRequirements where
  denyCreate := self.denyCreate || other.denyCreate
  denyUpdate := self.denyUpdate || other.denyUpdate
  denyDelete := self.denyDelete || other.denyDelete
  requireFastForward := self.requireFastForward || other.requireFastForward
  requireLinearHistory := self.requireLinearHistory || other.requireLinearHistory
  requirePullRequest := self.requirePullRequest || other.requirePullRequest
  minimumApprovals := max self.minimumApprovals other.minimumApprovals
  requireLastPushApproval := self.requireLastPushApproval || other.requireLastPushApproval
  requiredSigners := self.requiredSigners ∪ other.requiredSigners
  requiredStatusChecks := self.requiredStatusChecks ∪ other.requiredStatusChecks
  requiredDeployments := self.requiredDeployments ∪ other.requiredDeployments

def merged (rulesets : List RepositoryRuleRequirements) : RepositoryRuleRequirements :=
  rulesets.foldl require {}

end RepositoryRuleRequirements

def deniedMutation (requirements : RepositoryRuleRequirements) :
    RefMutation → Finset RepositoryAdmissionFailure
  | .create => failsIf requirements.denyCreate .creationDenied
  | .update => failsIf requirements.denyUpdate .updateDenied
  | .delete => failsIf requirements.denyDelete .deletionDenied

/-- The set of failures, which the source returns in its order. -/
def evaluateRepositoryAdmission (requirements : RepositoryRuleRequirements)
    (evidence : RepositoryAdmissionEvidence) : Finset RepositoryAdmissionFailure :=
  if evidence.validatedBypass then ∅
  else
    deniedMutation requirements evidence.mutation ∪
      failsIf (requirements.requireFastForward && evidence.mutation = .update &&
        !evidence.fastForward) .nonFastForward ∪
      failsIf (requirements.requireLinearHistory && !evidence.linearHistory) .nonLinearHistory ∪
      failsIf (requirements.requirePullRequest && !evidence.pullRequest) .pullRequestRequired ∪
      failsIf (evidence.approvals < requirements.minimumApprovals)
        (.approvalsRequired requirements.minimumApprovals evidence.approvals) ∪
      failsIf (requirements.requireLastPushApproval && !evidence.lastPushApproved)
        .lastPushApprovalRequired ∪
      (requirements.requiredSigners.filter fun required =>
        required.satisfied evidence.signer = false).image RequiredSigner.failure ∪
      (requirements.requiredStatusChecks \ evidence.successfulStatusChecks).image
        .statusCheckRequired ∪
      (requirements.requiredDeployments \ evidence.successfulDeployments).image .deploymentRequired

namespace RepositoryRuleRequirements

variable (a b : RepositoryRuleRequirements) (evidence : RepositoryAdmissionEvidence)

instance : Std.Commutative require where
  comm a b := by
    simp only [require, Bool.or_comm, Finset.union_comm, max_comm]

instance : Std.Associative require where
  assoc a b c := by
    simp only [require, Bool.or_assoc, Finset.union_assoc, max_assoc]

instance : Std.IdempotentOp require where
  idempotent a := by
    simp only [require, Bool.or_self, Finset.union_self, max_self]

/-- Neither the order of the rulesets nor repetitions matter. -/
theorem merged_eq {rulesets others : List RepositoryRuleRequirements}
    (h : ∀ ruleset, ruleset ∈ others ↔ ruleset ∈ rulesets) : merged others = merged rulesets := by
  have hdedup : (others : Multiset RepositoryRuleRequirements).dedup =
      (rulesets : Multiset RepositoryRuleRequirements).dedup := Multiset.dedup_ext.mpr h
  rw [merged, merged, ← Multiset.coe_fold_l, ← Multiset.coe_fold_l,
    ← Multiset.fold_dedup_idem, hdedup, Multiset.fold_dedup_idem]

theorem failsIf_eq_empty {condition : Bool} {failure : RepositoryAdmissionFailure} :
    failsIf condition failure = ∅ ↔ condition = false := by
  cases condition <;> simp [failsIf]

theorem evaluateRepositoryAdmission_require :
    evaluateRepositoryAdmission (a.require b) evidence = ∅ ↔
      evaluateRepositoryAdmission a evidence = ∅ ∧ evaluateRepositoryAdmission b evidence = ∅ := by
  unfold evaluateRepositoryAdmission
  split
  · exact ⟨fun _ => ⟨rfl, rfl⟩, fun _ => rfl⟩
  · have hmutation : deniedMutation (a.require b) evidence.mutation = ∅ ↔
        deniedMutation a evidence.mutation = ∅ ∧ deniedMutation b evidence.mutation = ∅ := by
      cases evidence.mutation <;>
        simp only [deniedMutation, failsIf_eq_empty, require, Bool.or_eq_false_iff]
    simp only [Finset.union_eq_empty, failsIf_eq_empty, Finset.image_eq_empty,
      Finset.sdiff_eq_empty_iff_subset, Finset.filter_eq_empty_iff, decide_eq_false_iff_not,
      Nat.not_lt]
    simp only [require, Bool.and_or_distrib_right, Bool.or_eq_false_iff, max_le_iff,
      Finset.union_subset_iff, Finset.forall_mem_union]
    tauto

theorem evaluateRepositoryAdmission_default : evaluateRepositoryAdmission {} evidence = ∅ := by
  unfold evaluateRepositoryAdmission
  cases evidence.mutation <;> simp [deniedMutation, failsIf]

theorem evaluateRepositoryAdmission_merged (rulesets : List RepositoryRuleRequirements) :
    evaluateRepositoryAdmission (merged rulesets) evidence = ∅ ↔
      ∀ ruleset ∈ rulesets, evaluateRepositoryAdmission ruleset evidence = ∅ := by
  induction rulesets using List.reverseRecOn with
  | nil => simp [merged, evaluateRepositoryAdmission_default]
  | append_singleton rulesets ruleset ih =>
    have hmerged : merged (rulesets ++ [ruleset]) = (merged rulesets).require ruleset :=
      List.foldl_append
    rw [hmerged, evaluateRepositoryAdmission_require, ih, List.forall_mem_append,
      List.forall_mem_singleton]

/-- Merging does not depend on order and repetition, the merged rulesets refuse
exactly what one of them refuses, and one more ruleset admits nothing new. -/
theorem merged_rulesets_decide (rulesets : List RepositoryRuleRequirements)
    (evidence : RepositoryAdmissionEvidence) :
    (∀ others : List RepositoryRuleRequirements,
      (∀ ruleset, ruleset ∈ others ↔ ruleset ∈ rulesets) → merged others = merged rulesets) ∧
    (evaluateRepositoryAdmission (merged rulesets) evidence = ∅ ↔
      ∀ ruleset ∈ rulesets, evaluateRepositoryAdmission ruleset evidence = ∅) ∧
    ∀ added, evaluateRepositoryAdmission (merged rulesets) evidence ≠ ∅ →
      evaluateRepositoryAdmission (merged (rulesets ++ [added])) evidence ≠ ∅ := by
  refine ⟨fun _ => merged_eq, evaluateRepositoryAdmission_merged evidence rulesets, ?_⟩
  intro added hrefused hadmitted
  rw [evaluateRepositoryAdmission_merged, List.forall_mem_append] at hadmitted
  exact hrefused ((evaluateRepositoryAdmission_merged evidence rulesets).mpr hadmitted.1)

end RepositoryRuleRequirements

end FileBelt.Authz
