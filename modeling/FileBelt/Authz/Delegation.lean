import FileBelt.Authz.RecursiveShare
import FileBelt.Support.Derivation

/-!
# Delegation rules for recursive direct shares

An implicit owner holds an action; otherwise an applicable deny refuses it, an
independent allow grants it, and a recursive share grants it as long as its creator
holds both `SHARE` and the action.  The evaluator is compared with the least set of
nodes closed under these rules.
-/

namespace FileBelt.Authz

open Std (TreeMap)
open Support

variable (request : RecursiveShareAuthorizationRequest)

abbrev RecursiveShareAuthorizationRequest.creators :
    TreeMap PrincipalId (Option PrincipalAuthorizationFacts) :=
  collectCreatorFacts request.creatorFacts

/-- The actor's own facts, or those of a creator described exactly once. -/
def suppliedFacts (principal : PrincipalId) : Option RecursiveShareSubject :=
  if principal = request.principal.principalId then
    some { principal := request.principal, entries := request.entries }
  else
    match request.creatorFacts.filter fun facts =>
        facts.principal.principalId = principal with
    | [facts] => some { principal := facts.principal, entries := facts.entries }
    | _ => none

variable {P : RecursiveShareResolvedAclEntry → Prop} {candidate : RecursiveShareCandidate}
  {creator : PrincipalId}

section

variable (request : RecursiveShareAuthorizationRequest) (key : RecursiveShareNodeKey)

def OwnerNode : Prop :=
  ∃ subject, suppliedFacts request key.principal = some subject ∧
    (implicitOwnerReason subject.principal request.driveOwner key.action).isSome

/-- Some entry of the node's principal applies and satisfies `P`. -/
def HasApplicable (P : RecursiveShareResolvedAclEntry → Prop) : Prop :=
  ∃ subject, suppliedFacts request key.principal = some subject ∧
    ∃ provenanced ∈ subject.entries,
      entryApplicable subject.principal request.resource key.action provenanced.resolved ∧
      P provenanced

def DeniedNode : Prop :=
  HasApplicable request key fun provenanced =>
    provenanced.resolved.entry.effect = .deny

def IndependentlyAllowed : Prop :=
  HasApplicable request key fun provenanced =>
    provenanced.resolved.entry.effect = .allow ∧ provenanced.provenance = .independent

/-- A recursive share of the action, made by its recorded creator. -/
def SharedBy (creator : PrincipalId) : Prop :=
  HasApplicable request key fun provenanced =>
    provenanced.resolved.entry.effect = .allow ∧
      provenanced.provenance = .recursiveDirectShare creator ∧
      provenanced.resolved.entry.createdBy = creator

structure DelegationClosed (S : Set RecursiveShareNodeKey) : Prop where
  owner : ∀ key, OwnerNode request key → key ∈ S
  independent : ∀ key, ¬DeniedNode request key → IndependentlyAllowed request key → key ∈ S
  shared : ∀ key creator, ¬DeniedNode request key →
    SharedBy request key creator →
    { principal := creator, action := .share } ∈ S →
    { principal := creator, action := key.action } ∈ S → key ∈ S

def delegationSystem : ProofSystem RecursiveShareNodeKey where
  seed := {key | OwnerNode request key ∨
    (¬DeniedNode request key ∧ IndependentlyAllowed request key)}
  premises key := {ps | ¬DeniedNode request key ∧
    ∃ creator, SharedBy request key creator ∧
      ps = {{ principal := creator, action := .share },
        { principal := creator, action := key.action }}}

/-- The nodes that hold their action. -/
def delegatedNodes : Set RecursiveShareNodeKey := {key | (delegationSystem request).Derivable key}

/-- Nodes without an owner or an independent allow, whose shares all need a node of the
set again. -/
def RootlessShares (C : Set RecursiveShareNodeKey) : Prop :=
  ∀ key ∈ C, ¬OwnerNode request key ∧ ¬IndependentlyAllowed request key ∧
    ∀ creator, SharedBy request key creator →
      { principal := creator, action := .share } ∈ C ∨
        { principal := creator, action := key.action } ∈ C

end

section

variable {request : RecursiveShareAuthorizationRequest} {key : RecursiveShareNodeKey}

theorem delegationClosed_iff {S : Set RecursiveShareNodeKey} :
    DelegationClosed request S ↔ (delegationSystem request).Closed S := by
  constructor
  · intro h
    constructor
    · rintro key (howner | ⟨hdeny, hallow⟩)
      · exact h.owner key howner
      · exact h.independent key hdeny hallow
    · rintro key ps ⟨hdeny, creator, hshare, rfl⟩ hsub
      exact h.shared key creator hdeny hshare (hsub (by simp)) (hsub (by simp))
  · intro h
    refine ⟨?_, ?_, ?_⟩
    · intro key howner
      exact h.1 (.inl howner)
    · intro key hdeny hallow
      exact h.1 (.inr ⟨hdeny, hallow⟩)
    · intro key creator hdeny hshare hcreatorShare hcreatorAction
      apply h.2 key _ ⟨hdeny, creator, hshare, rfl⟩
      rintro q (rfl | rfl)
      · exact hcreatorShare
      · exact hcreatorAction

theorem isLeast_delegatedNodes :
    IsLeast {S | DelegationClosed request S} (delegatedNodes request) := by
  simp only [delegationClosed_iff]
  exact (delegationSystem request).isLeast_setOf_derivable

theorem not_mem_delegatedNodes_of_denied (hdeny : DeniedNode request key)
    (howner : ¬OwnerNode request key) : key ∉ delegatedNodes request := by
  intro hmem
  cases hmem with
  | seed hseed =>
    rcases hseed with h | ⟨h, -⟩
    · exact howner h
    · exact h hdeny
  | step hps => exact hps.1 hdeny

theorem RootlessShares.not_mem_delegatedNodes {C : Set RecursiveShareNodeKey}
    (hC : RootlessShares request C) (hkey : key ∈ C) : key ∉ delegatedNodes request := by
  have hrootless : (delegationSystem request).Rootless C := by
    intro q hq
    obtain ⟨howner, hallow, hshares⟩ := hC q hq
    constructor
    · rintro (h | ⟨-, h⟩)
      · exact howner h
      · exact hallow h
    · rintro ps ⟨-, creator, hshare, rfl⟩
      rcases hshares creator hshare with h | h
      · exact ⟨_, by simp, h⟩
      · exact ⟨_, by simp, h⟩
  exact hrootless.not_derivable hkey

end

/-- The cell of the creator map after the facts of one principal were
inserted in turn. -/
def factsCell : List PrincipalAuthorizationFacts → Option (Option PrincipalAuthorizationFacts)
  | [] => none
  | [fact] => some (some fact)
  | _ => some none

theorem factsCell_append_singleton (facts : List PrincipalAuthorizationFacts)
    (fact : PrincipalAuthorizationFacts) : factsCell (facts ++ [fact]) =
      if (factsCell facts).isSome then some none else some (some fact) := by
  match facts with
  | [] => rfl
  | [_] => rfl
  | _ :: _ :: _ => rfl

theorem collectCreatorFacts_getElem?
    (facts : List PrincipalAuthorizationFacts) (principal : PrincipalId) :
    (collectCreatorFacts facts)[principal]? = factsCell (facts.filter fun fact =>
        fact.principal.principalId = principal) := by
  induction facts using List.reverseRecOn with
  | nil => rfl
  | append_singleton facts fact ih =>
    rw [collectCreatorFacts, List.foldl_concat, ← collectCreatorFacts, List.filter_append]
    by_cases hprincipal : fact.principal.principalId = principal
    · have hcontains : (collectCreatorFacts facts).contains fact.principal.principalId =
            (factsCell (facts.filter fun other =>
              other.principal.principalId = principal)).isSome := by
        rw [TreeMap.contains_eq_isSome_getElem?, hprincipal, ih]
      have hfilter : ([fact].filter fun other =>
          other.principal.principalId = principal) = [fact] := by
        simp [hprincipal]
      rw [hfilter, factsCell_append_singleton, hcontains]
      split <;> simp [hprincipal]
    · have hfilter : ([fact].filter fun other =>
          other.principal.principalId = principal) = [] := by
        simp [hprincipal]
      rw [hfilter, List.append_nil, ← ih]
      split <;> simp [TreeMap.getElem?_insert, hprincipal]

theorem recursiveShareSubject_eq_suppliedFacts (principal : PrincipalId) :
    recursiveShareSubject principal request request.creators = suppliedFacts request principal := by
  unfold recursiveShareSubject suppliedFacts
  split
  · rfl
  · rw [collectCreatorFacts_getElem?]
    generalize (request.creatorFacts.filter fun facts =>
      facts.principal.principalId = principal) = supplied
    match supplied with
    | [] => rfl
    | [_] => rfl
    | _ :: _ :: _ => rfl

/-- The node the search stores for a key. -/
def collectedNode (key : RecursiveShareNodeKey) : RecursiveShareNode :=
  match suppliedFacts request key.principal with
  | none => {}
  | some subject => recursiveShareNode subject key.action request

variable {request : RecursiveShareAuthorizationRequest}
  {key : RecursiveShareNodeKey} {subject : RecursiveShareSubject}

theorem hasApplicable_iff (hfacts : suppliedFacts request key.principal = some subject) :
    HasApplicable request key P ↔ ∃ provenanced ∈ applicableEntries subject key.action request,
        P provenanced := by
  simp [HasApplicable, hfacts, applicableEntries, and_assoc]

theorem shareCandidate_eq_some {provenanced : RecursiveShareResolvedAclEntry} :
    shareCandidate provenanced = some candidate ↔ provenanced.resolved.entry.effect = .allow ∧
        provenanced.provenance = .recursiveDirectShare candidate.creator ∧
        provenanced.resolved.entry.createdBy = candidate.creator ∧
        provenanced.resolved.entry.id = candidate.entryId := by
  obtain ⟨_, _⟩ := candidate
  unfold shareCandidate
  split
  · next heffect hprovenance =>
    split_ifs with hcreated
    · constructor
      · intro h
        cases h
        exact ⟨heffect, hprovenance, hcreated, rfl⟩
      · rintro ⟨-, hcreator, -, rfl⟩
        rw [hprovenance] at hcreator
        cases hcreator
        rfl
    · simp only [false_iff]
      rintro ⟨-, hcreator, hrecorded, -⟩
      rw [hprovenance] at hcreator
      cases hcreator
      exact hcreated hrecorded
  · next hother =>
    simp only [reduceCtorEq, false_iff]
    rintro ⟨heffect, hcreator, -⟩
    exact hother _ heffect hcreator

theorem exists_shareCandidate_iff {entries : List RecursiveShareResolvedAclEntry} :
    (∃ candidate ∈ canonicalizeCandidates (entries.filterMap shareCandidate),
        candidate.creator = creator) ↔
      ∃ provenanced ∈ entries, provenanced.resolved.entry.effect = .allow ∧
          provenanced.provenance = .recursiveDirectShare creator ∧
          provenanced.resolved.entry.createdBy = creator := by
  simp only [mem_canonicalizeCandidates, List.mem_filterMap, shareCandidate_eq_some]
  constructor
  · rintro ⟨_, ⟨provenanced, hmem, heffect, hprov, hcreated, -⟩, rfl⟩
    exact ⟨provenanced, hmem, heffect, hprov, hcreated⟩
  · rintro ⟨provenanced, hmem, heffect, hprov, hcreated⟩
    exact ⟨{ entryId := provenanced.resolved.entry.id, creator := creator },
      ⟨provenanced, hmem, heffect, hprov, hcreated, rfl⟩, rfl⟩

theorem collectedNode_of_owner (howner : OwnerNode request key) :
    (collectedNode request key).denied = none ∧ (collectedNode request key).independent.isSome ∧
      (collectedNode request key).candidates = [] := by
  obtain ⟨_, hfacts, hreason⟩ := howner
  obtain ⟨_, hreason⟩ := Option.isSome_iff_exists.mp hreason
  simp [collectedNode, hfacts, recursiveShareNode, hreason]

theorem implicitOwnerReason_eq_none (howner : ¬OwnerNode request key)
    (hfacts : suppliedFacts request key.principal = some subject) :
    implicitOwnerReason subject.principal request.driveOwner key.action = none := by
  by_contra hsome
  exact howner ⟨subject, hfacts, Option.isSome_iff_ne_none.mpr hsome⟩

theorem denyVerdict_isSome (hfacts : suppliedFacts request key.principal = some subject) :
    (entryVerdict ((applicableEntries subject key.action request).map (·.resolved))
        .deny .explicitDeny .inheritedDeny).isSome ↔ DeniedNode request key := by
  rw [entryVerdict_isSome, DeniedNode, hasApplicable_iff hfacts]
  simp

theorem allowVerdict_isSome (hfacts : suppliedFacts request key.principal = some subject) :
    (entryVerdict (((applicableEntries subject key.action request).filter
          fun provenanced => provenanced.provenance == .independent).map (·.resolved))
        .allow .explicitAllow .inheritedAllow).isSome ↔ IndependentlyAllowed request key := by
  rw [entryVerdict_isSome, IndependentlyAllowed, hasApplicable_iff hfacts]
  simp only [List.mem_map, List.mem_filter, beq_iff_eq]
  constructor
  · rintro ⟨_, ⟨provenanced, ⟨hmem, hprov⟩, rfl⟩, heffect⟩
    exact ⟨provenanced, hmem, heffect, hprov⟩
  · rintro ⟨provenanced, hmem, heffect, hprov⟩
    exact ⟨_, ⟨provenanced, ⟨hmem, hprov⟩, rfl⟩, heffect⟩

theorem suppliedFacts_of_hasApplicable (h : HasApplicable request key P) :
    ∃ subject, suppliedFacts request key.principal = some subject := by
  obtain ⟨subject, hfacts, -⟩ := h
  exact ⟨subject, hfacts⟩

theorem collectedNode_of_denied (howner : ¬OwnerNode request key) (hdeny : DeniedNode request key) :
    (collectedNode request key).denied.isSome ∧ (collectedNode request key).candidates = [] := by
  obtain ⟨_, hfacts⟩ := suppliedFacts_of_hasApplicable hdeny
  obtain ⟨_, hverdict⟩ := Option.isSome_iff_exists.mp ((denyVerdict_isSome hfacts).mpr hdeny)
  simp [collectedNode, hfacts, recursiveShareNode,
    implicitOwnerReason_eq_none howner hfacts, hverdict]

theorem collectedNode_of_independent (howner : ¬OwnerNode request key)
    (hdeny : ¬DeniedNode request key) (hallow : IndependentlyAllowed request key) :
    (collectedNode request key).denied = none ∧ (collectedNode request key).independent.isSome ∧
      (collectedNode request key).candidates = [] := by
  obtain ⟨_, hfacts⟩ := suppliedFacts_of_hasApplicable hallow
  have hnoDeny := Option.not_isSome_iff_eq_none.mp (mt (denyVerdict_isSome hfacts).mp hdeny)
  obtain ⟨_, hverdict⟩ :=
    Option.isSome_iff_exists.mp ((allowVerdict_isSome hfacts).mpr hallow)
  simp [collectedNode, hfacts, recursiveShareNode,
    implicitOwnerReason_eq_none howner hfacts, hnoDeny, hverdict]

/-- A node with neither owner, deny nor independent allow is left to its
candidates, which are its shares. -/
theorem collectedNode_of_delegable (howner : ¬OwnerNode request key)
    (hdeny : ¬DeniedNode request key) (hallow : ¬IndependentlyAllowed request key) :
    (collectedNode request key).denied = none ∧ (collectedNode request key).independent = none ∧
      ∀ creator, (∃ candidate ∈ (collectedNode request key).candidates,
          candidate.creator = creator) ↔ SharedBy request key creator := by
  cases hfacts : suppliedFacts request key.principal with
  | none => simp [collectedNode, SharedBy, HasApplicable, hfacts]
  | some subject =>
    have hnoDeny := Option.not_isSome_iff_eq_none.mp (mt (denyVerdict_isSome hfacts).mp hdeny)
    have hnoAllow := Option.not_isSome_iff_eq_none.mp (mt (allowVerdict_isSome hfacts).mp hallow)
    have hnode : collectedNode request key =
        { candidates := canonicalizeCandidates
            ((applicableEntries subject key.action request).filterMap shareCandidate) } := by
      simp [collectedNode, hfacts, recursiveShareNode,
        implicitOwnerReason_eq_none howner hfacts, hnoDeny, hnoAllow]
    refine ⟨by rw [hnode], by rw [hnode], ?_⟩
    intro creator
    rw [hnode, SharedBy, hasApplicable_iff hfacts]
    exact exists_shareCandidate_iff

theorem collectedNode_independent_iff : ((collectedNode request key).denied = none ∧
        (collectedNode request key).independent.isSome) ↔
      key ∈ (delegationSystem request).seed := by
  by_cases howner : OwnerNode request key
  · have h := collectedNode_of_owner howner
    exact ⟨fun _ => .inl howner, fun _ => ⟨h.1, h.2.1⟩⟩
  by_cases hdeny : DeniedNode request key
  · have h := collectedNode_of_denied howner hdeny
    constructor
    · intro hnode
      simp [hnode.1] at h
    · rintro (hseed | hseed)
      · exact absurd hseed howner
      · exact absurd hdeny hseed.1
  by_cases hallow : IndependentlyAllowed request key
  · have h := collectedNode_of_independent howner hdeny hallow
    exact ⟨fun _ => .inr ⟨hdeny, hallow⟩, fun _ => ⟨h.1, h.2.1⟩⟩
  · have h := collectedNode_of_delegable howner hdeny hallow
    constructor
    · intro hnode
      simp [h.2.1] at hnode
    · rintro (hseed | hseed)
      · exact absurd hseed howner
      · exact absurd hseed.2 hallow

theorem sharedBy_of_mem_candidates (hmem : candidate ∈ (collectedNode request key).candidates) :
    ¬DeniedNode request key ∧ SharedBy request key candidate.creator := by
  by_cases howner : OwnerNode request key
  · simp [(collectedNode_of_owner howner).2.2] at hmem
  by_cases hdeny : DeniedNode request key
  · simp [(collectedNode_of_denied howner hdeny).2] at hmem
  by_cases hallow : IndependentlyAllowed request key
  · simp [(collectedNode_of_independent howner hdeny hallow).2.2] at hmem
  · have h := (collectedNode_of_delegable howner hdeny hallow).2.2
    exact ⟨hdeny, (h candidate.creator).mp ⟨candidate, hmem, rfl⟩⟩

theorem exists_candidate_of_sharedBy (hseed : key ∉ (delegationSystem request).seed)
    (hdeny : ¬DeniedNode request key) (hshare : SharedBy request key creator) :
    (collectedNode request key).denied = none ∧
      ∃ candidate ∈ (collectedNode request key).candidates, candidate.creator = creator := by
  have howner : ¬OwnerNode request key := fun h => hseed (.inl h)
  have hallow : ¬IndependentlyAllowed request key := fun h => hseed (.inr ⟨hdeny, h⟩)
  have h := collectedNode_of_delegable howner hdeny hallow
  exact ⟨h.1, (h.2.2 creator).mpr hshare⟩

/-- A node that the search finds empty does not hold its action. -/
theorem not_mem_delegatedNodes_of_empty (h : collectedNode request key = {}) :
    key ∉ delegatedNodes request := by
  have hseed : key ∉ (delegationSystem request).seed := by
    rw [← collectedNode_independent_iff, h]
    exact fun hindependent => Bool.false_ne_true hindependent.2
  intro hmem
  cases hmem with
  | seed hmem => exact hseed hmem
  | step hps =>
    obtain ⟨hdeny, _, hshare, -⟩ := hps
    obtain ⟨-, _, hcandidate, -⟩ := exists_candidate_of_sharedBy hseed hdeny hshare
    rw [h] at hcandidate
    exact List.not_mem_nil hcandidate

theorem not_mem_delegatedNodes_of_suppliedFacts_eq_none
    (hfacts : suppliedFacts request key.principal = none) : key ∉ delegatedNodes request :=
  not_mem_delegatedNodes_of_empty (by simp [collectedNode, hfacts])

theorem denied_of_collectedNode_denied (h : (collectedNode request key).denied ≠ none) :
    DeniedNode request key ∧ ¬OwnerNode request key := by
  by_cases howner : OwnerNode request key
  · exact absurd (collectedNode_of_owner howner).1 h
  by_cases hdeny : DeniedNode request key
  · exact ⟨hdeny, howner⟩
  by_cases hallow : IndependentlyAllowed request key
  · exact absurd (collectedNode_of_independent howner hdeny hallow).1 h
  · exact absurd (collectedNode_of_delegable howner hdeny hallow).1 h

end FileBelt.Authz
