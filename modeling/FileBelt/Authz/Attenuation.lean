import FileBelt.Authz.SearchLimits

/-!
# Attenuation of recursive shares

A recursive share confers nothing that its creator does not hold.  The evaluation of
a request is compared with the plain one, which ignores the provenance of the
entries, and with that of the creator, whose search starts at another node: the creator
holds the action too, but its search may run into the depth limit where the actor's, which
measures depths from another node, does not.
-/

namespace FileBelt.Authz

open Std (TreeMap)
open Support

variable {allowed : AllowedMap} {key : RecursiveShareNodeKey} {state : AllowedMap × Bool}

namespace RecursiveShareAuthorizationRequest

/-- The same question to the plain evaluator, which sees every entry as an
ordinary one. -/
def withoutProvenance (request : RecursiveShareAuthorizationRequest) : AuthorizationRequest where
  principal := request.principal
  resource := request.resource
  driveOwner := request.driveOwner
  action := request.action
  entries := request.entries.map (·.resolved)
  generations := request.generations

/-- The same facts with a creator as the actor; the former actor's facts become
those of a possible creator. -/
def asActor (request : RecursiveShareAuthorizationRequest) (creator : PrincipalId)
    (action : Action) : Option RecursiveShareAuthorizationRequest :=
  (suppliedFacts request creator).map fun subject =>
    { request with
      principal := subject.principal
      action := action
      entries := subject.entries
      creatorFacts :=
        { principal := request.principal, entries := request.entries } ::
          request.creatorFacts.filter fun facts =>
            facts.principal.principalId ≠ request.principal.principalId }

/-- A recursive share that the request holds for its actor and action. -/
structure HoldsShare (request : RecursiveShareAuthorizationRequest)
    (share : RecursiveShareResolvedAclEntry) : Prop where
  mem : share ∈ request.entries
  applicable : entryApplicable request.principal request.resource request.action
    share.resolved
  allow : share.resolved.entry.effect = .allow
  recursive : share.provenance = .recursiveDirectShare share.resolved.entry.createdBy

/-- The actor may act through recursive shares alone, and each of them whose creator may share
and act was created by `creator`. -/
structure OnlyThrough (request : RecursiveShareAuthorizationRequest) (creator : PrincipalId) :
    Prop where
  not_owner : ¬OwnerNode request (rootKey request)
  not_independent : ¬IndependentlyAllowed request (rootKey request)
  created : ∀ share, request.HoldsShare share →
    (∀ action ∈ [Action.share, request.action],
      { principal := share.resolved.entry.createdBy, action := action } ∈
        delegatedNodes request) → share.resolved.entry.createdBy = creator

/-- The evaluation of a creator as the actor, over the same facts, allows an action. -/
def Allows (request : RecursiveShareAuthorizationRequest) (creator : PrincipalId)
    (action : Action) : Prop :=
  ∃ other decision, request.asActor creator action = some other ∧
    evaluateRecursiveDirectShares other = .ok decision ∧ decision.allowed

end RecursiveShareAuthorizationRequest

open RecursiveShareAuthorizationRequest

section

variable {request : RecursiveShareAuthorizationRequest}

theorem suppliedFacts_rootKey : suppliedFacts request (rootKey request).principal =
      some { principal := request.principal, entries := request.entries } :=
  if_pos rfl

/-! ## The plain evaluation -/

theorem withoutProvenance_applicable : request.withoutProvenance.entries.filter
        (entryApplicable request.principal request.resource request.action) =
      (applicableEntries { principal := request.principal, entries := request.entries }
        request.action request).map (·.resolved) := by
  rw [withoutProvenance, List.filter_map]
  rfl

theorem evaluate_allowed_of_entries {request : AuthorizationRequest}
    (howner : implicitOwnerReason request.principal request.driveOwner request.action = none)
    (hdeny : entryVerdict (request.entries.filter
        (entryApplicable request.principal request.resource request.action))
      .deny .explicitDeny .inheritedDeny = none) (hallow : ∃ resolved ∈ request.entries.filter
        (entryApplicable request.principal request.resource request.action),
      resolved.entry.effect = .allow) : (evaluate request).allowed := by
  obtain ⟨⟨_, _⟩, hverdict⟩ := Option.isSome_iff_exists.mp
    (entryVerdict_isSome.mpr hallow : (entryVerdict _ .allow .explicitAllow .inheritedAllow).isSome)
  simp only [evaluate, howner, hdeny, hverdict]

/-- A node that holds its action without being the owner's has an applicable
allow entry and no deny. -/
theorem hasApplicable_allow_of_delegated (hmem : key ∈ delegatedNodes request)
    (howner : ¬OwnerNode request key) : HasApplicable request key fun provenanced =>
      provenanced.resolved.entry.effect = .allow := by
  have hweaken : ∀ {P : RecursiveShareResolvedAclEntry → Prop},
      (∀ provenanced, P provenanced → provenanced.resolved.entry.effect = .allow) →
      HasApplicable request key P →
      HasApplicable request key fun provenanced =>
        provenanced.resolved.entry.effect = .allow := by
    rintro P hP ⟨subject, hfacts, provenanced, hentry, happlicable, h⟩
    exact ⟨subject, hfacts, provenanced, hentry, happlicable, hP _ h⟩
  cases hmem with
  | seed hseed =>
    rcases hseed with h | ⟨-, h⟩
    · exact absurd h howner
    · exact hweaken (fun _ h => h.1) h
  | step hps =>
    obtain ⟨-, _, h, -⟩ := hps
    exact hweaken (fun _ h => h.1) h

theorem evaluate_withoutProvenance_of_delegated (hmem : rootKey request ∈ delegatedNodes request) :
    (evaluate request.withoutProvenance).allowed := by
  by_cases howner : OwnerNode request (rootKey request)
  · obtain ⟨_, hfacts, hreason⟩ := howner
    rw [suppliedFacts_rootKey, Option.some.injEq] at hfacts
    subst hfacts
    obtain ⟨reason, hreason⟩ := Option.isSome_iff_exists.mp hreason
    have howns : implicitOwnerReason request.withoutProvenance.principal
        request.withoutProvenance.driveOwner
        request.withoutProvenance.action = some reason := hreason
    simp only [evaluate, howns]
  · have hdeny : ¬DeniedNode request (rootKey request) := fun h =>
      not_mem_delegatedNodes_of_denied h howner hmem
    have hallow := hasApplicable_allow_of_delegated hmem howner
    rw [hasApplicable_iff suppliedFacts_rootKey] at hallow
    apply evaluate_allowed_of_entries
    · exact implicitOwnerReason_eq_none howner suppliedFacts_rootKey
    · refine (congrArg (entryVerdict · _ _ _) withoutProvenance_applicable).trans
        (Option.not_isSome_iff_eq_none.mp ?_)
      exact mt (denyVerdict_isSome suppliedFacts_rootKey).mp hdeny
    · obtain ⟨provenanced, hentry, heffect⟩ := hallow
      refine ⟨provenanced.resolved, ?_, heffect⟩
      refine withoutProvenance_applicable ▸ ?_
      exact List.mem_map_of_mem hentry

end

/-! ## Another actor over the same facts -/

section

variable {request other : RecursiveShareAuthorizationRequest}
  {creator : PrincipalId} {action : Action}

theorem principalId_of_suppliedFacts {subject : RecursiveShareSubject}
    (h : suppliedFacts request creator = some subject) :
    subject.principal.principalId = creator := by
  unfold suppliedFacts at h
  split at h
  · next hself =>
    rw [← Option.some.inj h]
    exact hself.symm
  · split at h
    · next facts hsupplied =>
      have hmem : facts ∈ request.creatorFacts.filter fun facts =>
          facts.principal.principalId = creator := by
        rw [hsupplied]
        exact List.mem_singleton.mpr rfl
      rw [← Option.some.inj h]
      exact of_decide_eq_true (List.mem_filter.mp hmem).2
    · cases h

theorem filter_creatorFacts_asActor (principal : PrincipalId) :
    (({ principal := request.principal, entries := request.entries } :
          PrincipalAuthorizationFacts) ::
        request.creatorFacts.filter fun facts =>
          facts.principal.principalId ≠ request.principal.principalId).filter
        (fun facts => facts.principal.principalId = principal) =
      if principal = request.principal.principalId then
        [{ principal := request.principal, entries := request.entries }]
      else request.creatorFacts.filter fun facts =>
        facts.principal.principalId = principal := by
  by_cases hactor : principal = request.principal.principalId
  · have hnone : (request.creatorFacts.filter fun facts =>
        facts.principal.principalId ≠ request.principal.principalId).filter
          (fun facts => facts.principal.principalId = principal) = [] := by
      rw [List.filter_eq_nil_iff]
      intro facts hfacts hprincipal
      have hother := of_decide_eq_true (List.mem_filter.mp hfacts).2
      exact hother ((of_decide_eq_true hprincipal).trans hactor)
    rw [if_pos hactor, List.filter_cons_of_pos, hnone]
    exact decide_eq_true hactor.symm
  · rw [if_neg hactor, List.filter_cons_of_neg, List.filter_filter]
    · refine List.filter_congr ?_
      intro facts _
      by_cases hprincipal : facts.principal.principalId = principal
      · simp [hprincipal, hactor]
      · simp [hprincipal]
    · exact fun h => hactor (of_decide_eq_true h).symm

theorem suppliedFacts_asActor (h : request.asActor creator action = some other)
    (principal : PrincipalId) :
    suppliedFacts other principal = suppliedFacts request principal := by
  obtain ⟨subject, hsubject, rfl⟩ := Option.map_eq_some_iff.mp h
  have hid := principalId_of_suppliedFacts hsubject
  by_cases hcreator : principal = creator
  · rw [hcreator, hsubject, suppliedFacts, if_pos hid.symm]
  have hne : principal ≠ subject.principal.principalId := by
    rw [hid]
    exact hcreator
  rw [suppliedFacts, if_neg hne]
  rw [filter_creatorFacts_asActor, suppliedFacts]
  by_cases hactor : principal = request.principal.principalId
  · rw [if_pos hactor, if_pos hactor]
  · rw [if_neg hactor, if_neg hactor]

theorem asActor_fields (h : request.asActor creator action = some other) :
    other.resource = request.resource ∧ other.driveOwner = request.driveOwner ∧
      rootKey other = ⟨creator, action⟩ := by
  obtain ⟨_, hsubject, rfl⟩ := Option.map_eq_some_iff.mp h
  refine ⟨rfl, rfl, ?_⟩
  rw [rootKey, principalId_of_suppliedFacts hsubject]

theorem recursiveShareNode_congr (hresource : other.resource = request.resource)
    (howner : other.driveOwner = request.driveOwner)
    (subject : RecursiveShareSubject) (action : Action) :
    recursiveShareNode subject action other = recursiveShareNode subject action request := by
  simp only [recursiveShareNode, applicableEntries, hresource, howner]

variable (h : request.asActor creator action = some other)
include h

theorem collectedNode_asActor : collectedNode other = collectedNode request := by
  obtain ⟨hresource, howner, -⟩ := asActor_fields h
  funext key
  simp only [collectedNode, suppliedFacts_asActor h, recursiveShareNode_congr hresource howner]

theorem delegationSystem_asActor : delegationSystem other = delegationSystem request := by
  obtain ⟨hresource, howner, -⟩ := asActor_fields h
  simp only [delegationSystem, OwnerNode, DeniedNode, IndependentlyAllowed,
    SharedBy, HasApplicable, suppliedFacts_asActor h, hresource, howner]

theorem delegatedNodes_asActor : delegatedNodes other = delegatedNodes request := by
  rw [delegatedNodes, delegatedNodes, delegationSystem_asActor h]

theorem delegationEdge_asActor : DelegationEdge other = DelegationEdge request := by
  funext key next
  rw [DelegationEdge, DelegationEdge, collectedNode_asActor h]

theorem shallowDelegation_asActor :
    ShallowDelegation other (rootKey other) ↔ ShallowDelegation request ⟨creator, action⟩ := by
  rw [ShallowDelegation, ShallowDelegation, (asActor_fields h).2.2, delegationEdge_asActor h,
    collectedNode_asActor h]

/-- The limits of the actor's search bound the creator's, but for the depth. -/
theorem withinLimits_asActor {collected : Finset RecursiveShareNodeKey}
    (hlimits : WithinLimits request collected) (hcreator : ⟨creator, action⟩ ∈ collected)
    (hshallow : ShallowDelegation request ⟨creator, action⟩) : WithinLimits other collected := by
  refine ⟨?_, ?_, ?_, (shallowDelegation_asActor h).mpr hshallow⟩
  · rw [(asActor_fields h).2.2]
    exact hcreator
  · rw [delegationEdge_asActor h]
    exact hlimits.closed
  · rw [edgeCount, collectedNode_asActor h]
    exact hlimits.edges_le

end

/-! ## The share behind a decision -/

section

variable {request : RecursiveShareAuthorizationRequest}
  {nodes : List (RecursiveShareNodeKey × RecursiveShareNode)}

/-- A recorded candidate belongs to its node, and the nodes it needs hold. -/
def RecordedProofs (request : RecursiveShareAuthorizationRequest) (allowed : AllowedMap) : Prop :=
  ∀ (key : RecursiveShareNodeKey) (candidate : RecursiveShareCandidate),
    allowed[key]? = some (some candidate) →
      candidate ∈ (collectedNode request key).candidates ∧
        ∀ next, candidate.Needs key.action next → next ∈ delegatedNodes request

theorem independentNodes_recorded : RecordedProofs request (independentNodes nodes) := by
  unfold independentNodes
  induction nodes using List.reverseRecOn with
  | nil =>
    intro key candidate hproof
    simp at hproof
  | append_singleton rest node ih =>
    rw [List.foldl_append, List.foldl_cons, List.foldl_nil]
    split
    · intro key candidate hproof
      simp only [TreeMap.getElem?_insert] at hproof
      split_ifs at hproof
      · cases Option.some.inj hproof
      · exact ih key candidate hproof
    · exact ih

theorem proofVisit_recorded {node : RecursiveShareNodeKey × RecursiveShareNode}
    (hnode : node.2 = collectedNode request node.1) (hinv : ProofInvariant request state.1)
    (h : RecordedProofs request state.1) : RecordedProofs request (proofVisit state node).1 := by
  rcases proofVisit_cases state node with
    hsame | ⟨candidate, hmem, -, -, hproven, hnext⟩
  · rw [hsame]
    exact h
  · rw [hnext]
    intro key other hproof
    simp only [TreeMap.getElem?_insert, Std.LawfulEqCmp.compare_eq_iff_eq] at hproof
    split_ifs at hproof with hkey
    · obtain ⟨hshare, haction⟩ := recursiveShareCandidateIsProven_iff.mp hproven
      rw [← hkey, ← Option.some.inj (Option.some.inj hproof)]
      rw [hnode] at hmem
      refine ⟨hmem, ?_⟩
      rintro next (rfl | rfl)
      · exact hinv.sound _ hshare
      · exact hinv.sound _ haction
    · exact h key other hproof

theorem foldl_proofVisit_recorded (hnodes : ∀ node ∈ nodes, node.2 = collectedNode request node.1)
    (hinv : ProofInvariant request state.1) (h : RecordedProofs request state.1) :
    RecordedProofs request (nodes.foldl proofVisit state).1 := by
  induction nodes generalizing state with
  | nil => exact h
  | cons node rest ih =>
    have hnode := hnodes node List.mem_cons_self
    exact ih (List.forall_mem_cons.mp hnodes).2
      (proofVisit_invariant hnode hinv) (proofVisit_recorded hnode hinv h)

theorem proveNodes_recorded (hnodes : ∀ node ∈ nodes, node.2 = collectedNode request node.1)
    (hinv : ProofInvariant request allowed)
    (h : RecordedProofs request allowed) : RecordedProofs request (proveNodes nodes allowed) := by
  fun_induction proveNodes nodes allowed with
  | case1 allowed hchanged ih =>
    exact ih (foldl_proofVisit_invariant hnodes hinv) (foldl_proofVisit_recorded hnodes hinv h)
  | case2 => exact foldl_proofVisit_recorded hnodes hinv h

/-- The candidates of the actor's node are its recursive shares. -/
theorem exists_share_of_mem_candidates {candidate : RecursiveShareCandidate}
    (hmem : candidate ∈ (collectedNode request (rootKey request)).candidates) :
    ∃ share, request.HoldsShare share ∧ share.resolved.entry.id = candidate.entryId ∧
      share.resolved.entry.createdBy = candidate.creator := by
  rw [collectedNode, suppliedFacts_rootKey] at hmem
  dsimp only [recursiveShareNode] at hmem
  split at hmem
  · simp at hmem
  · split at hmem
    · simp at hmem
    · split at hmem
      · simp at hmem
      · rw [mem_canonicalizeCandidates, List.mem_filterMap] at hmem
        obtain ⟨share, hshare, hcandidate⟩ := hmem
        obtain ⟨heffect, hprovenance, hcreated, hid⟩ := shareCandidate_eq_some.mp hcandidate
        obtain ⟨hentry, happlicable⟩ := List.mem_filter.mp hshare
        refine ⟨share, ⟨hentry, happlicable, heffect, ?_⟩, hid, hcreated⟩
        rw [hcreated]
        exact hprovenance

/-- A node without an owner or an independent allow is allowed by its recorded candidate. -/
theorem rootDecision_eq_candidate (hseed : rootKey request ∉ (delegationSystem request).seed)
    (hallowed : (rootDecision request
      (collectedNode request (rootKey request)) allowed).allowed) :
    ∃ candidate : RecursiveShareCandidate, allowed[rootKey request]? = some (some candidate) ∧
        rootDecision request (collectedNode request (rootKey request)) allowed =
          { allowed := true, reason := .inheritedAllow,
            sourceEntries := [candidate.entryId],
            generations := request.generations } := by
  unfold rootDecision at hallowed ⊢
  split at hallowed
  · simp at hallowed
  · next hdenied =>
    split at hallowed
    · next reason sources hindependent =>
      exact absurd (collectedNode_independent_iff.mp ⟨hdenied, by simp [hindependent]⟩) hseed
    · split at hallowed
      · next candidate hproof => exact ⟨candidate, hproof, rfl⟩
      · simp at hallowed

end

/-! ## Requests without recursive shares -/

section

variable {request : RecursiveShareAuthorizationRequest}

theorem collectNodes_root (h : (collectedNode request (rootKey request)).candidates = []) :
    collectNodes request request.creators
      (initialSearch request) = .ok ((∅ : NodeMap RecursiveShareNode).insert
        (rootKey request) (collectedNode request (rootKey request))) := by
  have hstep : searchStep request request.creators
      (rootKey request) { initialSearch request with pending := [] } =
      .ok { initialSearch request with
        pending := []
        nodes := (∅ : NodeMap RecursiveShareNode).insert (rootKey request)
          (collectedNode request (rootKey request)) } := by
    rw [searchStep_of_notMem TreeMap.not_mem_emptyc TreeMap.getElem?_insert_self, h]
    rfl
  rw [collectNodes_cons rfl, hstep]
  exact collectNodes_nil rfl

/-- A node without candidates decides as the plain evaluator does, unless a candidate
was recorded for it. -/
theorem rootDecision_of_independent (h : ∀ entry ∈ request.entries, entry.provenance = .independent)
    (hallowed : ∀ candidate, allowed[rootKey request]? ≠ some (some candidate)) :
    rootDecision request (collectedNode request (rootKey request)) allowed =
      evaluate request.withoutProvenance := by
  have hentries : (applicableEntries
      { principal := request.principal, entries := request.entries } request.action
      request).filter (fun provenanced => provenanced.provenance == .independent) =
      applicableEntries { principal := request.principal, entries := request.entries }
        request.action request :=
    List.filter_eq_self.mpr fun entry hentry => by
      rw [h entry (List.mem_of_mem_filter hentry)]
      rfl
  have happlicable := @withoutProvenance_applicable request
  rw [collectedNode, suppliedFacts_rootKey]
  simp only [rootDecision, recursiveShareNode, evaluate, rootKey, hentries]
  dsimp only [withoutProvenance] at happlicable ⊢
  rw [happlicable]
  generalize (applicableEntries _ _ request).map (·.resolved) = entries
  cases implicitOwnerReason request.principal request.driveOwner request.action with
  | some => rfl
  | none =>
    cases entryVerdict entries .deny .explicitDeny .inheritedDeny with
    | some => rfl
    | none =>
      cases entryVerdict entries .allow .explicitAllow .inheritedAllow with
      | some => rfl
      | none =>
        dsimp only
        split
        · next candidate hproof => exact absurd hproof (hallowed candidate)
        · rfl

/-- Without recursive shares the two evaluators agree, whatever facts of creators are
supplied. -/
theorem evaluateRecursiveDirectShares_of_independent
    (request : RecursiveShareAuthorizationRequest)
    (h : ∀ entry ∈ request.entries, entry.provenance = .independent) :
    evaluateRecursiveDirectShares request = .ok (evaluate request.withoutProvenance) := by
  have hcandidates : (collectedNode request (rootKey request)).candidates = [] := by
    refine List.eq_nil_iff_forall_not_mem.mpr fun candidate hmem => ?_
    obtain ⟨share, hshare, -⟩ := exists_share_of_mem_candidates hmem
    cases (h share hshare.mem).symm.trans hshare.recursive
  have hcollect := collectNodes_root hcandidates
  have hlist := (collectNodes_collected hcollect initialSearch_invariant).toList_eq
  rw [evaluateRecursiveDirectShares_of_collectNodes hcollect,
    rootDecision_of_independent h fun candidate hproof => ?_]
  obtain ⟨hmem, -⟩ := proveNodes_recorded hlist (independentNodes_spec hlist).1
    independentNodes_recorded _ candidate hproof
  rw [hcandidates] at hmem
  exact List.not_mem_nil hmem

theorem evaluateRecursiveDirectShares_of_independent_entry :
    evaluateRecursiveDirectShares
        { chainRequest with entries := [chainEntry 7 1 .readContent 50 .independent] } =
      .ok { chainDecision with reason := .explicitAllow, sourceEntries := [7] } :=
  (evaluateRecursiveDirectShares_of_independent _
    fun entry hentry => by rw [List.mem_singleton.mp hentry]; rfl).trans (by decide +kernel)

end

/-! ## Attenuation -/

section

variable {request : RecursiveShareAuthorizationRequest}

/-- What the search of a successful evaluation has collected. -/
structure CollectedSearch (request : RecursiveShareAuthorizationRequest)
    (decision : AuthorizationDecision) (nodes : NodeMap RecursiveShareNode)
    (collected : Finset RecursiveShareNodeKey) : Prop where
  nodes_collected : CollectedNodes request nodes
  limits : WithinLimits request collected
  decision_eq : decision = rootDecision request (collectedNode request (rootKey request))
    (proveNodes nodes.toList (independentNodes nodes.toList))

theorem exists_collectedSearch {decision : AuthorizationDecision}
    (hok : evaluateRecursiveDirectShares request = .ok decision) :
    ∃ nodes collected, CollectedSearch request decision nodes collected := by
  obtain ⟨nodes, hcollect, hdecision⟩ := evaluateRecursiveDirectShares_eq_ok hok
  obtain ⟨collected, hlimits⟩ := collectNodes_withinLimits hcollect initialSearch_progress
  exact ⟨nodes, collected, collectNodes_collected hcollect initialSearch_invariant, hlimits,
    hdecision⟩

/-- A node that was collected and holds its action is allowed when its principal asks,
unless a chain of shares behind it is too long. -/
theorem CollectedSearch.allows_iff {decision : AuthorizationDecision}
    {nodes : NodeMap RecursiveShareNode} {collected : Finset RecursiveShareNodeKey}
    (h : CollectedSearch request decision nodes collected)
    {creator : PrincipalId} {action : Action} (hcollected : ⟨creator, action⟩ ∈ collected)
    (hholds : ⟨creator, action⟩ ∈ delegatedNodes request) :
    request.Allows creator action ↔ ShallowDelegation request ⟨creator, action⟩ := by
  constructor
  · rintro ⟨other, decision, hother, hok, -⟩
    obtain ⟨_, _, hsearch⟩ := exists_collectedSearch hok
    exact (shallowDelegation_asActor hother).mp hsearch.limits.shallow
  · intro hshallow
    cases hfacts : suppliedFacts request creator with
    | none =>
      exact absurd hholds (not_mem_delegatedNodes_of_suppliedFacts_eq_none hfacts)
    | some =>
      obtain ⟨other, hother⟩ : ∃ other, request.asActor creator action = some other := by
        rw [asActor, hfacts]
        exact ⟨_, rfl⟩
      have hlimits := withinLimits_asActor hother h.limits hcollected hshallow
      obtain ⟨_, hfound⟩ := collectNodes_ok hlimits initialSearch_progress
      have hevaluate := evaluateRecursiveDirectShares_of_collectNodes hfound
      refine ⟨other, _, hother, hevaluate, ?_⟩
      rw [allowed_iff_mem_delegatedNodes hevaluate, (asActor_fields hother).2.2,
        delegatedNodes_asActor hother]
      exact hholds

/-- A recursive share confers no more than its creator holds.  An allowing decision is also
that of the plain evaluator; and where it rests on the shares of one creator alone, it names
one of these, and the creator is allowed to share and to do the same if and only if no chain
of shares behind the creator is longer than the depth limit. -/
theorem evaluateRecursiveDirectShares_attenuates
    (request : RecursiveShareAuthorizationRequest)
    (decision : AuthorizationDecision)
    (hok : evaluateRecursiveDirectShares request = .ok decision)
    (hallowed : decision.allowed) :
    (evaluate request.withoutProvenance).allowed ∧
      ∀ creator, request.OnlyThrough creator →
        (∃ share, request.HoldsShare share ∧ share.resolved.entry.createdBy = creator ∧
          decision.sourceEntries = [share.resolved.entry.id]) ∧
        ∀ action ∈ [Action.share, request.action],
          request.Allows creator action ↔
            ShallowDelegation request { principal := creator, action := action } := by
  obtain ⟨_, collected, hsearch⟩ := exists_collectedSearch hok
  have hroot := (allowed_iff_mem_delegatedNodes hok).mp hallowed
  refine ⟨evaluate_withoutProvenance_of_delegated hroot, ?_⟩
  intro creator honly
  have hseed : rootKey request ∉ (delegationSystem request).seed := by
    rintro (h | ⟨-, h⟩)
    · exact honly.not_owner h
    · exact honly.not_independent h
  rw [hsearch.decision_eq] at hallowed
  obtain ⟨candidate, hproof, hdecision⟩ := rootDecision_eq_candidate hseed hallowed
  have hlist := hsearch.nodes_collected.toList_eq
  obtain ⟨hcandidate, hholds⟩ := proveNodes_recorded hlist
    (independentNodes_spec hlist).1 independentNodes_recorded
    (rootKey request) candidate hproof
  obtain ⟨share, hshare, hid, hcreated⟩ := exists_share_of_mem_candidates hcandidate
  have hneeds : ∀ action ∈ [Action.share, request.action],
      candidate.Needs request.action ⟨candidate.creator, action⟩ := by
    intro action haction
    rcases List.mem_cons.mp haction with rfl | haction
    · exact .inl rfl
    · rw [List.mem_singleton.mp haction]
      exact .inr rfl
  obtain rfl : candidate.creator = creator := by
    rw [← hcreated]
    refine honly.created share hshare ?_
    rw [hcreated]
    exact fun action haction => hholds _ (hneeds action haction)
  refine ⟨⟨share, hshare, hcreated, ?_⟩, ?_⟩
  · rw [hsearch.decision_eq, hdecision, hid]
  · intro action haction
    exact hsearch.allows_iff (hsearch.limits.closed _ hsearch.limits.root_mem _
      ⟨candidate, hcandidate, hneeds action haction⟩) (hholds _ (hneeds action haction))

/-- The nodes that the shares of a node need, share by share. -/
theorem forall_delegationEdge {P : RecursiveShareNodeKey → Prop} :
    (∀ next, DelegationEdge request key next → P next) ↔
      ∀ candidate ∈ (collectedNode request key).candidates,
        P { principal := candidate.creator, action := .share } ∧
          P { principal := candidate.creator, action := key.action } := by
  constructor
  · intro h candidate hcandidate
    exact ⟨h _ ⟨candidate, hcandidate, .inl rfl⟩, h _ ⟨candidate, hcandidate, .inr rfl⟩⟩
  · rintro h next ⟨candidate, hcandidate, rfl | rfl⟩
    · exact (h candidate hcandidate).1
    · exact (h candidate hcandidate).2

/-- Where every share leads to a smaller rank, no path is longer than the rank it starts
from. -/
theorem ShallowDelegation.of_rank {bound : Finset RecursiveShareNodeKey}
    (rank : RecursiveShareNodeKey → ℕ) (hclosed : ∀ key ∈ bound, ∀ next,
      DelegationEdge request key next → next ∈ bound ∧ rank next < rank key)
    (hkey : key ∈ bound) (hrank : rank key < maxRecursiveShareDelegationDepth) :
    ShallowDelegation request key := by
  intro n other hpath _
  have hlength : ∀ {n other}, Path (DelegationEdge request) key n other →
      other ∈ bound ∧ n + rank other ≤ rank key := by
    intro n other hpath
    induction hpath with
    | refl => exact ⟨hkey, (Nat.zero_add _).le⟩
    | tail _ hedge ih =>
      obtain ⟨hmem, hlt⟩ := hclosed _ ih.1 _ hedge
      exact ⟨hmem, by omega⟩
  have hle := (hlength hpath).2
  exact ⟨n, by omega, hpath⟩

/-- A search within its limits succeeds and decides the least delegation. -/
theorem evaluateRecursiveDirectShares_within_limits {bound : Finset RecursiveShareNodeKey}
    (h : WithinLimits request bound) :
    ∃ decision, evaluateRecursiveDirectShares request = .ok decision ∧
      (decision.allowed ↔ rootKey request ∈ delegatedNodes request) := by
  obtain ⟨_, hfound⟩ := collectNodes_ok h initialSearch_progress
  have hevaluate := evaluateRecursiveDirectShares_of_collectNodes hfound
  exact ⟨_, hevaluate, allowed_iff_mem_delegatedNodes hevaluate⟩

end

/-! In the chain of two shares, the creator 2 of the actor's share may share and
read the content as well. -/

def chainNodes : Finset RecursiveShareNodeKey :=
  {⟨1, .readContent⟩, ⟨2, .share⟩, ⟨2, .readContent⟩, ⟨3, .share⟩, ⟨3, .readContent⟩}

theorem chainNodes_closed : ∀ key ∈ chainNodes, ∀ next, DelegationEdge chainRequest key next →
    next ∈ chainNodes ∧ 3 - next.principal < 3 - key.principal := by
  simp only [forall_delegationEdge]
  decide +kernel

theorem chainRequest_within_limits :
    ∃ decision, evaluateRecursiveDirectShares chainRequest = .ok decision ∧
      (decision.allowed ↔ rootKey chainRequest ∈ delegatedNodes chainRequest) :=
  @evaluateRecursiveDirectShares_within_limits chainRequest chainNodes
    { root_mem := by decide
      closed := fun key hkey next hedge => (chainNodes_closed key hkey next hedge).1
      edges_le := by decide +kernel
      shallow := .of_rank (fun key => 3 - key.principal) chainNodes_closed (by decide)
        (by decide) }

theorem suppliedFacts_rootKey_eq {subject : RecursiveShareSubject}
    {request : RecursiveShareAuthorizationRequest}
    (h : suppliedFacts request (rootKey request).principal = some subject) :
    subject = ⟨request.principal, request.entries⟩ :=
  Option.some.inj (h.symm.trans suppliedFacts_rootKey)

/-- An actor who is not the owner and whose entries are all recursive shares. -/
theorem onlyThrough_of_recursive {request : RecursiveShareAuthorizationRequest}
    {creator : PrincipalId}
    (howner : implicitOwnerReason request.principal request.driveOwner request.action = none)
    (hentries : ∀ entry ∈ request.entries, entry.provenance ≠ .independent)
    (hcreated : ∀ share ∈ request.entries, share.resolved.entry.createdBy ≠ creator →
      ⟨share.resolved.entry.createdBy, .share⟩ ∉ delegatedNodes request) :
    request.OnlyThrough creator := by
  refine ⟨?_, ?_, ?_⟩
  · rintro ⟨subject, hfacts, hreason⟩
    rw [suppliedFacts_rootKey_eq hfacts] at hreason
    cases (congrArg Option.isSome howner).symm.trans hreason
  · rintro ⟨subject, hfacts, entry, hentry, -, -, hprovenance⟩
    rw [suppliedFacts_rootKey_eq hfacts] at hentry
    exact hentries entry hentry hprovenance
  · intro share hshare hholds
    by_contra hne
    exact hcreated share hshare.mem hne (hholds _ List.mem_cons_self)

theorem chainRequest_attenuated :
    (evaluate chainRequest.withoutProvenance).allowed ∧
      chainRequest.Allows 2 .share ∧ chainRequest.Allows 2 .readContent := by
  have hok : evaluateRecursiveDirectShares chainRequest = .ok chainDecision := by
    decide +kernel
  obtain ⟨hplain, honly⟩ := evaluateRecursiveDirectShares_attenuates
    chainRequest chainDecision hok rfl
  have hiff := (honly 2 (onlyThrough_of_recursive rfl (by decide) fun share hshare hne =>
    absurd (by rw [List.mem_singleton.mp hshare]; rfl) hne)).2
  have hshallow : ∀ action, ⟨2, action⟩ ∈ chainNodes →
      ShallowDelegation chainRequest { principal := 2, action := action } := fun action hmem =>
    .of_rank (fun key => 3 - key.principal) chainNodes_closed hmem (show 3 - 2 < 128 by decide)
  exact ⟨hplain, (hiff .share (by decide)).mpr (hshallow _ (by decide)),
    (hiff .readContent (by decide)).mpr (hshallow _ (by decide))⟩

/-! The depth limit is measured from the actor, along the shortest way to each
node.  Here the actor 130 holds shares of creators 129 and 200.  The share of 200, who
may not share, leads the search to the middle of the long chain behind 129; the actor is
allowed by the share of 129 alone, whose own evaluation finds the chain too long. -/

def ladderEntry (id principal creator : ℕ) (action : Action) : RecursiveShareResolvedAclEntry :=
  chainEntry id principal action creator (.recursiveDirectShare creator)

def ladderRequest : RecursiveShareAuthorizationRequest where
  principal := { principalId := 130, memberships := [] }
  resource := .node 9
  driveOwner := .user 0
  action := .readContent
  entries := [ladderEntry 1 130 129 .readContent, ladderEntry 2 130 200 .readContent]
  creatorFacts :=
    { principal := { principalId := 0, memberships := [] }, entries := [] } ::
      { principal := { principalId := 200, memberships := [] }
        entries := [ladderEntry 3 200 64 .readContent] } ::
      { principal := { principalId := 129, memberships := [] }
        entries := [chainEntry 4 129 .readContent 0 .independent, ladderEntry 5 129 128 .share] } ::
      (List.range 128).map fun i =>
        { principal := { principalId := i + 1, memberships := [] }
          entries := [ladderEntry (i + 6) (i + 1) i .share] }
  generations := { resourceAcl := 1, membership := 1, namespaceGeneration := 1 }

theorem ladderRequest_confers_more_than_creator_holds :
    evaluateRecursiveDirectShares ladderRequest =
        .ok
          { allowed := true, reason := .inheritedAllow, sourceEntries := [1],
            generations := ladderRequest.generations } ∧
      ladderRequest.OnlyThrough 129 ∧
      (ladderRequest.asActor 129 .share).map evaluateRecursiveDirectShares =
        some (.error (.limit .delegationDepthExceeded)) ∧
      ¬ladderRequest.Allows 129 .share := by
  have hcreator : (ladderRequest.asActor 129 .share).map evaluateRecursiveDirectShares =
      some (.error (.limit .delegationDepthExceeded)) := by
    decide +kernel
  refine ⟨by decide +kernel, onlyThrough_of_recursive rfl (by decide) ?_, hcreator, ?_⟩
  · intro share hshare hne hmem
    rcases List.mem_pair.mp hshare with rfl | rfl
    · exact hne rfl
    · exact not_mem_delegatedNodes_of_empty (by decide +kernel) hmem
  · rintro ⟨other, decision, hother, hok, -⟩
    rw [hother, Option.map_some, hok] at hcreator
    cases hcreator

end FileBelt.Authz
