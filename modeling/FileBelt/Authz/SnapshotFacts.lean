import FileBelt.Authz.DelegationDecision
import FileBelt.Authz.Fence

/-!
# The facts of a snapshot suffice

A snapshot holds the facts of the actor and of the creators that a recursive query
reaches from there.  The evaluator asks for no others, so its decision is the one over
the facts of all enabled principals.
-/

namespace FileBelt.Authz

open Std (TreeMap)

/-! ## Evaluations that see the same facts -/

section

variable {request full : RecursiveShareAuthorizationRequest} {key other : RecursiveShareNodeKey}
  {state next : SearchState} {depth : ℕ}

/-- Requests that differ in creator facts only, outside a set that shares do not leave. -/
structure AgreeOn (request full : RecursiveShareAuthorizationRequest)
    (known : Set PrincipalId) : Prop where
  principal_eq : full.principal = request.principal
  resource_eq : full.resource = request.resource
  driveOwner_eq : full.driveOwner = request.driveOwner
  action_eq : full.action = request.action
  generations_eq : full.generations = request.generations
  actor_mem : request.principal.principalId ∈ known
  facts_eq : ∀ principal ∈ known, suppliedFacts full principal = suppliedFacts request principal
  closed : ∀ key : RecursiveShareNodeKey, key.principal ∈ known →
    ∀ candidate ∈ (collectedNode request key).candidates, candidate.creator ∈ known

variable {known : Set PrincipalId}

theorem AgreeOn.searchStep_eq (h : AgreeOn request full known)
    (hkey : key.principal ∈ known) (state : SearchState) :
    searchStep full (collectCreatorFacts full.creatorFacts) key state =
      searchStep request request.creators key state := by
  unfold searchStep
  rw [recursiveShareSubject_eq_suppliedFacts,
    recursiveShareSubject_eq_suppliedFacts, h.facts_eq _ hkey]
  simp only [recursiveShareNode, applicableEntries, h.resource_eq, h.driveOwner_eq]

theorem mem_enqueue_pending (h : other ∈ (enqueueRecursiveShareNode state key depth).pending) :
    other ∈ state.pending ∨ other = key := by
  rcases enqueueRecursiveShareNode_cases state key depth with ⟨-, heq⟩ | heq
  · rw [heq] at h
    exact .inl h
  · rw [heq] at h
    rcases List.mem_append.mp h with h | h
    · exact .inl h
    · exact .inr (List.mem_singleton.mp h)

theorem mem_queueCreator_pending {candidate : RecursiveShareCandidate}
    (h : other ∈ (queueCreator key depth candidate state).pending) :
    other ∈ state.pending ∨ other.principal = candidate.creator := by
  simp only [queueCreator] at h
  split at h
  · rcases mem_enqueue_pending h with h | rfl
    · rcases mem_enqueue_pending h with h | rfl
      · exact .inl h
      · exact .inr rfl
    · exact .inr rfl
  · rcases mem_enqueue_pending h with h | rfl
    · exact .inl h
    · exact .inr rfl

theorem mem_followCandidates_pending {candidates : List RecursiveShareCandidate}
    (hfollow : followCandidates key depth candidates state = .ok next) (h : other ∈ next.pending) :
    other ∈ state.pending ∨ ∃ candidate ∈ candidates, other.principal = candidate.creator := by
  induction candidates generalizing state with
  | nil =>
    rw [followCandidates, Except.ok.injEq] at hfollow
    rw [← hfollow] at h
    exact .inl h
  | cons candidate rest ih =>
    obtain ⟨-, hfollow⟩ := followCandidates_cons_eq_ok hfollow
    rcases ih hfollow with hmid | ⟨found, hfound, hcreator⟩
    · rcases mem_queueCreator_pending hmid with hstate | hcreator
      · exact .inl hstate
      · exact .inr ⟨candidate, List.mem_cons_self, hcreator⟩
    · exact .inr ⟨found, List.mem_cons_of_mem _ hfound, hcreator⟩

variable (h : AgreeOn request full known)
include h

theorem AgreeOn.pending_known (hkey : key.principal ∈ known)
    (hpending : ∀ queued ∈ state.pending, queued.principal ∈ known)
    (hstep : searchStep request request.creators key state = .ok next)
    (hother : other ∈ next.pending) : other.principal ∈ known := by
  rcases searchStep_eq_ok hstep with ⟨-, rfl⟩ | ⟨-, _, _, hfollow, rfl⟩
  · exact hpending other hother
  · rcases mem_followCandidates_pending hfollow hother with
      hstate | ⟨candidate, hcandidate, hcreator⟩
    · exact hpending other hstate
    · rw [hcreator]
      exact h.closed key hkey candidate hcandidate

theorem AgreeOn.collectNodes_eq (hpending : ∀ queued ∈ state.pending, queued.principal ∈ known) :
    collectNodes full (collectCreatorFacts full.creatorFacts) state =
      collectNodes request request.creators state := by
  fun_induction collectNodes request request.creators state with
  | case1 state hempty => exact collectNodes_nil hempty
  | case2 _ key _ hcons _ hstep =>
    have hkey := hpending key (by simp [hcons])
    rw [collectNodes_cons hcons, h.searchStep_eq hkey, hstep]
    rfl
  | case3 _ key rest hcons _ hstep ih =>
    have hkey := hpending key (by simp [hcons])
    have hrest : ∀ queued ∈ rest, queued.principal ∈ known := by
      intro queued hqueued
      exact hpending queued (by simp [hcons, hqueued])
    rw [collectNodes_cons hcons, h.searchStep_eq hkey, hstep]
    exact ih fun queued hqueued => h.pending_known hkey hrest hstep hqueued

theorem AgreeOn.evaluate_eq : evaluateRecursiveDirectShares full =
      evaluateRecursiveDirectShares request := by
  have hroot : rootKey full = rootKey request := by
    rw [rootKey, rootKey, h.principal_eq, h.action_eq]
  have hinitial : initialSearch full = initialSearch request := by
    rw [initialSearch, initialSearch, hroot]
  have hcollect : collectNodes full (collectCreatorFacts full.creatorFacts)
        (initialSearch request) =
      collectNodes request request.creators (initialSearch request) := by
    apply h.collectNodes_eq
    intro queued hqueued
    rw [List.mem_singleton.mp hqueued]
    exact h.actor_mem
  simp only [evaluateRecursiveDirectShares, hinitial, hcollect, rootDecision,
    hroot, h.generations_eq]

end

end FileBelt.Authz

namespace FileBelt.Database

open Support

/-! ## Facts of principals -/

/-- What a snapshot records about one principal. -/
def principalFact (db : State) (drive : DriveId) (resource : NodeId)
    (principal : PrincipalId) : AuthorizationPrincipalFact where
  principalId := principal
  groups := groupsOf db principal
  entries := factEntries db drive resource principal

def allFacts (db : State) (drive : DriveId) (resource : NodeId) : List AuthorizationPrincipalFact :=
  (db.principals.rows.map PrincipalRow.id).map (principalFact db drive resource)

/-- The facts of every principal that is neither disabled nor suspended. -/
def enabledFacts (db : State) (drive : DriveId) (resource : NodeId) :
    List AuthorizationPrincipalFact :=
  ((db.principals.rows.map PrincipalRow.id).filter (principalEnabled db)).map
    (principalFact db drive resource)

variable {principal : PrincipalId} {db : State} {actor : PrincipalId} {drive : DriveId}
  {resource : NodeId}

theorem mem_enabledPrincipals : principal ∈ (db.principals.rows.map PrincipalRow.id).filter
        (principalEnabled db) ↔ principalEnabled db principal := by
  rw [List.mem_filter]
  constructor
  · exact And.right
  · intro henabled
    refine ⟨?_, henabled⟩
    have hfound := (of_decide_eq_true henabled).1
    obtain ⟨row, hrow, -⟩ := (Option.any_eq_true _ _).mp hfound
    obtain ⟨hmem, hid⟩ := Table.get_eq_some.mp hrow
    exact List.mem_map.mpr ⟨row, hmem, hid⟩

theorem nodup_enabledPrincipals :
    ((db.principals.rows.map PrincipalRow.id).filter (principalEnabled db)).Nodup :=
  db.principals.nodup.filter _

theorem nodup_graphPrincipals :
    ((graphPrincipals db actor drive resource).insertionSort (· ≤ ·)).Nodup := by
  rw [(List.perm_insertionSort _ _).nodup_iff]
  exact (nodup_recursiveUnion _ (List.nodup_singleton actor)).filter _

/-- An active recursive share among a principal's rows is one whose creator the
query follows. -/
theorem createdBy_mem_shareCreators (henabled : principalEnabled db principal) {row : AclInputRow}
    (hrow : row ∈ factEntries db drive resource principal) (hactive : row.directShareActive)
    (heffect : row.effect = .allow) (hinheritance : row.inheritance = .selfAndDescendants) :
    row.createdBy ∈ shareCreators db drive resource principal := by
  obtain ⟨_, hsubject, hrow⟩ := List.mem_flatMap.mp hrow
  obtain ⟨entry, hentry, rfl⟩ := List.mem_map.mp hrow
  obtain ⟨hmem, hreaches⟩ := List.mem_filter.mp hentry
  have hprincipal := (of_decide_eq_true hreaches).1
  rw [shareCreators, if_pos henabled, List.mem_map]
  refine ⟨entry, List.mem_filter.mpr ⟨hmem, ?_⟩, rfl⟩
  refine decide_eq_true ⟨hactive, ?_, heffect, hinheritance⟩
  rw [List.mem_dedup, List.mem_cons] at hsubject
  rw [hprincipal]
  rcases hsubject with hself | hgroup
  · exact .inl hself
  · obtain ⟨group, hgroup, hid⟩ := List.mem_map.mp hgroup
    exact .inr (List.any_eq_true.mpr ⟨group, hgroup, decide_eq_true hid.symm⟩)

end FileBelt.Database

namespace FileBelt.Api

open Authz Database Support Relation

/-! ## The request of a snapshot -/

theorem principalFacts_eq_ok {fact : AuthorizationPrincipalFact}
    {facts : PrincipalAuthorizationFacts} (h : principalFacts fact = .ok facts) :
    facts.principal = principalContext fact.principalId fact.groups ∧
      fact.entries.mapM recursiveShareEntry = .ok facts.entries := by
  obtain ⟨_, hentries, h⟩ := bind_eq_ok h
  cases h
  exact ⟨rfl, hentries⟩

/-- A row that becomes a recursive share is an active one for self and
descendants. -/
theorem recursiveShareEntry_share {row : AclInputRow} {provenanced : RecursiveShareResolvedAclEntry}
    {creator : PrincipalId} (h : recursiveShareEntry row = .ok provenanced)
    (hprovenance : provenanced.provenance = .recursiveDirectShare creator) :
    row.directShareActive ∧ row.inheritance = .selfAndDescendants ∧ row.createdBy = creator ∧
      provenanced.resolved.entry.effect = row.effect := by
  obtain ⟨-, h⟩ := else_of_ok h
  obtain ⟨_, -, h⟩ := bind_eq_ok h
  obtain ⟨_, hresolved, h⟩ := bind_eq_ok h
  rw [← Except.ok.inj h] at hprovenance ⊢
  split at hprovenance
  · next hshare =>
    refine ⟨hshare.1, hshare.2, ?_, ?_⟩
    · exact RecursiveShareProvenance.recursiveDirectShare.inj hprovenance
    · unfold resolveRow at hresolved
      split at hresolved
      · rw [← Except.ok.inj hresolved]
        rfl
      · have hinherited := okOr_eq_ok hresolved
        obtain ⟨-, hinherited⟩ := Option.ite_none_left_eq_some.mp hinherited
        rw [← Option.some.inj hinherited]
  · cases hprovenance

/-- The converted facts about one principal of a list without repeats. -/
theorem filter_principalFacts {db : State} {drive : DriveId} {resource : NodeId}
    {principals : List PrincipalId} {facts : List PrincipalAuthorizationFacts}
    (hnodup : principals.Nodup)
    (h : (principals.map (principalFact db drive resource)).mapM principalFacts = .ok facts)
    (principal : PrincipalId) : (principal ∈ principals ∧ ∃ fact,
        principalFacts (principalFact db drive resource principal) = .ok fact ∧
          facts.filter (fun fact => fact.principal.principalId = principal) = [fact]) ∨
      (principal ∉ principals ∧ facts.filter (fun fact => fact.principal.principalId = principal) =
          []) := by
  have hpairs := List.forall₂_map_left_iff.mp (mapM_eq_ok h)
  clear h
  induction hpairs with
  | nil => exact .inr ⟨by simp, rfl⟩
  | @cons first fact rest facts hfirst _ ih =>
    obtain ⟨hnew, hrest⟩ := List.nodup_cons.mp hnodup
    have hid : fact.principal.principalId = first := by
      rw [(principalFacts_eq_ok hfirst).1]
      rfl
    by_cases hprincipal : first = principal
    · refine .inl ⟨by simp [hprincipal], fact, hprincipal ▸ hfirst, ?_⟩
      have hnone : facts.filter (fun fact =>
          fact.principal.principalId = principal) = [] := by
        rcases ih hrest with ⟨hmem, -⟩ | ⟨-, hnone⟩
        · exact absurd (hprincipal ▸ hmem) hnew
        · exact hnone
      rw [List.filter_cons_of_pos (by simp [hid, hprincipal]), hnone]
    · rw [List.filter_cons_of_neg (by simp [hid, hprincipal])]
      rcases ih hrest with ⟨hmem, hfound⟩ | ⟨hmem, hnone⟩
      · exact .inl ⟨List.mem_cons_of_mem _ hmem, hfound⟩
      · refine .inr ⟨?_, hnone⟩
        rw [List.mem_cons]
        rintro (heq | hin)
        · exact hprincipal heq.symm
        · exact hmem hin

/-! ## The evaluator asks for no other facts -/

section

variable {db : State} {actor principal : PrincipalId} {drive : DriveId} {resource : NodeId}
  {driveRow : DriveRow} {owner : PrincipalRow} {node : NodeRow} {row : PrincipalRow}
  {action : Action} {request full : RecursiveShareAuthorizationRequest}
  (hrows : SnapshotOf db actor drive resource driveRow owner node row)
include hrows

variable
  (hrequest : RequestOf (snapshotOf db actor drive resource driveRow owner node row) action request)
include hrequest

/-- The facts a snapshot supplies about a principal are its rows, and the
principal is enabled. -/
theorem suppliedFacts_snapshot {subject : RecursiveShareSubject}
    (hsubject : suppliedFacts request principal = some subject) :
    principalEnabled db principal ∧
      (factEntries db drive resource principal).mapM recursiveShareEntry = .ok subject.entries := by
  have hactor : request.principal.principalId = actor := by
    rw [hrequest.principal]
    rfl
  unfold suppliedFacts at hsubject
  split at hsubject
  · next hself =>
    rw [hself, hactor, ← Option.some.inj hsubject]
    exact ⟨(mem_graphPrincipals.mp hrows.graph).1, hrequest.entries⟩
  · split at hsubject
    · next fact hfilter =>
      rcases filter_principalFacts nodup_graphPrincipals hrequest.facts
        principal with ⟨hmem, fact', hfact, hfound⟩ | ⟨-, hnone⟩
      · rw [hfilter] at hfound
        rw [← Option.some.inj hsubject, List.singleton_inj.mp hfound]
        refine ⟨?_, (principalFacts_eq_ok hfact).2⟩
        rw [List.mem_insertionSort] at hmem
        exact (mem_graphPrincipals.mp hmem).1
      · rw [hfilter] at hnone
        cases hnone
    · cases hsubject

/-- Among the principals reached, a snapshot has the facts of all enabled principals. -/
theorem agreeOn_snapshot
    (hfull : RequestOf { snapshotOf db actor drive resource driveRow owner node row with
        creatorFacts := enabledFacts db drive resource } action full) :
    AgreeOn request full {principal | ReflTransGen
        (fun a b => b ∈ shareCreators db drive resource a) actor principal} := by
  have hactor : request.principal.principalId = actor := by
    rw [hrequest.principal]
    rfl
  have hprincipal : full.principal = request.principal := by
    rw [hfull.principal, hrequest.principal]
  have hentries : full.entries = request.entries :=
    Except.ok.inj (hfull.entries.symm.trans hrequest.entries)
  refine ⟨hprincipal, ?_, ?_, ?_, ?_, ?_, ?_, ?_⟩
  · rw [hfull.resource, hrequest.resource]
  · exact Except.ok.inj (hfull.driveOwner.symm.trans hrequest.driveOwner)
  · rw [hfull.action, hrequest.action]
  · rw [hfull.generations, hrequest.generations]
  · rw [hactor]
    exact ReflTransGen.refl
  · intro principal hreached
    have hgraph : principal ∈ (graphPrincipals db actor drive resource).insertionSort (· ≤ ·) ↔
          principalEnabled db principal := by
      rw [List.mem_insertionSort, mem_graphPrincipals]
      exact and_iff_left hreached
    rw [suppliedFacts, suppliedFacts, hprincipal, hentries]
    -- Both lists hold the facts of the principal exactly when it is enabled.
    rcases filter_principalFacts nodup_graphPrincipals hrequest.facts principal
      with ⟨hmem, fact, hfact, hfound⟩ | ⟨hmem, hnone⟩
    · rcases filter_principalFacts nodup_enabledPrincipals hfull.facts principal
        with ⟨-, fact', hfact', hfound'⟩ | ⟨hmem', -⟩
      · rw [hfact, Except.ok.injEq] at hfact'
        rw [hfound, hfound', hfact']
      · exact absurd (mem_enabledPrincipals.mpr (hgraph.mp hmem)) hmem'
    · rcases filter_principalFacts nodup_enabledPrincipals hfull.facts principal
        with ⟨hmem', -⟩ | ⟨-, hnone'⟩
      · exact absurd (hgraph.mpr (mem_enabledPrincipals.mp hmem')) hmem
      · rw [hnone, hnone']
  · intro key hkey candidate hcandidate
    obtain ⟨-, _, hsubject, _, hmem, -, heffect, hprovenance,
      -⟩ := sharedBy_of_mem_candidates hcandidate
    obtain ⟨henabled, hconverted⟩ := suppliedFacts_snapshot hrows hrequest hsubject
    obtain ⟨_, hentry, hentryOk⟩ := exists_of_mem_mapM hconverted hmem
    obtain ⟨hactive, hinheritance, hcreated, hsame⟩ :=
      recursiveShareEntry_share hentryOk hprovenance
    rw [← hcreated]
    exact ReflTransGen.tail hkey (createdBy_mem_shareCreators henabled hentry
      hactive (hsame.symm.trans heffect) hinheritance)

end

/-- The evaluator decides over the facts of a snapshot as over the facts of all
enabled principals. -/
theorem evaluateRecursiveDirectShares_snapshot_eq_enabled
    (db : State) (actor : PrincipalId) (drive : DriveId) (resource : NodeId)
    (action : Action) (snapshot : AuthorizationSnapshot)
    (request full : RecursiveShareAuthorizationRequest)
    (hsnapshot : authorizationSnapshot db actor drive resource = .ok snapshot)
    (hrequest : snapshotRequest snapshot action = .ok request)
    (hfull : snapshotRequest
      { snapshot with creatorFacts := enabledFacts db drive resource } action = .ok full) :
    evaluateRecursiveDirectShares request = evaluateRecursiveDirectShares full := by
  obtain ⟨_, _, _, _, hrows, rfl⟩ := authorizationSnapshot_eq_ok hsnapshot
  exact (agreeOn_snapshot hrows (snapshotRequest_eq_ok hrequest)
    (snapshotRequest_eq_ok hfull)).evaluate_eq.symm

/-! Principal 2 may share and read node 4 and has shared it with principal 1. -/

def sharedFile (creatorDisabled : Bool) : State :=
  { State.empty with
    principals :=
      { rows :=
          [⟨50, .user, 1, false⟩, ⟨1, .user, 1, false⟩, ⟨2, .user, 1, creatorDisabled⟩]
        nodup := show [50, 1, 2].Nodup by decide }
    drives := { rows := [⟨3, 50, 1, 1⟩], nodup := by decide }
    space :=
      { nodes :=
          { rows := [NodeRow.inserted 3 4 none .directory "" "" none]
            nodup := by decide }
        ancestry := { rows := [⟨3, 4, 4, 0⟩], nodup := by decide } }
    aclEntries :=
      { rows :=
          [⟨3, 4, 20, 1, .readContent, .allow, .selfAndDescendants, 2, 1, .core,
              some 70⟩,
            ⟨3, 4, 21, 2, .share, .allow, .self, 50, 1, .core, none⟩,
            ⟨3, 4, 22, 2, .readContent, .allow, .self, 50, 1, .core, none⟩]
        nodup := by decide }
    directShares :=
      { rows := [⟨70, 3, 4, 1, .selfAndDescendants, 2, false⟩]
        nodup := by decide } }

def sharedFileDecision (allowed : Bool) : AuthorizationDecision where
  allowed := allowed
  reason := if allowed then .inheritedAllow else .noMatchingGrant
  sourceEntries := if allowed then [20] else []
  generations := { resourceAcl := 1, membership := 1, namespaceGeneration := 1 }

theorem sharedFile_enabled_facts :
    ∃ snapshot request full,
      authorizationSnapshot (sharedFile false) 1 3 4 = .ok snapshot ∧
        evaluateRecursiveDirectShares request = .ok (sharedFileDecision true) ∧
        evaluateRecursiveDirectShares request =
          evaluateRecursiveDirectShares full ∧
        snapshotRequest snapshot .readContent = .ok request ∧
        snapshotRequest
          { snapshot with creatorFacts := enabledFacts (sharedFile false) 3 4 }
          .readContent = .ok full := by
  refine ⟨_, _, _, rfl, ?_, ?_, rfl, rfl⟩
  · decide +kernel
  · exact evaluateRecursiveDirectShares_snapshot_eq_enabled (sharedFile false) 1
      3 4 .readContent _ _ _ rfl rfl rfl

/-- With the facts of disabled principals their shares would be honoured. -/
theorem sharedFile_disabled_creator :
    ∃ snapshot request full,
      authorizationSnapshot (sharedFile true) 1 3 4 = .ok snapshot ∧
        snapshotRequest snapshot .readContent = .ok request ∧
        snapshotRequest
          { snapshot with creatorFacts := allFacts (sharedFile true) 3 4 }
          .readContent = .ok full ∧
        evaluateRecursiveDirectShares request = .ok (sharedFileDecision false) ∧
        evaluateRecursiveDirectShares full = .ok (sharedFileDecision true) := by
  refine ⟨_, _, _, rfl, rfl, rfl, ?_, ?_⟩
  · decide +kernel
  · decide +kernel

end FileBelt.Api
