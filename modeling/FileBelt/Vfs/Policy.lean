import FileBelt.Authz.Fence

/-!
# Authorization in the virtual file system

The virtual file system evaluates the same snapshots as the API.  Its errors are all
one denial, and a grant also carries the namespace generation of the resource.
-/

namespace FileBelt.Vfs

open Authz Database

/-- The generations that a decision was made at. -/
structure AuthorizationGrant where
  (membershipGeneration driveAclGeneration namespaceGeneration resourceAclGeneration
    resourceNamespaceGeneration : ℕ)
  deriving DecidableEq, Repr

/-- Every error is a denial. -/
def denied {ε α : Type} (x : Except ε α) : Except Unit α := x.mapError fun _ => ()

/-- The decision on a snapshot. -/
def evaluateSnapshot (snapshot : AuthorizationSnapshot) (action : Action) :
    Except Unit AuthorizationGrant := do
  let request ← denied (Api.snapshotRequest snapshot action)
  let decision ← denied (evaluateRecursiveDirectShares request)
  if ¬decision.allowed then .error ()
  else
    .ok
      { membershipGeneration := snapshot.membershipGeneration
        driveAclGeneration := snapshot.driveAclGeneration
        namespaceGeneration := snapshot.namespaceGeneration
        resourceAclGeneration := snapshot.resourceAclGeneration
        resourceNamespaceGeneration := snapshot.resourceNamespaceGeneration }

/-- The decision on the present tables. -/
def authorize (db : State) (actor : PrincipalId) (drive : DriveId)
    (resource : NodeId) (action : Action) : Except Unit AuthorizationGrant := do
  let snapshot ← denied (authorizationSnapshot db actor drive resource)
  evaluateSnapshot snapshot action

/-! ## The decision does not read the generations -/

variable {snapshot : AuthorizationSnapshot} {actor : PrincipalId} {resource : NodeId}
  {drive : DriveId} {value result : ℕ}

section

variable {request : RecursiveShareAuthorizationRequest}
  {creatorFacts : Std.TreeMap PrincipalId (Option PrincipalAuthorizationFacts)}
  {state : SearchState}

theorem collectNodes_generations (generations : GenerationSnapshot) :
    collectNodes { request with generations := generations } creatorFacts state =
      collectNodes request creatorFacts state := by
  induction state using collectNodes.induct request creatorFacts with
  | case1 state hpending =>
    rw [collectNodes_nil hpending, collectNodes_nil hpending]
  | case2 state key rest hpending fault hfault =>
    have hfault' : searchStep { request with generations := generations }
        creatorFacts key { state with pending := rest } = .error fault := hfault
    rw [collectNodes_cons hpending, collectNodes_cons hpending, hfault, hfault']
    rfl
  | case3 state key rest hpending next hnext ih =>
    have hnext' : searchStep { request with generations := generations }
        creatorFacts key { state with pending := rest } = .ok next := hnext
    rw [collectNodes_cons hpending, collectNodes_cons hpending, hnext, hnext']
    exact ih

end

theorem rootDecision_generations (request : RecursiveShareAuthorizationRequest)
    (generations : GenerationSnapshot) (node : RecursiveShareNode) (allowed : AllowedMap) :
    (rootDecision { request with generations := generations } node
      allowed).allowed = (rootDecision request node allowed).allowed := by
  have hroot : rootKey { request with generations := generations } =
      rootKey request := rfl
  unfold rootDecision
  rw [hroot]
  cases node.denied with
  | some => rfl
  | none =>
    cases node.independent with
    | some => rfl
    | none =>
      cases allowed[rootKey request]? with
      | none => rfl
      | some proof =>
        cases proof with
        | none => rfl
        | some => rfl

theorem evaluate_generations {request : RecursiveShareAuthorizationRequest}
    {decision : AuthorizationDecision} (generations : GenerationSnapshot)
    (h : evaluateRecursiveDirectShares request = .ok decision) :
    ∃ decision', evaluateRecursiveDirectShares
        { request with generations := generations } = .ok decision' ∧
      decision'.allowed = decision.allowed := by
  unfold evaluateRecursiveDirectShares at h
  split at h
  · cases h
  · next nodes hnodes =>
    split at h
    · cases h
    · next node hnode =>
      rw [← Except.ok.inj h]
      have hsame : collectNodes { request with generations := generations }
          (collectCreatorFacts request.creatorFacts)
          (initialSearch { request with generations := generations }) =
          .ok nodes := by
        rw [collectNodes_generations]
        exact hnodes
      have hroot : nodes[rootKey { request with generations := generations }]? = some node := hnode
      refine ⟨_, ?_, rootDecision_generations request generations node _⟩
      unfold evaluateRecursiveDirectShares
      simp only [hsame, hroot]

/-! ## Grants along a run -/

theorem denied_eq_ok {ε α : Type} {x : Except ε α} {a : α} (h : denied x = .ok a) : x = .ok a :=
  mapError_eq_ok h

theorem denied_ok {ε α : Type} (a : α) : denied (.ok a : Except ε α) = .ok a := rfl

theorem positiveU64_ok (h : value ≠ 0) : Api.positiveU64 value = .ok value := if_neg h

variable {action : Action} {grant : AuthorizationGrant}

/-- A grant carries the generations of its snapshot; that of the namespace of
the drive is positive. -/
theorem evaluateSnapshot_eq_ok (h : evaluateSnapshot snapshot action = .ok grant) :
    snapshot.namespaceGeneration ≠ 0 ∧ grant =
        { membershipGeneration := snapshot.membershipGeneration
          driveAclGeneration := snapshot.driveAclGeneration
          namespaceGeneration := snapshot.namespaceGeneration
          resourceAclGeneration := snapshot.resourceAclGeneration
          resourceNamespaceGeneration := snapshot.resourceNamespaceGeneration } := by
  obtain ⟨_, hrequest, h⟩ := bind_eq_ok h
  obtain ⟨_, -, h⟩ := bind_eq_ok h
  obtain ⟨-, h⟩ := else_of_ok h
  exact ⟨(Api.snapshotRequest_eq_ok (denied_eq_ok hrequest)).namespace_ne_zero,
    (Except.ok.inj h).symm⟩

theorem snapshotRequest_namespace {request : RecursiveShareAuthorizationRequest}
    {driveNamespace resourceNamespace : ℕ} (hpositive : driveNamespace ≠ 0)
    (h : Api.snapshotRequest snapshot action = .ok request) :
    Api.snapshotRequest { snapshot with
        namespaceGeneration := driveNamespace
        resourceNamespaceGeneration := resourceNamespace } action =
      .ok { request with
        generations := { request.generations with namespaceGeneration := driveNamespace } } := by
  obtain ⟨_, hentries, h⟩ := bind_eq_ok h
  obtain ⟨_, hfacts, h⟩ := bind_eq_ok h
  obtain ⟨_, hresourceAcl, h⟩ := bind_eq_ok h
  obtain ⟨_, hmembership, h⟩ := bind_eq_ok h
  obtain ⟨_, -, h⟩ := bind_eq_ok h
  obtain ⟨owner, howner, h⟩ := bind_eq_ok h
  cases h
  have howner' : Api.driveOwner { snapshot with
      namespaceGeneration := driveNamespace
      resourceNamespaceGeneration := resourceNamespace } = .ok owner := howner
  unfold Api.snapshotRequest
  simp only [hentries, hfacts, hresourceAcl, hmembership, howner', positiveU64_ok hpositive,
    ok_bind]

/-- The namespace generations do not matter to the decision. -/
theorem evaluateSnapshot_namespace (h : evaluateSnapshot snapshot action = .ok grant)
    {driveNamespace resourceNamespace : ℕ} (hpositive : driveNamespace ≠ 0) :
    ∃ grant', evaluateSnapshot { snapshot with
        namespaceGeneration := driveNamespace
        resourceNamespaceGeneration := resourceNamespace } action =
      .ok grant' := by
  obtain ⟨request, hrequest, h⟩ := bind_eq_ok h
  obtain ⟨_, hdecision, h⟩ := bind_eq_ok h
  obtain ⟨hallowed, h⟩ := else_of_ok h
  obtain ⟨decision, hdecision', hsame⟩ := evaluate_generations { request.generations with
    namespaceGeneration := driveNamespace } (denied_eq_ok hdecision)
  rw [← hsame] at hallowed
  rw [evaluateSnapshot, snapshotRequest_namespace hpositive (denied_eq_ok hrequest), denied_ok,
    ok_bind, hdecision', denied_ok, ok_bind, if_neg hallowed]
  exact ⟨_, rfl⟩

/-- The action is granted under the same generations and ancestors to an enabled actor. -/
theorem authorize_of_tracked {db db' : State} (htracked : db.PolicyTracked db')
    (hgrant : authorize db actor drive resource action = .ok grant) {r' : PrincipalRow}
    {d' : DriveRow} {n' : NodeRow} (hr' : db'.principals.get actor = some r')
    (hd' : db'.drives.get drive = some d') (hn' : db'.node drive resource = some n')
    (hmembership : r'.generation = grant.membershipGeneration)
    (hacl : d'.aclGeneration = grant.driveAclGeneration)
    (hresource : n'.aclGeneration = grant.resourceAclGeneration)
    (hancestry : db'.space.ancestorRows drive resource = db.space.ancestorRows drive resource)
    (hactor : principalEnabled db' actor) :
    ∃ grant', authorize db' actor drive resource action = .ok grant' := by
  obtain ⟨snapshot, hsnapshot, heval⟩ := bind_eq_ok hgrant
  obtain ⟨d, owner, n, r, hrows, rfl⟩ := authorizationSnapshot_eq_ok (denied_eq_ok hsnapshot)
  obtain ⟨hpositive, rfl⟩ := evaluateSnapshot_eq_ok heval
  have hdrive : d'.namespaceGeneration ≠ 0 := by
    obtain ⟨e, he, -, hle, -⟩ := htracked.advances.drives drive d hrows.driveFound
    obtain rfl := Option.some.inj (he.symm.trans hd')
    have hold : d.namespaceGeneration ≠ 0 := hpositive
    omega
  unfold authorize
  rw [authorizationSnapshot_tracked htracked hrows hr' hd' hn' hmembership hacl
    hresource hancestry hactor]
  exact evaluateSnapshot_namespace heval hdrive

theorem authorize_rows {db : State} (h : authorize db actor drive resource action = .ok grant) :
    db.space.HasNode drive resource ∧ ∃ r, db.principals.get actor = some r ∧
        grant.membershipGeneration = r.generation := by
  obtain ⟨_, hsnapshot, heval⟩ := bind_eq_ok h
  obtain ⟨_, _, n, r, hrows, rfl⟩ := authorizationSnapshot_eq_ok (denied_eq_ok hsnapshot)
  obtain ⟨-, rfl⟩ := evaluateSnapshot_eq_ok heval
  exact ⟨⟨n, hrows.nodeFound⟩, r, hrows.actorFound, rfl⟩

end FileBelt.Vfs
