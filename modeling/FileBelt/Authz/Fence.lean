import FileBelt.Authz.PolicyFacts

/-!
# The authorization fence

A mutation is authorized on a snapshot and executed later, behind a fence that
compares four generations.  A step that changes a fact of the decision moves one of
them; so a passed fence means that the facts are those of the snapshot.
-/

namespace FileBelt.Database

open Support Relation

/-- Nodes are moved in other drives only. -/
def otherDrives (drive : DriveId) : Permit := { Permit.any with moves := fun d => d ≠ drive }

def Namespace.ancestorRows (s : Namespace) (drive : DriveId) (id : NodeId) : List AncestryRow :=
  s.ancestry.rows.filter fun r => r.driveId = drive ∧ r.descendantId = id

variable {entry : ℕ × AclEntryRow} {principal owner : PrincipalRow} {drive : DriveId}
  {id resource parent : NodeId} {s s' : Namespace} {actor q creator : PrincipalId}
  {driveRow : DriveRow} {op : Operation} {node : NodeRow}

theorem filter_append_fresh {rows new : List AncestryRow}
    (hnew : ∀ r ∈ new, ¬(r.driveId = drive ∧ r.descendantId = id)) :
    (rows ++ new).filter (fun r => r.driveId = drive ∧ r.descendantId = id) =
      rows.filter fun r => r.driveId = drive ∧ r.descendantId = id := by
  rw [List.filter_append, List.append_right_eq_self, List.filter_eq_nil_iff]
  intro r hr
  rw [decide_eq_true_eq]
  exact hnew r hr

theorem childRows_descendant {ancestry : Table AncestryRow.key} :
    ∀ r ∈ Namespace.childRows ancestry drive parent id, r.descendantId = id := by
  intro r hr
  rw [Namespace.childRows, List.mem_append, List.mem_singleton, List.mem_map] at hr
  rcases hr with ⟨_, -, rfl⟩ | rfl
  · rfl
  · rfl

theorem hasNode_edit {permit : Permit} (hnode : s.HasNode drive id)
    (hedit : Edit permit s s') : s'.HasNode drive id := by
  cases hedit with
  | root _ _ _ _ hinsert =>
    exact (Namespace.insertNode_eq_ok hinsert).hasNode_iff.mpr (.inl hnode)
  | child _ _ _ _ _ _ hinsert =>
    exact (Namespace.insertNode_eq_ok hinsert).hasNode_iff.mpr (.inl hnode)
  | _ => exact Namespace.hasNode_update.mpr hnode

/-- New nodes get ancestor rows, and moves in other drives change those of
other drives. -/
theorem ancestorRows_edit (hedit : Edit (otherDrives drive) s s') (hnode : s.HasNode drive id) :
    s'.ancestorRows drive id = s.ancestorRows drive id := by
  cases hedit with
  | root _ _ _ _ hinsert hancestry =>
    have hinserted := Namespace.insertNode_eq_ok hinsert
    rw [Namespace.ancestorRows, Namespace.insertAncestry_eq_ok hancestry, hinserted.ancestry]
    refine filter_append_fresh ?_
    intro r hr hkey
    rw [List.mem_singleton] at hr
    subst hr
    obtain ⟨rfl, rfl⟩ := hkey
    exact hinserted.not_hasNode hnode
  | child _ _ _ _ _ _ hinsert hancestry =>
    have hinserted := Namespace.insertNode_eq_ok hinsert
    rw [Namespace.ancestorRows, Namespace.insertAncestry_eq_ok hancestry, hinserted.ancestry]
    refine filter_append_fresh ?_
    rintro r hr ⟨hdrive, hid⟩
    rw [Namespace.childRows_drive r hr] at hdrive
    rw [childRows_descendant r hr] at hid
    rw [← hdrive, ← hid] at hnode
    exact hinserted.not_hasNode hnode
  | move d _ _ _ _ _ _ ancestry _ _ _ _ _ hancestry hmoves =>
      change ancestry.rows.filter _ = _
      rcases hancestry with ⟨-, rfl⟩ | ⟨-, hmove⟩
      · rfl
      · rw [Namespace.insertAncestry_eq_ok hmove, filter_append_fresh]
        · change (s.ancestry.rows.filter _).filter _ = _
          rw [List.filter_filter]
          refine List.filter_congr fun r _ => ?_
          by_cases hdrive : r.driveId = drive
          · have hother : r.driveId ≠ d := by
              rw [hdrive]
              exact Ne.symm hmoves
            simp [Namespace.leavesSubtree, hother]
          · simp [hdrive]
        · rintro r hr ⟨hdrive, -⟩
          rw [Namespace.graftedRows_drive r hr] at hdrive
          exact hmoves hdrive
  | _ => rfl

theorem ancestorRows_edits (h : Edits (otherDrives drive) s s') (hnode : s.HasNode drive id) :
    s'.HasNode drive id ∧ s'.ancestorRows drive id = s.ancestorRows drive id := by
  induction h with
  | refl => exact ⟨hnode, rfl⟩
  | tail _ hedit ih =>
    obtain ⟨hmiddle, heq⟩ := ih
    exact ⟨hasNode_edit hmiddle hedit, (ancestorRows_edit hedit hmiddle).trans heq⟩

/-! ## Steps and runs -/

/-- A later database: rows stay, generations advance, and where they did not,
the facts are the same. -/
structure State.PolicyTracked (db db' : State) : Prop where
  invariant : db'.PolicyInvariant
  advances : db.Advances db'
  policy : ∀ {actor drive r r' d d'}, db.principals.get actor = some r →
    db'.principals.get actor = some r' → db.drives.get drive = some d →
    db'.drives.get drive = some d' → r'.generation = r.generation →
    d'.aclGeneration = d.aclGeneration → SamePolicy actor drive db db'

variable {db db' db'' : State}

theorem State.PolicyTracked.trans (h : db.PolicyTracked db') (h' : db'.PolicyTracked db'') :
    db.PolicyTracked db'' := by
  refine ⟨h'.invariant, h.advances.trans h'.advances, ?_⟩
  intro actor drive r r'' d d'' hr hr'' hd hd'' hgeneration hacl
  obtain ⟨r', hr', hle, -⟩ := h.advances.principals actor r hr
  obtain ⟨d', hd', hdle, -, -⟩ := h.advances.drives drive d hd
  obtain ⟨s, hs, hle', -⟩ := h'.advances.principals actor r' hr'
  obtain ⟨e, he, hdle', -, -⟩ := h'.advances.drives drive d' hd'
  obtain rfl := Option.some.inj (hs.symm.trans hr'')
  obtain rfl := Option.some.inj (he.symm.trans hd'')
  exact (h.policy hr hr' hd hd' (by omega) (by omega)).trans h.advances
    (h'.policy hr' hr'' hd' hd'' (by omega) (by omega))

theorem policyTracked_refl (hinv : db.PolicyInvariant) : db.PolicyTracked db :=
  ⟨hinv, .refl db, fun _ _ _ _ _ _ => .refl db⟩

theorem policyTracked_edits (hinv : db.PolicyInvariant) (h : PolicyEdits db db') :
    db.PolicyTracked db' := by
  induction h with
  | refl => exact policyTracked_refl hinv
  | tail _ hedit ih =>
    refine ih.trans ⟨policyEdit_invariant ih.invariant hedit, policyEdit_advances hedit, ?_⟩
    intro actor drive r r' d d' hr hr' hd hd' hgeneration hacl
    exact policyEdit_same ih.invariant hedit hr hr' hd hd' hgeneration hacl

/-- The same with the ancestry of the nodes of a drive. -/
structure State.Tracked (db db' : State) : Prop extends db.PolicyTracked db' where
  nodes : ∀ {drive id}, db.space.HasNode drive id → db'.space.HasNode drive id
  ancestry : ∀ {drive id d d'}, db.space.HasNode drive id →
    db.drives.get drive = some d → db'.drives.get drive = some d' →
    d'.namespaceGeneration = d.namespaceGeneration →
    db'.space.ancestorRows drive id = db.space.ancestorRows drive id

theorem State.Tracked.trans (h : db.Tracked db') (h' : db'.Tracked db'') : db.Tracked db'' := by
  refine ⟨h.toPolicyTracked.trans h'.toPolicyTracked, fun hnode => h'.nodes (h.nodes hnode), ?_⟩
  intro drive id d d'' hnode hd hd'' hspace
  obtain ⟨d', hd', -, hle, -⟩ := h.advances.drives drive d hd
  obtain ⟨e, he, -, hle', -⟩ := h'.advances.drives drive d' hd'
  obtain rfl := Option.some.inj (he.symm.trans hd'')
  exact (h'.ancestry (h.nodes hnode) hd' hd'' (by omega)).trans (h.ancestry hnode hd hd' (by omega))

theorem permitted_otherDrives (h : ∀ request, op = .nfsRename request → request.drive ≠ drive) :
    op.Permitted (otherDrives drive) db := by
  cases op <;> simp_all [Operation.Permitted, otherDrives, Permit.any]

theorem nfsRename_namespaceGeneration {request : NfsRename} {d d' : DriveRow}
    (h : nfsRename db request = .ok db') (hd : db.drives.get request.drive = some d)
    (hd' : db'.drives.get request.drive = some d') :
    d'.namespaceGeneration ≠ d.namespaceGeneration := by
  obtain ⟨-, _, rfl⟩ := nfsRename_eq_ok h
  have hid : d.id = request.drive := Table.get_key hd
  dsimp only [State.bumpDriveNamespace] at hd'
  rw [Table.get_update, hd, Option.map_some] at hd'
  simp only [hid] at hd'
  rw [← Option.some.inj hd']
  exact Nat.succ_ne_self _

theorem step_tracked (hinv : db.PolicyInvariant) (h : step db op = .ok db') : db.Tracked db' := by
  have hedits : ∀ {drive}, (∀ request, op = .nfsRename request →
      request.drive ≠ drive) → Edits (otherDrives drive) db.space db'.space :=
    fun hother => step_edits (fun _ _ _ _ => trivial) (permitted_otherDrives hother) h
  refine ⟨policyTracked_edits hinv (step_policyEdits h), ?_, ?_⟩
  · intro drive id hnode
    have hany : Edits .any db.space db'.space :=
      step_edits (fun _ _ _ _ => trivial) (permitted_any db op) h
    refine edits_invariant (I := fun s => s.HasNode drive id) ?_ hnode hany
    intro s s' hs hedit
    exact hasNode_edit hs hedit
  · intro drive id d d' hnode hd hd' hspace
    refine (ancestorRows_edits (hedits ?_) hnode).2
    rintro request rfl rfl
    exact nfsRename_namespaceGeneration h hd hd' hspace

theorem run_tracked (hinv : db.PolicyInvariant) (ops : List Operation) :
    db.Tracked (run step db ops) := by
  refine run_invariant ?_ ?_ (meets_true db ops)
  · intro s op s' hs _ hstep
    exact hs.trans (step_tracked hs.invariant hstep)
  · exact ⟨policyTracked_refl hinv, fun h => h, fun _ _ _ _ => rfl⟩

theorem policyInvariant_reached (ops : List Operation) : (reached ops).PolicyInvariant :=
  (run_tracked policyInvariant_empty ops).invariant

/-- Generations never decrease, and the ancestry of a node changes only with that of its
drive. -/
theorem generations_advance (before after : List Operation) : let db := reached before
    let db' := run step db after
    db.Advances db' ∧ ∀ drive id, db.space.HasNode drive id →
      db'.space.HasNode drive id ∧ ∀ d d', db.drives.get drive = some d →
        db'.drives.get drive = some d' → d'.namespaceGeneration = d.namespaceGeneration →
        db'.space.ancestorRows drive id = db.space.ancestorRows drive id := by
  have h := run_tracked (policyInvariant_reached before) after
  exact ⟨h.advances, fun _ _ hnode => ⟨h.nodes hnode, fun _ _ => h.ancestry hnode⟩⟩

/-! ## Snapshots with the same facts -/

theorem mem_ancestorEntries (h : entry ∈ ancestorEntries db drive resource) :
    entry.2 ∈ db.aclEntries.rows ∧ entry.2.driveId = drive := by
  obtain ⟨_, -, h⟩ := List.mem_flatMap.mp h
  obtain ⟨_, ha, rfl⟩ := List.mem_map.mp h
  have ha := List.mem_of_mem_filter ha
  obtain ⟨hmem, hdrive⟩ := List.mem_filter.mp ha
  exact ⟨hmem, of_decide_eq_true hdrive⟩

/-- The recursive query stays among the actor and the creators of active
recursive shares. -/
theorem relevant_shareCreators (h : creator ∈ shareCreators db drive resource q) :
    Relevant actor drive db creator := by
  unfold shareCreators at h
  split at h
  · obtain ⟨entry, hentry, rfl⟩ := List.mem_map.mp h
    obtain ⟨hmem, hcond⟩ := List.mem_filter.mp hentry
    obtain ⟨hactive, -, -, hinheritance⟩ := of_decide_eq_true hcond
    obtain ⟨hrow, hdrive⟩ := mem_ancestorEntries hmem
    exact .inr ⟨entry.2, hrow, hdrive, hactive, hinheritance, rfl⟩
  · cases h

/-- The query returns the enabled principals reachable over active recursive shares. -/
theorem mem_graphPrincipals : q ∈ graphPrincipals db actor drive resource ↔
      principalEnabled db q ∧ ReflTransGen (fun a b => b ∈ shareCreators db drive resource a)
          actor q := by
  have hcandidates : ∀ x, shareCreators db drive resource x ⊆
      (ancestorEntries db drive resource).map fun entry =>
        entry.2.createdBy := by
    intro x creator hcreator
    unfold shareCreators at hcreator
    split at hcreator
    · exact List.map_subset _ List.filter_sublist.subset hcreator
    · cases hcreator
  rw [graphPrincipals, List.mem_filter,
    mem_recursiveUnion_iff hcandidates (by rw [List.length_map])]
  simp only [List.mem_singleton, exists_eq_left]
  exact And.comm

section

variable {db db' : State} {actor q : PrincipalId} {drive : DriveId}
  {resource : NodeId} (hpolicy : SamePolicy actor drive db db')
  (hancestry : db'.space.ancestorRows drive resource = db.space.ancestorRows drive resource)
  (henabled : principalEnabled db' actor = principalEnabled db actor)

include hpolicy in
theorem active_congr (h : entry ∈ ancestorEntries db drive resource) :
    directShareActive db' entry.2.directShareId = directShareActive db entry.2.directShareId := by
  obtain ⟨hrow, hdrive⟩ := mem_ancestorEntries h
  exact hpolicy.shares entry.2 hrow hdrive

include hpolicy hancestry in
theorem ancestorEntries_congr :
    ancestorEntries db' drive resource = ancestorEntries db drive resource := by
  unfold ancestorEntries
  rw [hpolicy.entries]
  exact congrArg (fun rows => List.flatMap _ rows) hancestry

include hpolicy henabled in
theorem enabled_congr (hq : Relevant actor drive db q) :
    principalEnabled db' q = principalEnabled db q := by
  by_cases hne : q = actor
  · rw [hne]
    exact henabled
  · exact hpolicy.enabled q hq hne

include hpolicy hancestry henabled in
theorem shareCreators_congr (hq : Relevant actor drive db q) :
    shareCreators db drive resource q = shareCreators db' drive resource q := by
  unfold shareCreators
  rw [enabled_congr hpolicy henabled hq, ancestorEntries_congr hpolicy hancestry,
    hpolicy.groups q hq]
  congr 1
  refine congrArg (List.map _) (List.filter_congr fun entry hentry => ?_)
  rw [active_congr hpolicy hentry]

include hpolicy hancestry henabled in
theorem graphPrincipals_congr : graphPrincipals db' actor drive resource =
        graphPrincipals db actor drive resource ∧
      ∀ q ∈ graphPrincipals db actor drive resource, Relevant actor drive db q := by
  have hrelevant : ∀ q ∈ recursiveUnion (shareCreators db drive resource)
      (ancestorEntries db drive resource).length [actor],
      Relevant actor drive db q := by
    refine recursiveUnion_induction ?_ ?_
    · intro x _ y hy
      exact relevant_shareCreators hy
    · intro x hx
      exact .inl (List.mem_singleton.mp hx)
  refine ⟨?_, fun q hq => hrelevant q (List.mem_of_mem_filter hq)⟩
  have hquery : recursiveUnion (shareCreators db drive resource)
      (ancestorEntries db drive resource).length [actor] =
        recursiveUnion (shareCreators db' drive resource)
          (ancestorEntries db drive resource).length [actor] := by
    refine recursiveUnion_congr (R := Relevant actor drive db) ?_ ?_
    · intro x hx
      exact ⟨shareCreators_congr hpolicy hancestry henabled hx,
        fun y hy => relevant_shareCreators hy⟩
    · intro x hx
      exact .inl (List.mem_singleton.mp hx)
  rw [graphPrincipals, ancestorEntries_congr hpolicy hancestry, ← hquery]
  exact List.filter_congr fun q hq =>
    enabled_congr hpolicy henabled (hrelevant q hq)

include hpolicy hancestry in
theorem factEntries_congr (hq : Relevant actor drive db q) :
    factEntries db' drive resource q = factEntries db drive resource q := by
  unfold factEntries
  dsimp only
  rw [hpolicy.groups q hq, ancestorEntries_congr hpolicy hancestry]
  congr 1
  funext subject
  refine List.map_congr_left fun entry hentry => ?_
  rw [active_congr hpolicy (List.mem_of_mem_filter hentry)]

include hpolicy hancestry henabled in
theorem creatorFacts_congr : creatorFacts db' actor drive resource =
      creatorFacts db actor drive resource := by
  obtain ⟨hgraph, hrelevant⟩ := graphPrincipals_congr hpolicy hancestry henabled
  rw [creatorFacts, hgraph]
  refine List.map_congr_left fun q hq => ?_
  have hq := hrelevant q (List.mem_insertionSort _ |>.mp hq)
  rw [hpolicy.groups q hq, factEntries_congr hpolicy hancestry hq]

end

/-! ## The decision behind a passed fence -/

/-- The rows behind a successful snapshot. -/
structure SnapshotOf (db : State) (actor : PrincipalId) (drive : DriveId)
    (resource : NodeId) (driveRow : DriveRow) (owner : PrincipalRow)
    (node : NodeRow) (principal : PrincipalRow) : Prop where
  driveFound : db.drives.get drive = some driveRow
  ownerFound : db.principals.get driveRow.ownerPrincipalId = some owner
  nodeFound : db.node drive resource = some node
  actorFound : db.principals.get actor = some principal
  enabled : principal.disabled = false
  graph : actor ∈ graphPrincipals db actor drive resource

theorem authorizationSnapshot_eq_ok {snapshot : AuthorizationSnapshot}
    (h : authorizationSnapshot db actor drive resource = .ok snapshot) :
    ∃ driveRow owner node principal,
      SnapshotOf db actor drive resource driveRow owner node principal ∧
      snapshot = snapshotOf db actor drive resource driveRow owner node principal := by
  obtain ⟨driveRow, hdrive, h⟩ := bind_eq_ok h
  obtain ⟨owner, howner, h⟩ := bind_eq_ok h
  obtain ⟨node, hnode, h⟩ := bind_eq_ok h
  obtain ⟨principal, hprincipal, h⟩ := bind_eq_ok h
  obtain ⟨hgraph, h⟩ := else_of_ok h
  obtain ⟨hactor, henabled⟩ := Option.filter_eq_some_iff.mp (okOr_eq_ok hprincipal)
  exact ⟨driveRow, owner, node, principal,
    ⟨okOr_eq_ok hdrive, okOr_eq_ok howner, okOr_eq_ok hnode, hactor,
      of_decide_eq_true henabled, not_not.mp hgraph⟩,
    (Except.ok.inj h).symm⟩

theorem SnapshotOf.eq_ok (h : SnapshotOf db actor drive resource driveRow owner node principal) :
    authorizationSnapshot db actor drive resource =
      .ok (snapshotOf db actor drive resource driveRow owner node principal) := by
  have hfilter : (db.principals.get actor).filter
      (fun p => p.disabled = false) = some principal := by
    rw [Option.filter_eq_some_iff]
    exact ⟨h.actorFound, decide_eq_true h.enabled⟩
  unfold authorizationSnapshot
  rw [h.driveFound, h.nodeFound, hfilter]
  simp only [okOr_some, ok_bind]
  rw [h.ownerFound]
  simp only [okOr_some, ok_bind]
  rw [if_neg (not_not.mpr h.graph)]

/-- Under the same generations the snapshot is the same up to the namespace generations. -/
theorem authorizationSnapshot_tracked (htracked : db.PolicyTracked db') {d d' : DriveRow}
    {r r' : PrincipalRow} {n n' : NodeRow} (hrows : SnapshotOf db actor drive resource d owner n r)
    (hr' : db'.principals.get actor = some r') (hd' : db'.drives.get drive = some d')
    (hn' : db'.node drive resource = some n') (hmembership : r'.generation = r.generation)
    (hacl : d'.aclGeneration = d.aclGeneration) (hresource : n'.aclGeneration = n.aclGeneration)
    (hancestry : db'.space.ancestorRows drive resource = db.space.ancestorRows drive resource)
    (hactor : principalEnabled db' actor) : authorizationSnapshot db' actor drive resource =
      .ok { snapshotOf db actor drive resource d owner n r with
        namespaceGeneration := d'.namespaceGeneration
        resourceNamespaceGeneration := n'.namespaceGeneration } := by
  have hpolicy : SamePolicy actor drive db db' :=
    htracked.policy hrows.actorFound hr' hrows.driveFound hd' hmembership hacl
  have henabled : principalEnabled db' actor = principalEnabled db actor := by
    rw [hactor]
    exact (List.mem_filter.mp hrows.graph).2.symm
  have hunsuspended : r'.disabled = false := by
    have hany := (of_decide_eq_true hactor).1
    rw [hr'] at hany
    exact of_decide_eq_true hany
  obtain ⟨owner', howner', -, hkind⟩ := htracked.advances.principals _ owner hrows.ownerFound
  obtain ⟨e, he, -, -, hownerId⟩ := htracked.advances.drives drive d hrows.driveFound
  obtain rfl := Option.some.inj (he.symm.trans hd')
  have hgraph := graphPrincipals_congr hpolicy hancestry henabled
  have hrows' : SnapshotOf db' actor drive resource e owner' n' r' := by
    refine ⟨hd', ?_, hn', hr', hunsuspended, ?_⟩
    · rw [hownerId]
      exact howner'
    · rw [hgraph.1]
      exact hrows.graph
  have hrelevant : Relevant actor drive db actor := .inl rfl
  have hownerRow : owner.id = d.ownerPrincipalId := Table.get_key hrows.ownerFound
  have hownerRow' : owner'.id = d.ownerPrincipalId := Table.get_key howner'
  have howned : db.principals.get d.ownerPrincipalId ≠ none := by
    rw [hrows.ownerFound]
    simp
  rw [hrows'.eq_ok]
  simp only [snapshotOf, hownerId, hkind, hownerRow, hownerRow',
    hpolicy.ownerGroup _ howned, hpolicy.groups _ hrelevant,
    factEntries_congr hpolicy hancestry hrelevant,
    creatorFacts_congr hpolicy hancestry henabled, hmembership, hacl, hresource]

/-- A session pairs its user with its principal, so a passed fence shows an
enabled actor. -/
theorem FencePassed.principalEnabled {caller : Caller} {session : SessionRow} {user : UserRow}
    (hinv : db.PolicyInvariant)
    (h : FencePassed db caller drive resource session user principal driveRow node) :
    principalEnabled db caller.actor := by
  have hsession := (Table.get_eq_some.mp h.sessionFound).1
  obtain ⟨_, hu, hpair⟩ := hinv.sessions session hsession
  obtain rfl := Option.some.inj (h.userFound.symm.trans hu)
  have hmem := (Table.get_eq_some.mp h.userFound).1
  have hprincipal : db.principals.get caller.actor = some principal := by
    rw [← h.actor]
    exact h.principalFound
  refine decide_eq_true ⟨?_, .inr (List.any_eq_true.mpr
    ⟨user, List.mem_filter.mpr ⟨hmem, ?_⟩, decide_eq_true h.active⟩)⟩
  · rw [hprincipal]
    exact decide_eq_true h.enabled
  · exact decide_eq_true (hpair.trans h.actor)

end FileBelt.Database

namespace FileBelt.Api

open Authz Database Support

/-- The generations of a grant, as a mutation presents them to the fence. -/
def AuthorizationGrant.generations (grant : AuthorizationGrant) : Generations where
  membership := grant.membershipGeneration
  driveAcl := grant.driveAclGeneration
  driveNamespace := grant.namespaceGeneration
  resourceAcl := grant.resourceAclGeneration

variable {grant : AuthorizationGrant} {action : Action}

theorem positiveU64_eq_ok {value result : ℕ}
    (h : positiveU64 value = .ok result) : result = value := by
  obtain ⟨-, h⟩ := else_of_ok h
  exact (Except.ok.inj h).symm

/-- The parts of a request that do not depend on the creator facts. -/
structure RequestOf (snapshot : AuthorizationSnapshot) (action : Action)
    (request : RecursiveShareAuthorizationRequest) : Prop where
  entries : snapshot.entries.mapM recursiveShareEntry = .ok request.entries
  facts : snapshot.creatorFacts.mapM principalFacts = .ok request.creatorFacts
  principal : request.principal = principalContext snapshot.actorPrincipalId snapshot.actorGroups
  resource : request.resource = .node snapshot.resourceId
  driveOwner : driveOwner snapshot = .ok request.driveOwner
  action : request.action = action
  namespace_ne_zero : snapshot.namespaceGeneration ≠ 0
  generations : request.generations =
    { resourceAcl := snapshot.resourceAclGeneration
      membership := snapshot.membershipGeneration
      namespaceGeneration := snapshot.namespaceGeneration }

theorem snapshotRequest_eq_ok {snapshot : AuthorizationSnapshot} {action : Action}
    {request : RecursiveShareAuthorizationRequest}
    (h : snapshotRequest snapshot action = .ok request) : RequestOf snapshot action request := by
  obtain ⟨_, hentries, h⟩ := bind_eq_ok h
  obtain ⟨_, hfacts, h⟩ := bind_eq_ok h
  obtain ⟨_, hresourceAcl, h⟩ := bind_eq_ok h
  obtain ⟨_, hmembership, h⟩ := bind_eq_ok h
  obtain ⟨_, hnamespace, h⟩ := bind_eq_ok h
  obtain ⟨_, howner, h⟩ := bind_eq_ok h
  cases h
  refine ⟨hentries, hfacts, rfl, rfl, howner, rfl, (else_of_ok hnamespace).1, ?_⟩
  rw [positiveU64_eq_ok hresourceAcl, positiveU64_eq_ok hmembership, positiveU64_eq_ok hnamespace]

theorem evaluateSnapshot_generations {snapshot : AuthorizationSnapshot}
    (h : evaluateSnapshot snapshot action = .ok grant) :
    grant.generations = ⟨snapshot.membershipGeneration, snapshot.driveAclGeneration,
        snapshot.namespaceGeneration, snapshot.resourceAclGeneration⟩ := by
  obtain ⟨_, hrequest, h⟩ := bind_eq_ok h
  obtain ⟨_, -, h⟩ := bind_eq_ok h
  obtain ⟨-, h⟩ := else_of_ok h
  obtain ⟨_, hdriveAcl, h⟩ := bind_eq_ok h
  cases h
  rw [AuthorizationGrant.generations, (snapshotRequest_eq_ok hrequest).generations,
    positiveU64_eq_ok hdriveAcl]

variable {db db' : State} {caller : Caller} {drive : DriveId} {resource : NodeId} {u : Unit}

/-- Behind a fence passed with the generations of a grant the same grant is
given again. -/
theorem authorize_of_fence (htracked : db.Tracked db')
    (hgrant : authorize db caller.actor drive resource action = .ok grant)
    (hgenerations : caller.generations = grant.generations)
    (hfence : lockAuthorizationFence db' caller drive resource = .ok u) :
    authorize db' caller.actor drive resource action = .ok grant := by
  obtain ⟨snapshot, hsnapshot, heval⟩ := bind_eq_ok hgrant
  obtain ⟨_, _, n, _, hrows, rfl⟩ := authorizationSnapshot_eq_ok (mapError_eq_ok hsnapshot)
  obtain ⟨_, _, r', _, _, hpassed⟩ := lockAuthorizationFence_eq_ok hfence
  have hr' : db'.principals.get caller.actor = some r' := by
    rw [← hpassed.actor]
    exact hpassed.principalFound
  -- The fence compares the generations of the snapshot.
  have hsame := hpassed.generations.trans (hgenerations.trans (evaluateSnapshot_generations heval))
  obtain ⟨hmembership, hacl, hspace, hresource⟩ := Generations.mk.inj hsame
  have hancestry := htracked.ancestry ⟨n, hrows.nodeFound⟩ hrows.driveFound
    hpassed.driveFound hspace
  unfold authorize
  rw [authorizationSnapshot_tracked htracked.toPolicyTracked hrows hr'
    hpassed.driveFound hpassed.nodeFound hmembership hacl hresource hancestry
    (hpassed.principalEnabled htracked.invariant), hspace]
  -- Only the namespace generation of the resource, which is not read, may
  -- differ between the snapshots.
  exact heval

/-! ## Interleavings -/

/-- An operation of another transaction that would write a locked row waits. -/
def KeepsLockedRows (caller : Caller) (drive : DriveId) (resource : NodeId)
    (db : State) (op : Operation) : Prop :=
  let db' := advance step db op
  db'.sessions.get caller.session = db.sessions.get caller.session ∧
    (∀ session, db.sessions.get caller.session = some session →
      db'.users.get session.userId = db.users.get session.userId ∧
      db'.principals.get session.principalId = db.principals.get session.principalId) ∧
    db'.drives.get drive = db.drives.get drive ∧
    db'.node drive resource = db.node drive resource

theorem fence_of_lockedRows {op : Operation}
    (hfence : lockAuthorizationFence db caller drive resource = .ok u)
    (hlocked : KeepsLockedRows caller drive resource db op) :
    lockAuthorizationFence (advance step db op) caller drive resource = .ok u := by
  obtain ⟨session, hsession, -⟩ := bind_eq_ok hfence
  have hsession := okOr_eq_ok hsession
  obtain ⟨hsessions, hrows, hdrive, hnode⟩ := hlocked
  obtain ⟨huser, hprincipal⟩ := hrows session hsession
  rw [← hfence]
  unfold lockAuthorizationFence
  rw [hsessions, hsession, hdrive, hnode]
  simp only [okOr_some, ok_bind, huser, hprincipal]

theorem fence_of_run {ops : List Operation}
    (hfence : lockAuthorizationFence db caller drive resource = .ok u)
    (hops : Meets step (KeepsLockedRows caller drive resource) db ops) :
    lockAuthorizationFence (run step db ops) caller drive resource = .ok u := by
  induction ops generalizing db with
  | nil => exact hfence
  | cons op rest ih =>
    obtain ⟨hop, hrest⟩ := hops
    exact ih (fence_of_lockedRows hfence hop) hrest

/-- If a mutation is authorized in a reachable database, any operations follow,
its fence passes with the granted generations, and until its commit other
transactions leave the locked rows, then the evaluator still allows the action
in the database in which it commits. -/
theorem fenced_mutation_allowed (before between during : List Operation)
    (caller : Caller) (drive : DriveId) (resource : NodeId) (action : Action)
    (grant : AuthorizationGrant)
    (hgrant : authorize (reached before) caller.actor drive resource action = .ok grant)
    (hgenerations : caller.generations = grant.generations)
    (hfence : lockAuthorizationFence (reached (before ++ between)) caller drive
      resource = .ok ())
    (hlocked : Meets step (KeepsLockedRows caller drive resource)
      (reached (before ++ between)) during) :
    authorize (reached (before ++ between ++ during)) caller.actor drive
      resource action = .ok grant := by
  have hcommit : reached (before ++ between ++ during) =
      run step (reached before) (between ++ during) := by
    rw [List.append_assoc]
    exact run_append _ before _
  have hrun : reached (before ++ between ++ during) =
      run step (reached (before ++ between)) during :=
    run_append _ (before ++ between) during
  have hpassed := fence_of_run hfence hlocked
  rw [← hrun, hcommit] at hpassed
  rw [hcommit]
  have hinv := policyInvariant_reached before
  exact authorize_of_fence (run_tracked hinv _) hgrant hgenerations hpassed

/-- A directory that a second user may read. -/
def readableRun : List Operation :=
  [.linkOidcIdentity
      { principalId := 1, userId := 2, verifiedEmail := none, driveId := 3,
        rootId := 4 },
    .linkOidcIdentity
      { principalId := 6, userId := 7, verifiedEmail := none, driveId := 8,
        rootId := 9 },
    .createSession { id := 5, userId := 2, idleExpiresAt := 100, absoluteExpiresAt := 100 },
    .createSession { id := 11, userId := 7, idleExpiresAt := 100, absoluteExpiresAt := 100 },
    .createDirectory
      { caller := ⟨0, 1, 5, ⟨1, 1, 1, 1⟩⟩, drive := 3, parent := 4, id := 10,
        displayName := "a", nameKey := "a", expectedGeneration := 1 },
    .nfsSetAcl
      { mount := ⟨1, 1, true⟩, drive := 3, resource := 10,
        generations := ⟨1, 1, 2, 1, 1⟩, entries := [⟨20, 6, .readContent,
          .descendants, true⟩] }]

/-- The second user reads while a group is created and the first user's session
is extended. -/
theorem fenced_mutation_allowed_readableRun :
    authorize (reached (readableRun ++ [.createGroup ⟨30, 31⟩] ++
      [.resolveSession 1 50 5])) 6 3 10 .readContent = .ok ⟨1, 2, 2, 2⟩ := by
  refine fenced_mutation_allowed readableRun [.createGroup ⟨30, 31⟩]
    [.resolveSession 1 50 5] ⟨0, 6, 11, ⟨1, 2, 2, 2⟩⟩ 3 10 .readContent
    ⟨1, 2, 2, 2⟩ ?_ rfl ?_ ?_
  · decide +kernel
  · decide +kernel
  · refine ⟨⟨?_, ?_, ?_, ?_⟩, trivial⟩
    · decide +kernel
    · intro session _
      exact ⟨rfl, rfl⟩
    · decide +kernel
    · decide +kernel

end FileBelt.Api
