import FileBelt.Database.PolicyEdit

/-!
# What a transaction does

Every successful operation changes the node tree and the policy tables by chains
of edits, `step_changes`.  Each operation is inverted here once; the invariants of
the tree and of the policy use the two chains.
-/

namespace FileBelt.Database

open Support Relation

/-- The tree changes by permitted edits, the policy tables by policy edits. -/
structure Changes (permit : Permit) (db db' : State) : Prop where
  tree : Edits permit db.space db'.space
  policy : PolicyEdits db db'

variable {request : ConflictCopy} {op : Operation} {permit : Permit} {db db' middle : State}
  {row : MembershipRow} {user : PrincipalId} {fencingToken : ℕ} {group : GroupId}
  {primary complete : Bool}

theorem Changes.framed (htree : Edits permit db.space db'.space)
    (hframe : db.Frame db') : Changes permit db db' :=
  ⟨htree, .single (.frame db' hframe)⟩

theorem Changes.bumped {space : Namespace} {versions : Table VersionRow.id}
    {uploads : Table UploadSessionRow.id} {drive : DriveId} (htree : Edits permit db.space space) :
    Changes permit db ({ db with
      space := space, versions := versions,
      uploads := uploads }.bumpDriveNamespace drive) :=
  .framed htree (frame_bump db space versions uploads drive)

theorem Changes.outside (hspace : db'.space = db.space)
    (hpolicy : PolicyEdits db db') : Changes permit db db' :=
  ⟨hspace ▸ .refl, hpolicy⟩

theorem Changes.refl (db : State) : Changes permit db db := ⟨.refl, .refl⟩

theorem Changes.trans (h : Changes permit db middle) (h' : Changes permit middle db') :
    Changes permit db db' :=
  ⟨h.tree.trans h'.tree, h.policy.trans h'.policy⟩

theorem createIdentity_changes {request : LinkIdentity}
    (h : createIdentity db request = .ok db') : Changes permit db db' := by
  obtain ⟨_, hprincipals, h⟩ := bind_eq_ok h
  obtain ⟨-, h⟩ := else_of_ok h
  obtain ⟨_, husers, h⟩ := bind_eq_ok h
  obtain ⟨_, hdrives, h⟩ := bind_eq_ok h
  obtain ⟨space, hspace, h⟩ := bind_eq_ok h
  obtain ⟨ancestry, hancestry, h⟩ := bind_eq_ok h
  cases h
  refine ⟨.single (.root _ _ space ancestry (mapError_eq_ok hspace)
    (mapError_eq_ok hancestry)), .single ?_⟩
  exact .account _ _ _ _ (okOr_eq_ok hprincipals) (okOr_eq_ok husers)
    (okOr_eq_ok hdrives) rfl rfl rfl rfl rfl rfl rfl

theorem linkOidcIdentity_changes {request : LinkIdentity}
    (h : linkOidcIdentity db request = .ok db') : Changes permit db db' := by
  unfold linkOidcIdentity at h
  split at h
  · obtain ⟨-, h⟩ := else_of_ok h
    obtain ⟨-, h⟩ := then_of_ok h
    cases h
    exact .outside rfl (.single (.email _ _))
  · exact createIdentity_changes h

theorem createSession_changes {request : CreateSession}
    (h : createSession db request = .ok db') : Changes permit db db' := by
  refine .framed ?_ (createSession_frame h)
  obtain ⟨_, -, h⟩ := bind_eq_ok h
  obtain ⟨_, -, h⟩ := bind_eq_ok h
  cases h
  exact .refl

theorem resolveSession_changes {now idleSeconds : ℕ} {session : Uuid}
    (h : resolveSession db now idleSeconds session = .ok db') : Changes permit db db' := by
  obtain ⟨_, -, h⟩ := bind_eq_ok h
  cases h
  exact .framed .refl (frame_updateSessions db _ _ _ (fun _ => rfl) (fun _ => rfl))

theorem createGroup_changes {group : GroupRow}
    (h : createGroup db group = .ok db') : Changes permit db db' := by
  obtain ⟨principals, hprincipals, h⟩ := bind_eq_ok h
  obtain ⟨groups, hgroups, h⟩ := bind_eq_ok h
  cases h
  exact .outside rfl (.single (.group principals groups _ group
    (okOr_eq_ok hprincipals) (okOr_eq_ok hgroups) rfl))

theorem insertMembership_changes (h : insertMembership db row = .ok db') :
    Changes permit db db' := by
  obtain ⟨hkeys, h⟩ := else_of_ok h
  obtain ⟨memberships, hinsert, h⟩ := bind_eq_ok h
  cases h
  obtain ⟨hgroup, -⟩ := not_or.mp hkeys
  have hrows := (Table.insert_eq_some (okOr_eq_ok hinsert)).2
  refine .outside rfl (.single (.members memberships _ ?_ ?_))
  · intro q hq
    rw [hrows, filter_append_other (Ne.symm (of_decide_eq_false hq))]
  · intro m hm
    rw [hrows, List.mem_append, List.mem_singleton] at hm
    rcases hm with hm | rfl
    · exact .inl hm
    · exact .inr (by simpa using hgroup)

theorem deleteMembership_changes (h : deleteMembership db group user primary = .ok db') :
    Changes permit db db' := by
  unfold deleteMembership at h
  split at h
  · cases h
    exact .refl db
  · obtain ⟨-, h⟩ := else_of_ok h
    cases h
    refine .outside rfl (.single (.members _ _ ?_ ?_))
    · intro q hq
      exact filter_delete_other (Ne.symm (of_decide_eq_false hq))
    · intro m hm
      exact .inl (List.mem_of_mem_filter hm)

theorem updateMembership_changes (h : updateMembership db group user row primary = .ok db') :
    Changes permit db db' := by
  unfold updateMembership at h
  split at h
  · cases h
    exact .refl db
  · obtain ⟨-, h⟩ := else_of_ok h
    obtain ⟨hkeys, h⟩ := else_of_ok h
    obtain ⟨memberships, hinsert, h⟩ := bind_eq_ok h
    cases h
    obtain ⟨hgroup, -⟩ := not_or.mp hkeys
    have hrows := (Table.insert_eq_some (okOr_eq_ok hinsert)).2
    refine .outside rfl (.single (.members memberships _ ?_ ?_))
    · intro q hq
      obtain ⟨huser, hrow⟩ := not_or.mp (of_decide_eq_false hq)
      rw [hrows, filter_append_other (Ne.symm hrow), filter_delete_other (Ne.symm huser)]
    · intro m hm
      rw [hrows, List.mem_append, List.mem_singleton] at hm
      rcases hm with hm | rfl
      · exact .inl (List.mem_of_mem_filter hm)
      · exact .inr (by simpa using hgroup)

/-- The live share that an ACL row belongs to, if any. -/
def State.SharedBy (db : State) (row : AclEntryRow) : Prop :=
  ∀ id, row.directShareId = some id →
    ∃ share, db.directShares.get id = some share ∧ row.OfShare share

theorem insertAclEntry_changes {row : AclEntryRow} (hshare : db.SharedBy row)
    (h : insertAclEntry db row = .ok db') :
    Changes permit db db' ∧ db'.directShares = db.directShares := by
  obtain ⟨-, h⟩ := else_of_ok h
  obtain ⟨-, h⟩ := else_of_ok h
  obtain ⟨entries, hinsert, h⟩ := bind_eq_ok h
  cases h
  refine ⟨⟨.single (edit_bumpAcl { db with aclEntries := entries } [row]), .single ?_⟩, rfl⟩
  exact .insertEntry row entries (okOr_eq_ok hinsert) hshare

theorem insertAclEntries_changes {rows : List AclEntryRow} (hshare : ∀ row ∈ rows, db.SharedBy row)
    (h : insertAclEntries db rows = .ok db') : Changes permit db db' := by
  induction rows generalizing db with
  | nil =>
    cases h
    exact .refl _
  | cons row rest ih =>
    obtain ⟨_, hrow, hrest⟩ := bind_eq_ok h
    obtain ⟨hfirst, hshares⟩ := insertAclEntry_changes (hshare row List.mem_cons_self) hrow
    refine hfirst.trans (ih ?_ hrest)
    intro r hr
    rw [State.SharedBy, hshares]
    exact hshare r (List.mem_cons_of_mem row hr)

theorem insertNfsAclEntries_changes {request : NfsSetAcl} {entries : List NfsAclEntry}
    (h : insertNfsAclEntries request db entries = .ok db') : Changes permit db db' := by
  induction entries generalizing db with
  | nil =>
    cases h
    exact .refl _
  | cons entry rest ih =>
    obtain ⟨-, h⟩ := else_of_ok h
    obtain ⟨_, hrow, hrest⟩ := bind_eq_ok h
    have hshare : db.SharedBy (nfsAclRow request entry) := by
      intro id hid
      cases hid
    exact (insertAclEntry_changes hshare hrow).1.trans (ih hrest)

theorem deleteAclEntries_changes (db : State) (p : AclEntryRow → Bool) :
    Changes permit db (deleteAclEntries db p) :=
  ⟨.single (edit_bumpAcl { db with aclEntries := db.aclEntries.delete p } _),
    .single (.deleteEntries p)⟩

theorem replaceAdvancedAclEntries_changes {request : ReplaceAdvancedAclEntries}
    (h : replaceAdvancedAclEntries db request = .ok db') : Changes permit db db' := by
  obtain ⟨-, h⟩ := else_of_ok h
  obtain ⟨-, h⟩ := else_of_ok h
  obtain ⟨-, -, h⟩ := bind_eq_ok h
  obtain ⟨_, -, h⟩ := bind_eq_ok h
  obtain ⟨-, h⟩ := else_of_ok h
  obtain ⟨_, -, h⟩ := bind_eq_ok h
  obtain ⟨-, h⟩ := else_of_ok h
  obtain ⟨-, h⟩ := else_of_ok h
  obtain ⟨_, -, h⟩ := bind_eq_ok h
  obtain ⟨-, h⟩ := else_of_ok h
  refine (deleteAclEntries_changes db _).trans (insertAclEntries_changes ?_ h)
  intro row hrow id hid
  obtain ⟨_, -, rfl⟩ := List.mem_map.mp hrow
  cases hid

theorem createDirectShare_changes {request : CreateDirectShare}
    (h : createDirectShare db request = .ok db') : Changes permit db db' := by
  obtain ⟨-, h⟩ := else_of_ok h
  obtain ⟨-, h⟩ := else_of_ok h
  obtain ⟨_, hfence, h⟩ := bind_eq_ok h
  obtain ⟨_, -, h⟩ := bind_eq_ok h
  obtain ⟨-, h⟩ := else_of_ok h
  obtain ⟨_, hshared, h⟩ := bind_eq_ok h
  obtain ⟨-, hshared⟩ := else_of_ok hshared
  obtain ⟨-, hshared⟩ := else_of_ok hshared
  obtain ⟨shares, hinsert, hshared⟩ := bind_eq_ok hshared
  cases hshared
  have hinsert := okOr_eq_ok hinsert
  obtain ⟨_, _, _, _, _, hpassed⟩ := lockAuthorizationFence_eq_ok hfence
  have hcreator : db.principals.get request.caller.actor ≠ none := by
    rw [← hpassed.actor, hpassed.principalFound]
    simp
  have hshare : Changes permit db { db with directShares := shares } :=
    .outside rfl (.single (.insertShare _ shares hinsert hcreator))
  refine hshare.trans (insertAclEntries_changes ?_ h)
  intro row hrow id hid
  obtain ⟨_, -, rfl⟩ := List.mem_map.mp hrow
  obtain rfl : request.shareId = id := Option.some.inj hid
  exact ⟨_, (Table.get_insert hinsert _).trans (if_pos rfl), rfl, rfl, rfl, rfl⟩

theorem revokeDirectShare_changes {request : RevokeDirectShare}
    (h : revokeDirectShare db request = .ok db') : Changes permit db db' := by
  obtain ⟨-, -, h⟩ := bind_eq_ok h
  obtain ⟨share, -, h⟩ := bind_eq_ok h
  cases h
  refine (deleteAclEntries_changes db fun row =>
    row.directShareId = some share.id).trans (.outside rfl (.single (.revokeShares _ ?_)))
  intro row hrow s _ hid
  obtain ⟨-, hkept⟩ := List.mem_filter.mp hrow
  simpa [hid] using hkept

theorem repairDescendantShares_changes (db : State) (selected : List Uuid) :
    Changes permit db (repairDescendantShares db selected) := by
  refine (deleteAclEntries_changes db _).trans (.outside rfl (.single (.revokeShares _ ?_)))
  intro row hrow s hs hid
  obtain ⟨-, hkept⟩ := List.mem_filter.mp hrow
  by_contra hp
  refine absurd hkept ?_
  simp only [Bool.not_eq_true', Bool.not_eq_false, List.any_eq_true]
  exact ⟨s, List.mem_filter.mpr ⟨hs, by simpa using hp⟩, decide_eq_true hid⟩

theorem nfsSetAcl_changes {request : NfsSetAcl}
    (h : nfsSetAcl db request = .ok db') : Changes permit db db' := by
  obtain ⟨-, -, h⟩ := bind_eq_ok h
  obtain ⟨-, h⟩ := else_of_ok h
  exact (deleteAclEntries_changes db _).trans (insertNfsAclEntries_changes h)

/-- The permit lets nodes be created in live directories. -/
abbrev Permit.LetsCreate (permit : Permit) (s : Namespace) : Prop :=
  ∀ drive id, s.LiveDirectory drive id → permit.under s drive id

theorem createDirectory_changes {request : CreateDirectory}
    (hunder : permit.under db.space request.drive request.parent)
    (h : createDirectory db request = .ok db') : Changes permit db db' := by
  obtain ⟨-, -, h⟩ := bind_eq_ok h
  obtain ⟨_, -, h⟩ := bind_eq_ok h
  obtain ⟨-, h⟩ := else_of_ok h
  obtain ⟨space, hspace, h⟩ := bind_eq_ok h
  cases h
  have hinsert : Edit permit db.space space := edit_insertChild rfl rfl hunder hspace
  exact .bumped ((ReflTransGen.single hinsert).tail (edit_bumpNamespaceGeneration _ _ _))

theorem commitTarget_edits {request : CommitUpload} {upload : UploadSessionRow}
    {target : Namespace × NodeId}
    (hunder : upload.nodeId = none → permit.under db.space upload.driveId upload.parentId)
    (h : commitTarget db request upload = .ok target) : Edits permit db.space target.1 := by
  unfold commitTarget at h
  split at h
  · obtain ⟨_, -, h⟩ := bind_eq_ok h
    obtain ⟨-, h⟩ := else_of_ok h
    cases h
    exact .refl
  · next hnew =>
    obtain ⟨_, hspace, h⟩ := bind_eq_ok h
    cases h
    exact .single (edit_insertChild rfl rfl (hunder hnew) hspace)

theorem commitUpload_changes {request : CommitUpload}
    (hop : (Operation.commitUpload request).Permitted permit db)
    (h : commitUpload db request = .ok db') : Changes permit db db' := by
  obtain ⟨upload, hupload, h⟩ := bind_eq_ok h
  obtain ⟨-, -, h⟩ := bind_eq_ok h
  obtain ⟨_, htarget, h⟩ := bind_eq_ok h
  obtain ⟨-, -, h⟩ := bind_eq_ok h
  obtain ⟨_, -, h⟩ := bind_eq_ok h
  obtain ⟨-, h⟩ := else_of_ok h
  cases h
  have hget := Option.eq_some_of_filter_eq_some (okOr_eq_ok hupload)
  exact .bumped ((commitTarget_edits (hop upload hget) htarget).tail (.head _ _ _))

section

variable (hunder : permit.LetsCreate db.space)
include hunder

/-- A conflict copy inserts a child of a live directory and checks that
itself. -/
theorem insertConflictCopy_eq_ok (h : insertConflictCopy db request = .ok db') :
    db.node request.drive request.id = none ∧ ∃ space versions, Edit permit db.space space ∧
        db' = { db with space := space, versions := versions } := by
  obtain ⟨-, -, h⟩ := bind_eq_ok h
  obtain ⟨-, -, h⟩ := bind_eq_ok h
  obtain ⟨parent, hparent, h⟩ := bind_eq_ok h
  obtain ⟨-, h⟩ := else_of_ok h
  obtain ⟨space, hspace, h⟩ := bind_eq_ok h
  obtain ⟨versions, -, h⟩ := bind_eq_ok h
  obtain ⟨hget, hlive⟩ := Option.filter_eq_some_iff.mp (okOr_eq_ok hparent)
  have hdirectory : db.space.LiveDirectory request.drive request.parent :=
    ⟨parent, hget, of_decide_eq_true hlive⟩
  obtain ⟨_, _, hnode, -, -⟩ := insertChild_eq_ok hspace
  exact ⟨(Namespace.insertNode_eq_ok hnode).fresh, space, versions,
    edit_insertChild rfl rfl (hunder _ _ hdirectory) hspace,
    (Except.ok.inj h).symm⟩

theorem createDocumentConflictCopy_changes
    (hop : (Operation.createDocumentConflictCopy request).Permitted permit db)
    (h : createDocumentConflictCopy db request = .ok db') : Changes permit db db' := by
  obtain ⟨_, hcopied, h⟩ := bind_eq_ok h
  obtain ⟨hnew, _, _, hedit, rfl⟩ := insertConflictCopy_eq_ok hunder hcopied
  cases h
  exact .framed ((ReflTransGen.single hedit).tail (.headOnly _ _ _ (hop hnew)))
    (frame_space db _ _ _)

theorem copyNfsWriteConflict_changes
    (h : copyNfsWriteConflict db request = .ok db') : Changes permit db db' := by
  obtain ⟨_, hcopied, h⟩ := bind_eq_ok h
  obtain ⟨-, _, _, hedit, rfl⟩ := insertConflictCopy_eq_ok hunder hcopied
  cases h
  exact .bumped (((ReflTransGen.single hedit).tail (.head _ _ _)).tail
    (edit_bumpNamespaceGeneration _ _ _))

theorem nfsCreate_changes {request : NfsCreate}
    (h : nfsCreate db request = .ok db') : Changes permit db db' := by
  obtain ⟨-, -, h⟩ := bind_eq_ok h
  obtain ⟨hparent, h⟩ := else_of_ok h
  obtain ⟨space, hspace, h⟩ := bind_eq_ok h
  cases h
  have hdirectory : db.space.LiveDirectory request.drive request.parent :=
    liveDirectory_of_check (not_not.mp hparent)
  have hinsert : Edit permit db.space space :=
    edit_insertChild rfl rfl (hunder _ _ hdirectory) hspace
  exact .bumped ((ReflTransGen.single hinsert).tail (edit_bumpNamespaceGeneration _ _ _))

end

theorem beginUpload_changes {request : BeginUpload}
    (h : beginUpload db request = .ok db') : Changes permit db db' := by
  obtain ⟨-, h⟩ := else_of_ok h
  obtain ⟨-, -, h⟩ := bind_eq_ok h
  obtain ⟨-, h⟩ := else_of_ok h
  obtain ⟨-, h⟩ := else_of_ok h
  obtain ⟨-, -, h⟩ := bind_eq_ok h
  obtain ⟨_, -, h⟩ := bind_eq_ok h
  cases h
  exact .framed .refl (frame_space db _ _ _)

theorem claimUploadFinalization_changes {upload owner : Uuid}
    (h : claimUploadFinalization db upload fencingToken owner complete = .ok db') :
    Changes permit db db' := by
  obtain ⟨-, h⟩ := then_of_ok h
  cases h
  exact .framed .refl (frame_space db _ _ _)

theorem markUploadFinalized_changes {upload owner : Uuid}
    (h : markUploadFinalized db upload fencingToken owner = .ok db') : Changes permit db db' := by
  obtain ⟨-, h⟩ := then_of_ok h
  cases h
  exact .framed .refl (frame_space db _ _ _)

theorem restoreFileVersion_changes {request : RestoreFileVersion}
    (hsilent : permit.silent request.drive request.node)
    (h : restoreFileVersion db request = .ok db') : Changes permit db db' := by
  obtain ⟨-, -, h⟩ := bind_eq_ok h
  obtain ⟨_, -, h⟩ := bind_eq_ok h
  obtain ⟨-, h⟩ := else_of_ok h
  obtain ⟨_, -, h⟩ := bind_eq_ok h
  cases h
  exact .framed (.single (.headOnly _ _ _ hsilent)) (frame_space db _ _ _)

theorem commitDocumentRevision_changes {request : CommitDocumentRevision}
    (hsilent : permit.silent request.drive request.node)
    (h : commitDocumentRevision db request = .ok db') : Changes permit db db' := by
  obtain ⟨-, -, h⟩ := bind_eq_ok h
  obtain ⟨-, -, h⟩ := bind_eq_ok h
  obtain ⟨_, -, h⟩ := bind_eq_ok h
  split at h
  · cases h
    exact .refl db
  · obtain ⟨_, -, h⟩ := bind_eq_ok h
    obtain ⟨-, h⟩ := else_of_ok h
    cases h
    exact .framed (.single (.headOnly _ _ _ hsilent)) (frame_space db _ _ _)

theorem commitNfsWrite_changes {request : CommitNfsWrite}
    (h : commitNfsWrite db request = .ok db') : Changes permit db db' := by
  obtain ⟨-, -, h⟩ := bind_eq_ok h
  obtain ⟨-, -, h⟩ := bind_eq_ok h
  obtain ⟨_, -, h⟩ := bind_eq_ok h
  split at h
  · cases h
    exact .refl db
  · obtain ⟨_, -, h⟩ := bind_eq_ok h
    obtain ⟨-, h⟩ := else_of_ok h
    obtain ⟨-, -, h⟩ := bind_eq_ok h
    cases h
    exact .bumped (.single (.head _ _ _))

theorem setContentClassPolicy_changes {request : SetContentClassPolicy}
    (h : setContentClassPolicy db request = .ok db') : Changes permit db db' := by
  obtain ⟨-, -, h⟩ := bind_eq_ok h
  obtain ⟨-, h⟩ := then_of_ok h
  cases h
  exact .framed (.single (edit_bumpAttributeGeneration _ _ _)) (frame_space db _ _ _)

theorem nfsSetAttributes_changes {request : NfsSetAttributes}
    (h : nfsSetAttributes db request = .ok db') : Changes permit db db' := by
  obtain ⟨-, -, h⟩ := bind_eq_ok h
  obtain ⟨-, -, h⟩ := bind_eq_ok h
  cases h
  exact .bumped (.single (edit_bumpNamespaceGeneration _ _ _))

theorem setNodeTrashState_changes {request : SetNodeTrashState}
    (hop : (Operation.setNodeTrashState request).Permitted permit db)
    (h : setNodeTrashState db request = .ok db') : Changes permit db db' := by
  obtain ⟨hroot, hsilent⟩ := hop
  obtain ⟨node, _, hnode, rfl, ⟨hmode, hparent, hlive, rfl⟩ |
    ⟨hmode, htrashed, ⟨parent, n, hparent, hn, hlive⟩, rfl⟩⟩ := setNodeTrashState_eq_ok h
  · rw [hmode] at hsilent hroot
    exact .bumped (.single (.trash _ _ node hnode hparent hlive hroot hsilent))
  · rw [hmode] at hsilent hroot
    exact .bumped (.single (.restore _ _ parent node hnode hparent htrashed
      ⟨n, hn, hlive⟩ hroot hsilent))

theorem nfsRemove_changes {request : NfsRemove}
    (hop : (Operation.nfsRemove request).Permitted permit db)
    (h : nfsRemove db request = .ok db') : Changes permit db db' := by
  obtain ⟨hroot, hsilent⟩ := hop
  obtain ⟨row, hrow, hparent, hlive, rfl⟩ := nfsRemove_eq_ok h
  have hchild : row.parentId ≠ none := by simp [hparent]
  have htrash := Edit.trash _ _ row hrow hchild hlive hroot hsilent
  exact .bumped ((ReflTransGen.single htrash).tail (edit_bumpNamespaceGeneration _ _ _))

theorem nfsRename_changes {request : NfsRename}
    (hop : (Operation.nfsRename request).Permitted permit db)
    (h : nfsRename db request = .ok db') : Changes permit db db' := by
  obtain ⟨⟨hbelow, htarget, row, ancestry, hrow, hparent, hlive, hancestry,
    hspace⟩, space, rfl⟩ := nfsRename_eq_ok h
  refine .bumped ?_
  have hspace : space = _ := hspace
  rw [hspace]
  exact (ReflTransGen.single (.move _ _ _ _ _ row request.oldParent ancestry
    hrow hparent hlive htarget hbelow hancestry hop)).tail (edit_bumpNamespaceGeneration _ _ _)

section

variable (hunder : ∀ s drive id, Namespace.LiveDirectory s drive id → permit.under s drive id)
include hunder

/-- A permitted operation changes the tree and the policy tables by chains of edits. -/
theorem step_changes (hop : op.Permitted permit db) (h : step db op = .ok db') :
    Changes permit db db' := by
  cases op with
  | linkOidcIdentity => exact linkOidcIdentity_changes h
  | createSession => exact createSession_changes h
  | resolveSession => exact resolveSession_changes h
  | revokeSession =>
    cases h
    exact .framed .refl (frame_updateSessions db _ _ _ (fun _ => rfl) (fun _ => rfl))
  | revokeAllSessions =>
    cases h
    exact .framed .refl (frame_updateSessions db _ _ _ (fun _ => rfl) (fun _ => rfl))
  | createGroup => exact createGroup_changes h
  | insertMembership => exact insertMembership_changes h
  | deleteMembership => exact deleteMembership_changes h
  | updateMembership => exact updateMembership_changes h
  | setUserStatus user status =>
    cases h
    exact .outside rfl (.single (.status user status))
  | setPrincipalDisabled principal disabled =>
    cases h
    exact .outside rfl (.single (.disabled principal disabled 0))
  | invalidateServicePolicy principal active =>
    cases h
    exact .outside rfl (.single (.disabled principal (!active) 1))
  | replaceAdvancedAclEntries =>
    exact replaceAdvancedAclEntries_changes h
  | createDirectShare => exact createDirectShare_changes h
  | revokeDirectShare => exact revokeDirectShare_changes h
  | repairDescendantShares =>
    cases h
    exact repairDescendantShares_changes db _
  | nfsSetAcl => exact nfsSetAcl_changes h
  | createDirectory => exact createDirectory_changes hop h
  | beginUpload => exact beginUpload_changes h
  | claimUploadFinalization =>
    exact claimUploadFinalization_changes h
  | markUploadFinalized =>
    exact markUploadFinalized_changes h
  | commitUpload => exact commitUpload_changes hop h
  | restoreFileVersion => exact restoreFileVersion_changes hop h
  | commitDocumentRevision => exact commitDocumentRevision_changes hop h
  | createDocumentConflictCopy =>
    exact createDocumentConflictCopy_changes (hunder db.space) hop h
  | copyNfsWriteConflict =>
    exact copyNfsWriteConflict_changes (hunder db.space) h
  | setContentClassPolicy => exact setContentClassPolicy_changes h
  | setNodeTrashState => exact setNodeTrashState_changes hop h
  | nfsCreate => exact nfsCreate_changes (hunder db.space) h
  | nfsRename => exact nfsRename_changes hop h
  | nfsRemove => exact nfsRemove_changes hop h
  | nfsSetAttributes => exact nfsSetAttributes_changes h
  | commitNfsWrite => exact commitNfsWrite_changes h

theorem step_edits (hop : op.Permitted permit db) (h : step db op = .ok db') :
    Edits permit db.space db'.space :=
  (step_changes hunder hop h).tree

end

/-- No operation changes the policy tables in another way. -/
theorem step_policyEdits (h : step db op = .ok db') : PolicyEdits db db' :=
  (step_changes (fun _ _ _ _ => trivial) (permitted_any db op) h).policy

end FileBelt.Database
