import FileBelt.Database.Edit

/-!
# What a transaction does to the policy tables

Every successful operation changes principals, users, groups, memberships, drives, ACL
rows and direct shares by a chain of a few kinds of edits, `step_policyEdits`.  The
edits keep the trigger calls that go with them.
-/

namespace FileBelt.Database

open Support Relation

/-- Policy tables as before, at most one new namespace generation of a drive, and sessions
that pair users with their principals. -/
structure State.Frame (db db' : State) : Prop where
  principals : db'.principals = db.principals
  users : db'.users = db.users
  groups : db'.groups = db.groups
  memberships : db'.memberships = db.memberships
  aclEntries : db'.aclEntries = db.aclEntries
  directShares : db'.directShares = db.directShares
  drives : db'.drives = db.drives ∨ ∃ drive, db'.drives = (db.bumpDriveNamespace drive).drives
  sessions : ∀ s' ∈ db'.sessions.rows,
    (∃ s ∈ db.sessions.rows, s.userId = s'.userId ∧
      s.principalId = s'.principalId) ∨
    ∃ u, db.users.get s'.userId = some u ∧ u.principalId = s'.principalId

structure AclEntryRow.OfShare (row : AclEntryRow) (share : DirectShareRow) : Prop where
  driveId : share.driveId = row.driveId
  createdBy : share.createdBy = row.createdBy
  inheritance : share.inheritance = row.inheritance
  revoked : share.revoked = false

/-- One change of the policy tables. -/
inductive PolicyEdit (db : State) : State → Prop
  | frame (db' : State) (hframe : db.Frame db') : PolicyEdit db db'
  | account (db' : State) (principal : PrincipalRow) (user : UserRow) (drive : DriveRow)
      (hprincipal : db.principals.insert principal = some db'.principals)
      (huser : db.users.insert user = some db'.users)
      (hdrive : db.drives.insert drive = some db'.drives)
      (huserPrincipal : user.principalId = principal.id)
      (howner : drive.ownerPrincipalId = principal.id)
      (hgroups : db'.groups = db.groups)
      (hmemberships : db'.memberships = db.memberships)
      (haclEntries : db'.aclEntries = db.aclEntries)
      (hshares : db'.directShares = db.directShares)
      (hsessions : db'.sessions = db.sessions) : PolicyEdit db db'
  | group (principals : Table PrincipalRow.id) (groups : Table GroupRow.id)
      (principal : PrincipalRow) (group : GroupRow)
      (hprincipal : db.principals.insert principal = some principals)
      (hgroup : db.groups.insert group = some groups)
      (hgroupPrincipal : group.principalId = principal.id) :
      PolicyEdit db { db with principals := principals, groups := groups }
  | members (memberships : Table MembershipRow.key) (p : PrincipalId → Bool)
      (hother : ∀ q, p q = false →
        memberships.rows.filter (fun m => m.userPrincipalId = q) =
          db.memberships.rows.filter fun m => m.userPrincipalId = q)
      (hgroups : ∀ m ∈ memberships.rows, m ∈ db.memberships.rows ∨ db.groups.get m.groupId ≠ none) :
      PolicyEdit db ({ db with memberships := memberships }.bumpMembers p)
  | email (user : Uuid) (email : Option String) : PolicyEdit db (db.setVerifiedEmail user email)
  | status (user : Uuid) (status : UserStatus) : PolicyEdit db (setUserStatus db user status)
  | disabled (principal : PrincipalId) (disabled : Bool) (extra : ℕ) :
      PolicyEdit db (writePrincipalDisabled db principal disabled extra)
  | deleteEntries (p : AclEntryRow → Bool) : PolicyEdit db (deleteAclEntries db p)
  | insertEntry (row : AclEntryRow) (entries : Table AclEntryRow.id)
      (hinsert : db.aclEntries.insert row = some entries)
      (hshare : ∀ id, row.directShareId = some id →
        ∃ share, db.directShares.get id = some share ∧ row.OfShare share) :
      PolicyEdit db ({ db with aclEntries := entries }.bumpAcl [row])
  | insertShare (share : DirectShareRow) (shares : Table DirectShareRow.id)
      (hinsert : db.directShares.insert share = some shares)
      (hcreator : db.principals.get share.createdBy ≠ none) :
      PolicyEdit db { db with directShares := shares }
  | revokeShares (p : DirectShareRow → Bool)
      (hrows : ∀ row ∈ db.aclEntries.rows, ∀ s ∈ db.directShares.rows,
        row.directShareId = some s.id → p s = false) : PolicyEdit db (db.revokeShares p)

abbrev PolicyEdits : State → State → Prop := ReflTransGen PolicyEdit

theorem frame_space (db : State) (space : Namespace)
    (versions : Table VersionRow.id) (uploads : Table UploadSessionRow.id) :
    db.Frame { db with
      space := space, versions := versions, uploads := uploads } :=
  ⟨rfl, rfl, rfl, rfl, rfl, rfl, .inl rfl, fun s hs => .inl ⟨s, hs, rfl, rfl⟩⟩

theorem frame_bump (db : State) (space : Namespace)
    (versions : Table VersionRow.id) (uploads : Table UploadSessionRow.id) (drive : DriveId) :
    db.Frame ({ db with
      space := space, versions := versions,
      uploads := uploads }.bumpDriveNamespace drive) :=
  ⟨rfl, rfl, rfl, rfl, rfl, rfl, .inr ⟨drive, rfl⟩, fun s hs => .inl ⟨s, hs, rfl, rfl⟩⟩

variable {db db' : State} {request : ConflictCopy} {row : MembershipRow} {group : GroupId}
  {user q : PrincipalId}

theorem createSession_frame {request : CreateSession}
    (h : createSession db request = .ok db') : db.Frame db' := by
  obtain ⟨user, huser, h⟩ := bind_eq_ok h
  obtain ⟨_, hsessions, h⟩ := bind_eq_ok h
  cases h
  refine ⟨rfl, rfl, rfl, rfl, rfl, rfl, .inl rfl, ?_⟩
  intro s' hs'
  have huser := okOr_eq_ok huser
  have hrows := (Table.insert_eq_some (okOr_eq_ok hsessions)).2
  rw [hrows, List.mem_append, List.mem_singleton] at hs'
  rcases hs' with hs' | rfl
  · exact .inl ⟨s', hs', rfl, rfl⟩
  · have hid : user.id = request.userId := Table.get_key huser
    exact .inr ⟨user, by rw [hid]; exact huser, rfl⟩

theorem frame_updateSessions (db : State) (p : SessionRow → Bool)
    (f : SessionRow → SessionRow) (hf : ∀ s, (f s).id = s.id) (huser : ∀ s, (f s).userId = s.userId)
    (hprincipal : ∀ s, (f s).principalId = s.principalId) :
    db.Frame { db with sessions := db.sessions.update p f hf } := by
  refine ⟨rfl, rfl, rfl, rfl, rfl, rfl, .inl rfl, ?_⟩
  intro s' hs'
  obtain ⟨s, hs, rfl⟩ := List.mem_map.mp hs'
  refine .inl ⟨s, hs, ?_⟩
  split
  · exact ⟨(huser s).symm, (hprincipal s).symm⟩
  · exact ⟨rfl, rfl⟩

/-- What a passed fence has read and checked. -/
structure FencePassed (db : State) (caller : Caller) (drive : DriveId)
    (resource : NodeId) (session : SessionRow) (user : UserRow)
    (principal : PrincipalRow) (driveRow : DriveRow) (node : NodeRow) : Prop where
  sessionFound : db.sessions.get caller.session = some session
  userFound : db.users.get session.userId = some user
  principalFound : db.principals.get session.principalId = some principal
  driveFound : db.drives.get drive = some driveRow
  nodeFound : db.node drive resource = some node
  actor : session.principalId = caller.actor
  active : user.status = .active
  enabled : principal.disabled = false
  generations : (⟨principal.generation, driveRow.aclGeneration,
    driveRow.namespaceGeneration, node.aclGeneration⟩ : Generations) = caller.generations

/-- A fence that is passed has found all its rows as the caller saw them. -/
theorem lockAuthorizationFence_eq_ok {caller : Caller} {drive : DriveId}
    {resource : NodeId} {u : Unit} (h : lockAuthorizationFence db caller drive resource = .ok u) :
    ∃ session user principal driveRow node, FencePassed db caller drive
      resource session user principal driveRow node := by
  obtain ⟨session, hsession, h⟩ := bind_eq_ok h
  obtain ⟨user, huser, h⟩ := bind_eq_ok h
  obtain ⟨principal, hprincipal, h⟩ := bind_eq_ok h
  obtain ⟨driveRow, hdrive, h⟩ := bind_eq_ok h
  obtain ⟨node, hnode, h⟩ := bind_eq_ok h
  obtain ⟨hchecks, h⟩ := then_of_ok h
  obtain ⟨hactor, -, -, -, hactive, henabled, hgenerations⟩ := hchecks
  exact ⟨session, user, principal, driveRow, node, okOr_eq_ok hsession,
    okOr_eq_ok huser, okOr_eq_ok hprincipal, okOr_eq_ok hdrive,
    okOr_eq_ok hnode, hactor, hactive, henabled, hgenerations⟩

theorem filter_append_other {rows : List MembershipRow} (hq : row.userPrincipalId ≠ q) :
    (rows ++ [row]).filter (fun m => m.userPrincipalId = q) =
      rows.filter fun m => m.userPrincipalId = q := by
  simp [hq]

theorem filter_delete_other {t : Table MembershipRow.key} (hq : user ≠ q) :
    (t.delete fun m => m.key = (group, user)).rows.filter (fun m => m.userPrincipalId = q) =
      t.rows.filter fun m => m.userPrincipalId = q := by
  change (t.rows.filter _).filter _ = _
  rw [List.filter_filter]
  refine List.filter_congr fun m _ => ?_
  by_cases hm : m.userPrincipalId = q
  · have hkey : m.key ≠ (group, user) := by
      intro hkey
      exact hq ((Prod.mk.inj hkey).2.symm.trans hm)
    simp [hkey]
  · simp [hm]

end FileBelt.Database
