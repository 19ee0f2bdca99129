import FileBelt.Database.Mount

/-!
# Policy transactions

Sessions, groups, memberships, account states, the Virtual ACL and direct shares, with
the statement triggers that advance the generations of the authorization fence.  Every
write of `acl_entries`, `group_memberships`, `users.status` and
`principals.disabled_at` goes through one of the trigger functions below.
-/

namespace FileBelt.Database

open Support

/-- The drives where a principal selected by `p` has an unrevoked recursive
share. -/
def sharesFrom (db : State) (p : PrincipalId → Bool) (drive : DriveId) : Bool :=
  db.directShares.rows.any fun s => s.driveId = drive ∧ p s.createdBy ∧
    s.revoked = false ∧ s.inheritance = .selfAndDescendants

/-- The creator fan-out of the membership, user and principal triggers. -/
def State.bumpCreatorDrives (db : State) (p : PrincipalId → Bool) : State :=
  { db with
    drives := db.drives.update (fun d => sharesFrom db p d.id)
      (fun d => { d with aclGeneration := d.aclGeneration + 1 })
      (fun _ => rfl) }

def State.bumpPrincipals (db : State) (p : PrincipalId → Bool) : State :=
  { db with
    principals := db.principals.update (fun r => p r.id)
      (fun r => { r with generation := r.generation + 1 }) (fun _ => rfl) }

/-- The trigger on `acl_entries`: each drive and node among the changed rows
advances once. -/
def State.bumpAcl (db : State) (changed : List AclEntryRow) : State :=
  { db with
    drives := db.drives.update (fun d => changed.any fun r => r.driveId = d.id)
      (fun d => { d with aclGeneration := d.aclGeneration + 1 }) (fun _ => rfl)
    space := db.space.update (fun n => changed.any fun r =>
        r.driveId = n.driveId ∧ r.resourceId = n.id)
      (fun n => { n with aclGeneration := n.aclGeneration + 1 })
      (fun _ => rfl) }

structure CreateSession where
  id : Uuid
  userId : Uuid
  idleExpiresAt : ℕ
  absoluteExpiresAt : ℕ

/-- `create_session`; the identity record pairs a user with its principal. -/
def createSession (db : State) (request : CreateSession) : Except DatabaseError State := do
  let user ← okOr (db.users.get request.userId) .sql
  let sessions ← okOr (db.sessions.insert
    { id := request.id
      userId := user.id
      principalId := user.principalId
      idleExpiresAt := request.idleExpiresAt
      absoluteExpiresAt := request.absoluteExpiresAt
      revoked := false }) .sql
  .ok { db with sessions := sessions }

/-- `resolve_session` extends the idle expiry. -/
def resolveSession (db : State) (now idleSeconds : ℕ) (session : Uuid) :
    Except DatabaseError State := do
  let row ← okOr ((db.sessions.get session).filter fun s =>
    s.revoked = false ∧ now < s.idleExpiresAt ∧ now < s.absoluteExpiresAt ∧
      (db.users.get s.userId).any fun u => u.status = .active) .notFound
  .ok { db with
    sessions := db.sessions.update (fun s => s.id = row.id)
      (fun s => { s with
        idleExpiresAt := min s.absoluteExpiresAt (now + idleSeconds) })
      (fun _ => rfl) }

def State.revokeSessions (db : State) (p : SessionRow → Bool) : State :=
  { db with
    sessions := db.sessions.update p (fun s => { s with revoked := true }) (fun _ => rfl) }

def revokeSession (db : State) (session : Uuid) : State :=
  db.revokeSessions fun s => s.id = session

def revokeAllSessions (db : State) (user : Uuid) (exceptSession : Option Uuid) : State :=
  db.revokeSessions fun s => s.userId = user ∧ exceptSession ≠ some s.id

def createGroup (db : State) (group : GroupRow) : Except DatabaseError State := do
  let principals ← okOr (db.principals.insert
    { id := group.principalId, kind := .group, generation := 1,
      disabled := false }) .sql
  let groups ← okOr (db.groups.insert group) .sql
  .ok { db with principals := principals, groups := groups }

/-- The trigger on `group_memberships`. -/
def State.bumpMembers (db : State) (p : PrincipalId → Bool) : State :=
  (db.bumpPrincipals p).bumpCreatorDrives p

def insertMembership (db : State) (row : MembershipRow) : Except DatabaseError State :=
  if (db.groups.get row.groupId).isNone ∨
      (db.principals.get row.userPrincipalId).isNone then .error .sql
  else do
    let memberships ← okOr (db.memberships.insert row) .sql
    .ok ({ db with memberships := memberships }.bumpMembers (· = row.userPrincipalId))

/-- `primary` is the verdict of the backstop for the primary group of an NFS mapping. -/
def deleteMembership (db : State) (group : GroupId) (user : PrincipalId)
    (primary : Bool) : Except DatabaseError State :=
  if (db.memberships.get (group, user)).isNone then .ok db
  else if primary then .error .sql
  else
    .ok ({ db with
      memberships := db.memberships.delete fun m =>
        m.key = (group, user) }.bumpMembers (· = user))

/-- An update of a membership row, possibly to another group or user. -/
def updateMembership (db : State) (group : GroupId) (user : PrincipalId)
    (row : MembershipRow) (primary : Bool) : Except DatabaseError State :=
  if (db.memberships.get (group, user)).isNone then .ok db
  else if primary ∧ row.key ≠ (group, user) then .error .sql
  else if (db.groups.get row.groupId).isNone ∨
      (db.principals.get row.userPrincipalId).isNone then .error .sql
  else do
    let memberships ← okOr ((db.memberships.delete fun m =>
      m.key = (group, user)).insert row) .sql
    .ok ({ db with memberships := memberships }.bumpMembers fun p =>
      p = user ∨ p = row.userPrincipalId)

/-- A change of `users.status` with its trigger. -/
def setUserStatus (db : State) (user : Uuid) (status : UserStatus) : State :=
  let changed := db.users.rows.filter fun u => u.id = user ∧ u.status ≠ status
  { db with
    users := db.users.update (fun u => u.id = user) (fun u => { u with status := status })
      (fun _ => rfl) }.bumpCreatorDrives fun p =>
        changed.any fun u => u.principalId = p

/-- `extra` is what the statement itself adds to the generation. -/
def writePrincipalDisabled (db : State) (principal : PrincipalId)
    (disabled : Bool) (extra : ℕ) : State :=
  let changed := db.principals.rows.filter fun r =>
    r.id = principal ∧ r.disabled ≠ disabled
  let p := fun id => changed.any fun r => r.id = id
  (({ db with
    principals := db.principals.update (fun r => r.id = principal)
      (fun r => { r with
        disabled := disabled, generation := r.generation + extra })
      (fun _ => rfl) }.bumpPrincipals p).bumpCreatorDrives p)

def setPrincipalDisabled (db : State) (principal : PrincipalId) (disabled : Bool) : State :=
  writePrincipalDisabled db principal disabled 0

/-- `invalidate_service_policy`: the status of a service decides. -/
def invalidateServicePolicy (db : State) (principal : PrincipalId) (active : Bool) : State :=
  writePrincipalDisabled db principal (!active) 1

def deleteAclEntries (db : State) (p : AclEntryRow → Bool) : State :=
  { db with aclEntries := db.aclEntries.delete p }.bumpAcl (db.aclEntries.rows.filter p)

/-- `acl_entries_source_unique`. -/
def aclEntryUnique (entries : Table AclEntryRow.id) (row : AclEntryRow) : Bool :=
  ¬entries.rows.any fun r => r.resourceId = row.resourceId ∧
    r.principalId = row.principalId ∧ r.action = row.action ∧
    r.inheritance = row.inheritance ∧ r.source = row.source

/-- `acl_entries_source_check`. -/
def aclSourceCheck (row : AclEntryRow) : Bool :=
  row.source = .core ∨ (row.source = .nfs ∧ row.effect = .allow ∧ row.directShareId = none)

def insertAclEntry (db : State) (row : AclEntryRow) : Except DatabaseError State :=
  if ¬aclSourceCheck row then .error .sql
  else if ¬aclEntryUnique db.aclEntries row then .error .conflict
  else do
    let entries ← okOr (db.aclEntries.insert row) .conflict
    .ok ({ db with aclEntries := entries }.bumpAcl [row])

def insertAclEntries (db : State) : List AclEntryRow → Except DatabaseError State
  | [] => .ok db
  | row :: rest => do
      let db ← insertAclEntry db row
      insertAclEntries db rest

/-- A verified address as the source normalises it. -/
def foldEmail (email : String) : String := email.trimAscii.toString.toLower

def activeUserByEmail (db : State) (email : String) : Option PrincipalId :=
  (db.users.rows.find? fun u =>
    u.verifiedEmail.map String.toLower = some email ∧ u.status = .active ∧
      (db.principals.get u.principalId).any fun p => p.disabled = false).map
    UserRow.principalId

inductive AclTarget
  | user (verifiedEmail : Option String)
  | group (id : Option GroupId)
  | unknown

def resolveAdvancedAclTarget (db : State) : AclTarget → Except DatabaseError PrincipalId
  | .user verifiedEmail => do
      let email ← okOr ((verifiedEmail.map foldEmail).filter fun e =>
        e ≠ "" ∧ e.utf8ByteSize ≤ 320) .invalidPersistedValue
      okOr (activeUserByEmail db email) .notFound
  | .group id => do
      let id ← okOr id .invalidPersistedValue
      let group ← okOr (db.groups.get id) .notFound
      let _ ← okOr ((db.principals.get group.principalId).filter fun p =>
        p.disabled = false) .notFound
      .ok group.principalId
  | .unknown => .error .invalidPersistedValue

def staleAdvancedAclTargetDrift : DatabaseError → DatabaseError
  | .notFound => .staleGeneration
  | error => error

/-- One submitted entry, with the identifier generated for it. -/
structure AdvancedAclEntryInput where
  id : AclEntryId
  action : Action
  effect : Authz.Effect
  inheritance : AclInheritance

/-- The generations of the entity tag submitted with a replacement. -/
structure AdvancedAclReplacementEtag where
  (namespaceGeneration aclGeneration attributeGeneration : ℕ)
  deriving DecidableEq

structure ReplaceAdvancedAclEntries where
  caller : Caller
  drive : DriveId
  resource : NodeId
  target : AclTarget
  expectedTarget : PrincipalId
  entries : List AdvancedAclEntryInput
  coveredActions : List Action
  expectedEtag : AdvancedAclReplacementEtag

def replacedEntry (request : ReplaceAdvancedAclEntries) (target : PrincipalId)
    (row : AclEntryRow) : Bool :=
  row.driveId = request.drive ∧ row.resourceId = request.resource ∧
    row.principalId = target ∧ row.source = .core ∧ row.directShareId = none

def replacementActionsAreCovered (covered actions : List Action) : Bool :=
  .manageAcl ∈ covered ∧ ∀ action ∈ actions, action ∈ covered

def advancedAclRow (request : ReplaceAdvancedAclEntries) (target : PrincipalId)
    (entry : AdvancedAclEntryInput) : AclEntryRow where
  driveId := request.drive
  resourceId := request.resource
  id := entry.id
  principalId := target
  action := entry.action
  effect := entry.effect
  inheritance := entry.inheritance
  createdBy := request.caller.actor
  generation := 1
  source := .core
  directShareId := none

def actionCount : ℕ := 26

def replaceAdvancedAclEntries (db : State)
    (request : ReplaceAdvancedAclEntries) : Except DatabaseError State :=
  let submitted := request.entries.map AdvancedAclEntryInput.action
  if actionCount < request.entries.length then .error .invalidPersistedValue
  else if ¬replacementActionsAreCovered request.coveredActions submitted then
    .error .staleGeneration
  else do
    lockAuthorizationFence db request.caller request.drive request.resource
    let node ← okOr (db.node request.drive request.resource) .staleGeneration
    if (⟨node.namespaceGeneration, node.aclGeneration,
        node.attributeGeneration⟩ : AdvancedAclReplacementEtag) ≠
        request.expectedEtag then .error .staleGeneration
    else
      let target ← (resolveAdvancedAclTarget db request.target).mapError
        staleAdvancedAclTargetDrift
      let current := (db.aclEntries.rows.filter
        (replacedEntry request target)).map AclEntryRow.action
      if request.expectedTarget ≠ target then .error .staleGeneration
      else if ¬replacementActionsAreCovered request.coveredActions
          (submitted ++ current) then .error .staleGeneration
      else
        let drive ← okOr (db.drives.get request.drive) .notFound
        if target = drive.ownerPrincipalId then .error .conflict
        else
          insertAclEntries (deleteAclEntries db (replacedEntry request target))
            (request.entries.map (advancedAclRow request target))

inductive SharePreset
  | viewer | contributor | manager
  deriving DecidableEq, Repr

def sharePresetActions : SharePreset → List Action
  | .viewer => [.readMetadata, .listChildren, .readContent, .useExternalEditor]
  | .contributor =>
    [.readMetadata, .listChildren, .readContent, .createChild, .writeContent,
      .createVersion, .rename, .move, .delete, .restore, .setAttributes,
      .useExternalEditor, .comment, .review]
  | .manager =>
    [.readMetadata, .listChildren, .readContent, .createChild, .writeContent,
      .createVersion, .rename, .move, .delete, .restore, .setAttributes,
      .share, .manageAcl, .useExternalEditor, .comment, .review]

/-- `entryId` generates the ACL identifiers; `admissionOpen` is the insert backstop. -/
structure CreateDirectShare where
  caller : Caller
  drive : DriveId
  resource : NodeId
  verifiedEmail : String
  preset : SharePreset
  inheritance : AclInheritance
  shareId : Uuid
  entryId : ℕ → AclEntryId
  admissionOpen : Bool

def shareRow (request : CreateDirectShare) (target : PrincipalId)
    (action : Action) (index : ℕ) : AclEntryRow where
  driveId := request.drive
  resourceId := request.resource
  id := request.entryId index
  principalId := target
  action := action
  effect := .allow
  inheritance := request.inheritance
  createdBy := request.caller.actor
  generation := 1
  source := .core
  directShareId := some request.shareId

/-- The share row under the admission backstop and the index on active
targets. -/
def insertDirectShare (db : State) (request : CreateDirectShare)
    (target : PrincipalId) : Except DatabaseError State :=
  if ¬request.admissionOpen then .error .securityAdmissionBlocked
  else if db.directShares.rows.any fun s => s.resourceId = request.resource ∧
      s.targetPrincipalId = target ∧ s.revoked = false then .error .conflict
  else do
    let shares ← okOr (db.directShares.insert
      { id := request.shareId
        driveId := request.drive
        resourceId := request.resource
        targetPrincipalId := target
        inheritance := request.inheritance
        createdBy := request.caller.actor
        revoked := false }) .conflict
    .ok { db with directShares := shares }

def createDirectShare (db : State) (request : CreateDirectShare) : Except DatabaseError State :=
  let email := foldEmail request.verifiedEmail
  if ¬(request.inheritance = .self ∨ request.inheritance = .selfAndDescendants) then
    .error .invalidPersistedValue
  else if email = "" ∨ 320 < email.utf8ByteSize then .error .notFound
  else do
    lockAuthorizationFence db request.caller request.drive request.resource
    let target ← okOr (activeUserByEmail db email) .notFound
    if target = request.caller.actor then .error .conflict
    else
      let db ← insertDirectShare db request target
      insertAclEntries db ((sharePresetActions request.preset).zipIdx.map
        fun entry => shareRow request target entry.1 entry.2)

structure RevokeDirectShare where
  caller : Caller
  drive : DriveId
  resource : NodeId
  target : PrincipalId

def State.revokeShares (db : State) (p : DirectShareRow → Bool) : State :=
  { db with
    directShares := db.directShares.update p (fun s => { s with revoked := true })
      (fun _ => rfl) }

def revokeDirectShare (db : State) (request : RevokeDirectShare) : Except DatabaseError State := do
  lockAuthorizationFence db request.caller request.drive request.resource
  let share ← okOr (db.directShares.rows.find? fun s =>
    s.driveId = request.drive ∧ s.resourceId = request.resource ∧
      s.targetPrincipalId = request.target ∧ s.revoked = false) .notFound
  let db := deleteAclEntries db fun row => row.directShareId = some share.id
  .ok (db.revokeShares fun s => s.id = share.id)

/-- A batch of `repair_descendant_shares` on the policy tables; `selected` are its
candidates, recursive shares from before the fence. -/
def repairDescendantShares (db : State) (selected : List Uuid) : State :=
  let p (s : DirectShareRow) : Bool :=
    s.id ∈ selected ∧ s.revoked = false ∧ s.inheritance = .selfAndDescendants
  deleteAclEntries (db.revokeShares p) fun row =>
    (db.directShares.rows.filter p).any fun s => row.directShareId = some s.id

structure NfsAclEntry where
  id : AclEntryId
  principalId : PrincipalId
  action : Action
  inheritance : AclInheritance
  mapped : Bool

/-- The `set_acl` branch; `mapped` is the verdict on the NFS mapping of an
entry's principal. -/
structure NfsSetAcl where
  mount : MountSession
  drive : DriveId
  resource : NodeId
  generations : NfsGenerations
  entries : List NfsAclEntry

/-- The actions an NFS entry may carry. -/
def nfsAclActions : List Action :=
  [.readMetadata, .listChildren, .readContent, .createChild, .writeContent,
    .createVersion, .rename, .move, .delete, .restore, .setAttributes, .share,
    .manageAcl, .useExternalEditor, .comment, .review, .traverse]

def nfsAclEntryAccepted (db : State) (entry : NfsAclEntry) : Bool :=
  entry.action ∈ nfsAclActions ∧ entry.inheritance ≠ .children ∧
    (db.principals.get entry.principalId).any (fun p => p.disabled = false) ∧
    entry.mapped

def nfsAclRow (request : NfsSetAcl) (entry : NfsAclEntry) : AclEntryRow where
  driveId := request.drive
  resourceId := request.resource
  id := entry.id
  principalId := entry.principalId
  action := entry.action
  effect := .allow
  inheritance := entry.inheritance
  createdBy := request.mount.userPrincipalId
  generation := 1
  source := .nfs
  directShareId := none

/-- The loop over the submitted entries. -/
def insertNfsAclEntries (request : NfsSetAcl) (db : State) :
    List NfsAclEntry → Except DatabaseError State
  | [] => .ok db
  | entry :: rest =>
    if ¬nfsAclEntryAccepted db entry then .error .sql
    else do
      let db ← insertAclEntry db (nfsAclRow request entry)
      insertNfsAclEntries request db rest

def nfsSetAcl (db : State) (request : NfsSetAcl) : Except DatabaseError State := do
  authorizeNfsMutation db request.mount request.drive request.resource request.generations
  if 256 < request.entries.length then .error .sql
  else
    insertNfsAclEntries request (deleteAclEntries db fun row => row.driveId = request.drive ∧
        row.resourceId = request.resource ∧ row.source = .nfs)
      request.entries

end FileBelt.Database
