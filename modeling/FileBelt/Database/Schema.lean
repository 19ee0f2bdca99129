import FileBelt.Authz.Policy
import FileBelt.Domain.Errors
import FileBelt.Support.Table

/-!
# Tables of the control database

The rows of one tenant, without the tenant column.  Time stamps are kept only where a
statement compares them with the clock; those that are only tested for presence are
flags.
-/

namespace FileBelt.Database

open Support

inductive PrincipalKind
  | user | group | service | shareLink | mountSession | documentSession
  deriving DecidableEq, Repr

structure PrincipalRow where
  id : PrincipalId
  kind : PrincipalKind
  generation : ℕ
  disabled : Bool
  deriving DecidableEq, Repr

inductive UserStatus
  | active | suspended
  deriving DecidableEq, Repr

structure UserRow where
  id : Uuid
  principalId : PrincipalId
  verifiedEmail : Option String
  status : UserStatus
  deriving DecidableEq, Repr

structure GroupRow where
  id : GroupId
  principalId : PrincipalId
  deriving DecidableEq, Repr

structure MembershipRow where
  groupId : GroupId
  userPrincipalId : PrincipalId
  role : GroupRole
  generation : ℕ
  deriving DecidableEq, Repr

def MembershipRow.key (row : MembershipRow) : GroupId × PrincipalId :=
  (row.groupId, row.userPrincipalId)

structure SessionRow where
  id : Uuid
  userId : Uuid
  principalId : PrincipalId
  idleExpiresAt : ℕ
  absoluteExpiresAt : ℕ
  revoked : Bool
  deriving DecidableEq, Repr

structure DriveRow where
  id : DriveId
  ownerPrincipalId : PrincipalId
  namespaceGeneration : ℕ
  aclGeneration : ℕ
  deriving DecidableEq, Repr

inductive NodeKind
  | file | directory | symlink
  deriving DecidableEq, Repr

structure NodeRow where
  driveId : DriveId
  id : NodeId
  parentId : Option NodeId
  kind : NodeKind
  displayName : String
  nameKey : String
  symlinkTarget : Option String
  headVersionId : Option Uuid
  (namespaceGeneration aclGeneration attributeGeneration : ℕ)
  trashRootId : Option NodeId
  deriving DecidableEq, Repr

def NodeRow.key (row : NodeRow) : DriveId × NodeId := (row.driveId, row.id)

/-- The column defaults of an inserted node. -/
def NodeRow.inserted (driveId : DriveId) (id : NodeId) (parentId : Option NodeId)
    (kind : NodeKind) (displayName nameKey : String) (symlinkTarget : Option String) : NodeRow where
  driveId := driveId
  id := id
  parentId := parentId
  kind := kind
  displayName := displayName
  nameKey := nameKey
  symlinkTarget := symlinkTarget
  headVersionId := none
  namespaceGeneration := 1
  aclGeneration := 1
  attributeGeneration := 1
  trashRootId := none

structure AncestryRow where
  driveId : DriveId
  ancestorId : NodeId
  descendantId : NodeId
  depth : ℕ
  deriving DecidableEq, Repr

def AncestryRow.key (row : AncestryRow) : DriveId × NodeId × NodeId :=
  (row.driveId, row.ancestorId, row.descendantId)

/-- The node tree and its stored closure. -/
structure Namespace where
  nodes : Table NodeRow.key
  ancestry : Table AncestryRow.key

structure VersionRow where
  nodeId : NodeId
  id : Uuid
  ordinal : ℕ
  deriving DecidableEq, Repr

/-- States of an upload session; those of its payload advance with it. -/
inductive UploadState
  | opened | finalizing | finalized | committed
  deriving DecidableEq, Repr

structure UploadSessionRow where
  id : Uuid
  driveId : DriveId
  nodeId : Option NodeId
  parentId : NodeId
  ownerPrincipalId : PrincipalId
  expectedHeadVersionId : Option Uuid
  targetDisplayName : String
  targetNameKey : String
  fencingToken : ℕ
  finalizationOwner : Option Uuid
  state : UploadState
  deriving DecidableEq, Repr

inductive AclInheritance
  | self | children | descendants | selfAndDescendants
  deriving DecidableEq, Repr

inductive AclSource
  | core | nfs
  deriving DecidableEq, Repr

structure AclEntryRow where
  driveId : DriveId
  resourceId : NodeId
  id : AclEntryId
  principalId : PrincipalId
  action : Action
  effect : Authz.Effect
  inheritance : AclInheritance
  createdBy : PrincipalId
  generation : ℕ
  source : AclSource
  directShareId : Option Uuid
  deriving DecidableEq, Repr

structure DirectShareRow where
  id : Uuid
  driveId : DriveId
  resourceId : NodeId
  targetPrincipalId : PrincipalId
  inheritance : AclInheritance
  createdBy : PrincipalId
  revoked : Bool
  deriving DecidableEq, Repr

structure State where
  principals : Table PrincipalRow.id
  users : Table UserRow.id
  groups : Table GroupRow.id
  memberships : Table MembershipRow.key
  sessions : Table SessionRow.id
  drives : Table DriveRow.id
  space : Namespace
  versions : Table VersionRow.id
  uploads : Table UploadSessionRow.id
  aclEntries : Table AclEntryRow.id
  directShares : Table DirectShareRow.id

/-- The database after the migrations. -/
def State.empty : State where
  principals := .empty
  users := .empty
  groups := .empty
  memberships := .empty
  sessions := .empty
  drives := .empty
  space := { nodes := .empty, ancestry := .empty }
  versions := .empty
  uploads := .empty
  aclEntries := .empty
  directShares := .empty

def State.node (db : State) (drive : DriveId) (id : NodeId) : Option NodeRow :=
  db.space.nodes.get (drive, id)

/-- `UPDATE drives SET namespace_generation=namespace_generation+1`. -/
def State.bumpDriveNamespace (db : State) (drive : DriveId) : State :=
  { db with
    drives := db.drives.update (fun d => d.id = drive)
      (fun d => { d with namespaceGeneration := d.namespaceGeneration + 1 })
      (fun _ => rfl) }

/-- The generations a caller was authorized with. -/
structure Generations where
  (membership driveAcl driveNamespace resourceAcl : ℕ)
  deriving DecidableEq, Repr

/-- Who asks, when, and with which generations. -/
structure Caller where
  now : ℕ
  actor : PrincipalId
  session : Uuid
  generations : Generations

/-- The row locks are released at the end of the transaction; only the checks are data. -/
def lockAuthorizationFence (db : State) (caller : Caller) (drive : DriveId) (resource : NodeId) :
    Except DatabaseError Unit := do
  let session ← okOr (db.sessions.get caller.session) .staleGeneration
  let user ← okOr (db.users.get session.userId) .staleGeneration
  let principal ← okOr (db.principals.get session.principalId) .staleGeneration
  let driveRow ← okOr (db.drives.get drive) .staleGeneration
  let node ← okOr (db.node drive resource) .staleGeneration
  if session.principalId = caller.actor ∧ session.revoked = false ∧
      caller.now < session.idleExpiresAt ∧
      caller.now < session.absoluteExpiresAt ∧
      user.status = .active ∧ principal.disabled = false ∧
      (⟨principal.generation, driveRow.aclGeneration,
        driveRow.namespaceGeneration, node.aclGeneration⟩ : Generations) =
        caller.generations
  then .ok ()
  else .error .staleGeneration

/-- An NFS session.  `admitted` is the verdict of the joined conditions on the session,
credential, policy, mapped group, gateway and export. -/
structure MountSession where
  userPrincipalId : PrincipalId
  membershipGeneration : ℕ
  admitted : Bool

/-- The generations of an NFS mutation, that of the resource included. -/
structure NfsGenerations where
  (membership driveAcl driveNamespace resourceAcl resourceNamespace : ℕ)
  deriving DecidableEq, Repr

def authorizeNfsMutation (db : State) (mount : MountSession) (drive : DriveId) (resource : NodeId)
    (generations : NfsGenerations) : Except DatabaseError Unit :=
  if generations.membership = 0 ∨ generations.driveAcl = 0 ∨
      generations.driveNamespace = 0 ∨ generations.resourceAcl = 0 ∨
      generations.resourceNamespace = 0 then .error .sql
  else do
    let principal ← okOr (db.principals.get mount.userPrincipalId)
      .staleGeneration
    let driveRow ← okOr (db.drives.get drive) .staleGeneration
    let node ← okOr (db.node drive resource) .staleGeneration
    if mount.admitted ∧ principal.disabled = false ∧
        (db.users.rows.any fun user =>
          user.principalId = principal.id ∧ user.status = .active) ∧
        mount.membershipGeneration = principal.generation ∧
        (⟨principal.generation, driveRow.aclGeneration,
          driveRow.namespaceGeneration, node.aclGeneration,
          node.namespaceGeneration⟩ : NfsGenerations) = generations ∧
        node.trashRootId = none
    then .ok ()
    else .error .staleGeneration

end FileBelt.Database
