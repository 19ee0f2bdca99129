import FileBelt.Database.Namespace
import FileBelt.Upload.Geometry

/-!
# Namespace transactions of the API

Provisioning of a private drive, directory creation, the upload pipeline, the version
writers and the trash.  A failed transaction leaves the database as it was, so each is
a function into `Except`.  What it asks of tables outside the model is a verdict in its
request.
-/

namespace FileBelt.Database

open Support

variable (space : Namespace)

/-- The inserts that create a node; callers differ in reporting a failed ancestry insert. -/
def insertChild (ancestryError : SqlError → DatabaseError)
    (parent : NodeId) (row : NodeRow) : Except DatabaseError Namespace := do
  let space ← (space.insertNode row).mapError mapConflict
  let ancestry ← (Namespace.insertAncestry space.ancestry
    (Namespace.childRows space.ancestry row.driveId parent row.id)).mapError ancestryError
  .ok { space with ancestry := ancestry }

theorem insertChild_eq_ok {space space' : Namespace}
    {ancestryError : SqlError → DatabaseError} {parent : NodeId} {row : NodeRow}
    (h : insertChild space ancestryError parent row = .ok space') :
    ∃ inserted ancestry, space.insertNode row = .ok inserted ∧
      Namespace.insertAncestry inserted.ancestry (Namespace.childRows
        inserted.ancestry row.driveId parent row.id) = .ok ancestry ∧
      space' = { inserted with ancestry := ancestry } := by
  obtain ⟨inserted, hnode, h⟩ := bind_eq_ok h
  obtain ⟨ancestry, hancestry, h⟩ := bind_eq_ok h
  cases h
  exact ⟨inserted, ancestry, mapError_eq_ok hnode, mapError_eq_ok hancestry, rfl⟩

/-- `knownUserId` is the user of the external identity, if there is one. -/
structure LinkIdentity where
  principalId : PrincipalId
  userId : Uuid
  verifiedEmail : Option String
  driveId : DriveId
  rootId : NodeId
  knownUserId : Option Uuid := none

/-- The unique indexes on the principal and the folded address of a user. -/
def userUnique (users : Table UserRow.id) (row : UserRow) : Bool :=
  ¬users.rows.any fun u => u.principalId = row.principalId ∨
    (row.verifiedEmail.isSome ∧
      u.verifiedEmail.map String.toLower = row.verifiedEmail.map String.toLower)

variable (db : State)

def State.setVerifiedEmail (user : Uuid) (email : Option String) : State :=
  { db with
    users := db.users.update (fun u => u.id = user)
      (fun u => { u with verifiedEmail := email <|> u.verifiedEmail }) (fun _ => rfl) }

/-- The branch of a known identity; its user has to own a drive with a root. -/
def relinkIdentity (user : UserRow) (email : Option String) : Except DatabaseError State :=
  if email.isSome ∧ db.users.rows.any fun u => u.id ≠ user.id ∧
      u.verifiedEmail.map String.toLower = email.map String.toLower then .error .sql
  else if db.drives.rows.any fun d => d.ownerPrincipalId = user.principalId ∧
      db.space.nodes.rows.any fun n => n.driveId = d.id ∧ n.parentId = none then
    .ok (db.setVerifiedEmail user.id email)
  else .error .notFound

def createIdentity (request : LinkIdentity) : Except DatabaseError State := do
  let principals ← okOr (db.principals.insert
    { id := request.principalId, kind := .user, generation := 1,
      disabled := false }) .sql
  let user : UserRow :=
    { id := request.userId, principalId := request.principalId,
      verifiedEmail := request.verifiedEmail, status := .active }
  if ¬userUnique db.users user then .error .sql
  else
    let users ← okOr (db.users.insert user) .sql
    let drives ← okOr (db.drives.insert
      { id := request.driveId, ownerPrincipalId := request.principalId,
        namespaceGeneration := 1, aclGeneration := 1 }) .sql
    let space ← (db.space.insertNode (.inserted request.driveId request.rootId
      none .directory "" "" none)).mapError .fromSql
    let ancestry ← (Namespace.insertAncestry space.ancestry
      [{ driveId := request.driveId, ancestorId := request.rootId,
         descendantId := request.rootId, depth := 0 }]).mapError .fromSql
    .ok { db with
      principals := principals, users := users, drives := drives
      space := { space with ancestry := ancestry } }

def linkOidcIdentity (request : LinkIdentity) : Except DatabaseError State :=
  match request.knownUserId.bind db.users.get with
  | some user => relinkIdentity db user request.verifiedEmail
  | none => createIdentity db request

structure CreateDirectory where
  caller : Caller
  drive : DriveId
  parent : NodeId
  id : NodeId
  displayName : String
  nameKey : String
  expectedGeneration : ℕ

/-- The parent is read for its generation only: neither its kind nor its trash state is
checked. -/
def createDirectory (request : CreateDirectory) : Except DatabaseError State := do
  lockAuthorizationFence db request.caller request.drive request.parent
  let parent ← okOr (db.node request.drive request.parent) .notFound
  if parent.namespaceGeneration ≠ request.expectedGeneration then
    .error .staleGeneration
  else
    let space ← insertChild db.space .fromSql request.parent
      (.inserted request.drive request.id (some request.parent) .directory
        request.displayName request.nameKey none)
    let space := space.bumpNamespaceGeneration request.drive
      (· = request.parent)
    .ok ({ db with space := space }.bumpDriveNamespace request.drive)

/-- `COALESCE(max(ordinal),0)+1`. -/
def nextOrdinal (node : NodeId) : ℕ :=
  ((db.versions.rows.filter fun v => v.nodeId = node).map VersionRow.ordinal).foldl max 0 + 1

def insertVersion (row : VersionRow) : Except DatabaseError (Table VersionRow.id) :=
  if db.versions.rows.any fun v =>
      v.nodeId = row.nodeId ∧ v.ordinal = row.ordinal then .error .sql
  else okOr (db.versions.insert row) .sql

/-- `CHECK (kind = 'file' OR head_version_id IS NULL)` at a head update. -/
def headAllowed (drive : DriveId) (id : NodeId) : Bool :=
  (space.nodes.get (drive, id)).all fun n => n.kind = .file

/-- `admission` is the verdict on checkpoints, import intents, quota and capacity. -/
structure BeginUpload where
  caller : Caller
  drive : DriveId
  parent : NodeId
  nodeId : Option NodeId
  expectedParentGeneration : Option ℤ
  expectedHead : Option Uuid
  displayName : String
  nameKey : String
  uploadId : Uuid
  layout : Upload.Layout
  partCount : ℤ
  checkpointId : Option Uuid
  importIntentId : Option Uuid
  admission : Except DatabaseError Unit

variable (request : BeginUpload)

def validateUploadExpectationShape : Bool :=
  ¬((request.expectedParentGeneration.any fun generation => generation ≤ 0) ∨
    (request.nodeId = none ∧ (request.expectedParentGeneration = none ∨
      request.expectedHead.isSome)) ∨
    (request.nodeId.isSome ∧ request.expectedHead = none))

/-- A checkpoint belongs to an existing node, an import to a new one. -/
def uploadOriginAccepted : Bool :=
  ¬((request.checkpointId.isSome ∧ request.importIntentId.isSome) ∨
    (request.checkpointId.isSome ∧ request.nodeId = none) ∨
    (request.importIntentId.isSome ∧ request.nodeId.isSome))

/-- The checks on an existing target node. -/
def uploadTargetCurrent (node : NodeRow) : Bool :=
  node.parentId = some request.parent ∧ node.kind = .file ∧
    node.headVersionId = request.expectedHead ∧ node.trashRootId = none

/-- The checks on the parent of an upload with an expected generation. -/
def uploadParentCurrent (generation : ℤ) (parent : NodeRow) : Bool :=
  parent.kind = .directory ∧ (parent.namespaceGeneration : ℤ) = generation

def beginUpload : Except DatabaseError State :=
  if ¬validateUploadExpectationShape request ∨
      ¬Upload.layoutAccepted request.layout request.partCount ∨
      ¬uploadOriginAccepted request then
    .error .invalidPersistedValue
  else do
    lockAuthorizationFence db request.caller request.drive (request.nodeId.getD request.parent)
    if request.nodeId.any fun id =>
        ¬(db.node request.drive id).any (uploadTargetCurrent request) then
      .error .staleGeneration
    else if request.expectedParentGeneration.any fun generation =>
        ¬(db.node request.drive request.parent).any (uploadParentCurrent generation) then
      .error .staleGeneration
    else
      request.admission
      let uploads ← okOr (db.uploads.insert
        { id := request.uploadId
          driveId := request.drive
          nodeId := request.nodeId
          parentId := request.parent
          ownerPrincipalId := request.caller.actor
          expectedHeadVersionId := request.expectedHead
          targetDisplayName := request.displayName
          targetNameKey := request.nameKey
          fencingToken := 1
          finalizationOwner := none
          state := .opened }) .sql
      .ok { db with uploads := uploads }

/-- `complete`: the session has not expired and all its parts are durable. -/
def claimUploadFinalization (upload : Uuid) (fencingToken : ℕ)
    (owner : Uuid) (complete : Bool) : Except DatabaseError State :=
  if (db.uploads.get upload).any fun u =>
      u.state = .opened ∧ u.fencingToken = fencingToken ∧ complete then
    .ok { db with
      uploads := db.uploads.update (fun u => u.id = upload)
        (fun u => { u with state := .finalizing, finalizationOwner := owner })
        (fun _ => rfl) }
  else .error .conflict

def markUploadFinalized (upload : Uuid) (fencingToken : ℕ)
    (owner : Uuid) : Except DatabaseError State :=
  if (db.uploads.get upload).any fun u =>
      u.state = .finalizing ∧ u.fencingToken = fencingToken ∧ u.finalizationOwner = some owner then
    .ok { db with
      uploads := db.uploads.update (fun u => u.id = upload)
        (fun u => { u with state := .finalized, finalizationOwner := none })
        (fun _ => rfl) }
  else .error .staleGeneration

/-- Commit of a finalized upload.  `provenance` is the verdict of the
checkpoint and import statements. -/
structure CommitUpload where
  caller : Caller
  uploadId : Uuid
  expectedFencingToken : ℕ
  createdNodeId : NodeId
  versionId : Uuid
  provenance : Except DatabaseError Unit

/-- The existing target at its expected head, or a new file, whose parent is not read. -/
def commitTarget (request : CommitUpload)
    (upload : UploadSessionRow) : Except DatabaseError (Namespace × NodeId) :=
  match upload.nodeId with
  | some existing => do
      let node ← okOr (db.node upload.driveId existing) .notFound
      if node.headVersionId ≠ upload.expectedHeadVersionId then
        .error .conflict
      else .ok (db.space, existing)
  | none => do
      let space ← insertChild db.space .fromSql upload.parentId
        (.inserted upload.driveId request.createdNodeId (some upload.parentId)
          .file upload.targetDisplayName upload.targetNameKey none)
      .ok (space, request.createdNodeId)

def commitUpload (request : CommitUpload) : Except DatabaseError State := do
  let upload ← okOr ((db.uploads.get request.uploadId).filter fun u =>
    u.ownerPrincipalId = request.caller.actor ∧
      u.fencingToken = request.expectedFencingToken ∧
      u.state = .finalized) .staleGeneration
  lockAuthorizationFence db request.caller upload.driveId (upload.nodeId.getD upload.parentId)
  let target ← commitTarget db request upload
  request.provenance
  let versions ← insertVersion db
    { nodeId := target.2, id := request.versionId,
      ordinal := nextOrdinal db target.2 }
  if ¬headAllowed target.1 upload.driveId target.2 then .error .sql
  else
    let space := target.1.setHead upload.driveId target.2 request.versionId
    .ok ({ db with
      space := space
      versions := versions
      uploads := db.uploads.update (fun u => u.id = request.uploadId)
        (fun u => { u with state := .committed })
        (fun _ => rfl) }.bumpDriveNamespace upload.driveId)

structure RestoreFileVersion where
  caller : Caller
  drive : DriveId
  node : NodeId
  sourceVersion : Uuid
  expectedHead : Option Uuid
  versionId : Uuid

def restoreFileVersion (request : RestoreFileVersion) : Except DatabaseError State := do
  lockAuthorizationFence db request.caller request.drive request.node
  let node ← okOr ((db.node request.drive request.node).filter fun n =>
    n.kind = .file ∧ n.trashRootId = none ∧
      (db.versions.get request.sourceVersion).any fun v =>
        v.nodeId = request.node) .notFound
  if node.headVersionId ≠ request.expectedHead then .error .staleGeneration
  else
    let versions ← insertVersion db
      { nodeId := request.node, id := request.versionId,
        ordinal := nextOrdinal db request.node }
    .ok { db with
      space := db.space.setHeadOnly request.drive request.node request.versionId
      versions := versions }

/-- Commit of an external editor's revision.  `pending` is the verdict on the revision and
its session; `unchanged` says that the staged bytes are those of the current head. -/
structure CommitDocumentRevision where
  caller : Caller
  drive : DriveId
  node : NodeId
  expectedHead : Uuid
  versionId : Uuid
  pending : Except DatabaseError Unit
  unchanged : Bool

/-- A changed head or unchanged bytes end the transaction without a new version. -/
def commitDocumentRevision (request : CommitDocumentRevision) : Except DatabaseError State := do
  request.pending
  lockAuthorizationFence db request.caller request.drive request.node
  let node ← okOr (db.node request.drive request.node) .sql
  if node.headVersionId ≠ some request.expectedHead ∨ request.unchanged then
    .ok db
  else
    let ordinal := ((db.versions.get request.expectedHead).filter fun v =>
      v.nodeId = request.node).elim 1 fun v => v.ordinal + 1
    let versions ← insertVersion db
      { nodeId := request.node, id := request.versionId, ordinal := ordinal }
    if ¬headAllowed db.space request.drive request.node then .error .sql
    else
      .ok { db with
        space := db.space.setHeadOnly request.drive request.node request.versionId
        versions := versions }

/-- Retained conflicting bytes as a new file; `retained` is the verdict on their row. -/
structure ConflictCopy where
  caller : Caller
  drive : DriveId
  parent : NodeId
  id : NodeId
  displayName : String
  nameKey : String
  expectedParentGeneration : ℕ
  versionId : Uuid
  retained : Except DatabaseError Unit

variable (request : ConflictCopy)

/-- The parent must be a live directory at its expected generation. -/
def insertConflictCopy : Except DatabaseError State := do
  request.retained
  lockAuthorizationFence db request.caller request.drive request.parent
  let parent ← okOr ((db.node request.drive request.parent).filter fun n =>
    n.kind = .directory ∧ n.trashRootId = none) .notFound
  if parent.namespaceGeneration ≠ request.expectedParentGeneration then
    .error .staleGeneration
  else
    let space ← insertChild db.space .fromSql request.parent
      (.inserted request.drive request.id (some request.parent) .file
        request.displayName request.nameKey none)
    let versions ← insertVersion db
      { nodeId := request.id, id := request.versionId, ordinal := 1 }
    .ok { db with space := space, versions := versions }

def createDocumentConflictCopy : Except DatabaseError State := do
  let db ← insertConflictCopy db request
  .ok { db with
    space := db.space.setHeadOnly request.drive request.id request.versionId }

def copyNfsWriteConflict : Except DatabaseError State := do
  let db ← insertConflictCopy db request
  let space := db.space.setHead request.drive request.id request.versionId
  let space := space.bumpNamespaceGeneration request.drive (· = request.parent)
  .ok ({ db with space := space }.bumpDriveNamespace request.drive)

structure SetContentClassPolicy where
  caller : Caller
  drive : DriveId
  node : NodeId
  expectedAttributeGeneration : ℕ

/-- The content class policy update; of its columns only the attribute
generation is modelled. -/
def setContentClassPolicy (request : SetContentClassPolicy) : Except DatabaseError State := do
  lockAuthorizationFence db request.caller request.drive request.node
  if (db.node request.drive request.node).any fun n =>
      n.kind = .file ∧ n.attributeGeneration = request.expectedAttributeGeneration then
    .ok { db with
      space := db.space.bumpAttributeGeneration request.drive request.node }
  else .error .staleGeneration

structure SetNodeTrashState where
  caller : Caller
  drive : DriveId
  resource : NodeId
  expectedNamespaceGeneration : ℕ
  trash : Bool

variable (request : SetNodeTrashState)

/-- The guard on the target of a trash or restore. -/
def trashTargetStale (node : NodeRow) : Bool :=
  node.namespaceGeneration ≠ request.expectedNamespaceGeneration ∨
    node.parentId = none ∨
    (request.trash ∧ node.trashRootId.isSome) ∨
    (¬request.trash ∧ node.trashRootId ≠ some request.resource)

/-- The restore branch: the parent must be live, and no live sibling may have
taken the name. -/
def restoreNode (drive : DriveId) (resource : NodeId)
    (parent : Option NodeId) : Except DatabaseError Namespace :=
  if (parent.bind fun id => space.nodes.get (drive, id)).any fun p =>
      p.trashRootId = none then
    let space := space.restoreSubtree drive resource
    if Namespace.liveNamesUnique space.nodes then .ok space
    else .error .conflict
  else .error .conflict

/-- The two branches of the trash transaction. -/
def writeTrashState (parent : Option NodeId) : Except DatabaseError Namespace :=
  if request.trash then
    .ok (space.trashSubtree request.drive request.resource)
  else restoreNode space request.drive request.resource parent

def setNodeTrashState : Except DatabaseError State := do
  lockAuthorizationFence db request.caller request.drive request.resource
  let node ← okOr (db.node request.drive request.resource) .notFound
  if trashTargetStale request node then .error .staleGeneration
  else
    let space ← writeTrashState db.space request node.parentId
    .ok ({ db with space := space }.bumpDriveNamespace request.drive)

end FileBelt.Database
