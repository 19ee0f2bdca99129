import FileBelt.Mount.Sessions

/-!
# Mount handles

The statements that open, admit and close a handle, and the transactions that
are composed of them.  What a statement finds in the tables outside this model
(replay receipts, the joined NFS conditions) is a verdict of the request.
-/

namespace FileBelt.Mount

open Support

/-! ## Opening -/

/-- `expires_at` of a handle that is opened or used. -/
def handleLifetime : ℕ := 15 * minute

structure OpenRequest where
  fence : MountSessionFence
  handleId : Uuid
  target : Target
  expectedVersionId : Option Uuid
  accessActions : List HandleAction
  (shareRead shareWrite shareDelete : Bool)
  (driveAclGeneration namespaceGeneration resourceAclGeneration : ℕ)
  deriving DecidableEq

def OpenRequest.wants (request : OpenRequest) (action : HandleAction) : Bool :=
  request.accessActions.contains action

def OpenRequest.row (request : OpenRequest) (versionId : Option Uuid)
    (expiresAt : ℕ) : HandleRow where
  id := request.handleId
  sessionId := request.fence.sessionId
  target := request.target
  versionId := versionId
  accessActions := request.accessActions
  shareRead := request.shareRead
  shareWrite := request.shareWrite
  shareDelete := request.shareDelete
  credentialGeneration := request.fence.credentialGeneration
  authorizationGeneration := request.fence.authorizationGeneration
  membershipGeneration := request.fence.membershipGeneration
  driveAclGeneration := request.driveAclGeneration
  namespaceGeneration := request.namespaceGeneration
  resourceAclGeneration := request.resourceAclGeneration
  gatewayEpoch := request.fence.gatewayEpoch
  expiresAt := expiresAt
  closed := false

variable (db : Database.State)

/-- The live file and its drive, locked `FOR SHARE`. -/
def nodeForOpen (target : Target) :
    Except DatabaseError (Database.NodeRow × Database.DriveRow) := do
  let node ← okOr
    ((db.node target.driveId target.nodeId).filter fun n =>
      n.kind = .file ∧ n.trashRootId = none) .notFound
  let drive ← okOr (db.drives.get target.driveId) .notFound
  .ok (node, drive)

/-- The checks of `open_mount_handle` on the locked rows. -/
def openStale (request : OpenRequest) (node : Database.NodeRow)
    (drive : Database.DriveRow) : Bool :=
  (node.headVersionId = none ∧ ¬request.wants .writeContent) ∨
    (request.expectedVersionId ≠ none ∧
      request.expectedVersionId ≠ node.headVersionId) ∨
    drive.aclGeneration ≠ request.driveAclGeneration ∨
    node.namespaceGeneration ≠ request.namespaceGeneration ∨
    node.aclGeneration ≠ request.resourceAclGeneration

/-- The statements of an open before the conflict check; the version of the new
handle. -/
def lockForOpen (request : OpenRequest) : Except DatabaseError (Option Uuid) := do
  if request.accessActions = [] ∨ 19 < request.accessActions.length then
    .error .invalidPersistedValue
  else
    let (node, drive) ← nodeForOpen db request.target
    if openStale request node drive then .error .staleGeneration
    else .ok node.headVersionId

/-- The share-mode predicate of the conflict check. -/
def shareConflict (request : OpenRequest) (handle : HandleRow) : Bool :=
  (request.wants .readContent && !handle.shareRead) ||
    (handle.holds .readContent && !request.shareRead) ||
    (request.wants .writeContent && !handle.shareWrite) ||
    (handle.holds .writeContent && !request.shareWrite) ||
    (request.wants .delete && !handle.shareDelete) ||
    (handle.holds .delete && !request.shareDelete)

variable (s : MountState)

/-- `EXISTS` of a live handle on the node that meets a predicate. -/
def liveHandleExists (target : Target) (p : HandleRow → Bool) : Bool :=
  s.handles.rows.any fun handle =>
    handle.target = target ∧ handle.live s.now ∧ p handle

def openConflict (request : OpenRequest) : Bool :=
  liveHandleExists s request.target (shareConflict request)

/-- `INSERT` of a handle, with its foreign key on the session. -/
def insertHandle (row : HandleRow) : Except DatabaseError MountState := do
  let _ ← okOr (s.sessions.get row.sessionId) .sql
  let handles ← okOr (s.handles.insert row) .conflict
  .ok { s with handles := handles }

def openMountHandle (request : OpenRequest) : Except DatabaseError MountState := do
  let version ← lockForOpen s.db request
  if openConflict s request then .error .conflict
  else insertHandle s (request.row version (s.now + handleLifetime))

/-- What an NFS open carries beside the common request. -/
structure NfsOpenRequest where
  request : OpenRequest
  mount : Database.MountSession
  readOnly : Bool
  membershipGeneration : ℕ
  driveNamespaceGeneration : ℕ
  replayed : Bool

variable (open' : NfsOpenRequest)

def NfsOpenRequest.generations : Database.NfsGenerations where
  membership := open'.membershipGeneration
  driveAcl := open'.request.driveAclGeneration
  driveNamespace := open'.driveNamespaceGeneration
  resourceAcl := open'.request.resourceAclGeneration
  resourceNamespace := open'.request.namespaceGeneration

/-- The validation of `open_nfs_mount_handle`. -/
def nfsOpenAccepted : Bool :=
  open'.request.handleId ≠ 0 ∧
    open'.request.fence.membershipGeneration = open'.membershipGeneration ∧
    0 < open'.membershipGeneration ∧ 0 < open'.request.driveAclGeneration ∧
    0 < open'.driveNamespaceGeneration ∧
    0 < open'.request.resourceAclGeneration ∧
    0 < open'.request.namespaceGeneration ∧
    open'.request.accessActions ≠ [] ∧
    open'.request.accessActions.length ≤ 19 ∧
    open'.request.accessActions.Nodup ∧
    (open'.request.wants .writeContent →
      open'.request.wants .createVersion ∧ open'.readOnly = false)

/-- The statements of an NFS open before the conflict check. -/
def lockForNfsOpen (open' : NfsOpenRequest) : Except DatabaseError (Option Uuid) := do
  if ¬nfsOpenAccepted open' then .error .invalidPersistedValue
  else
    Database.authorizeNfsMutation db open'.mount open'.request.target.driveId
      open'.request.target.nodeId open'.generations
    let (node, drive) ← nodeForOpen db open'.request.target
    if openStale open'.request node drive ∨
        drive.namespaceGeneration ≠ open'.driveNamespaceGeneration
    then .error .staleGeneration
    else .ok node.headVersionId

/-- The conflict check of an NFS open also admits one writer only. -/
def nfsOpenConflict (request : OpenRequest) : Bool :=
  liveHandleExists s request.target fun handle =>
    (request.wants .writeContent && handle.holds .writeContent) || shareConflict request handle

/-- `expires_at` of a handle opened through NFS. -/
def nfsExpiry (session : Uuid) : ℕ :=
  match s.sessions.get session with
  | some row => min row.absoluteExpiresAt (s.now + handleLifetime)
  | none => s.now + handleLifetime

/-- `open_nfs_mount_handle`; a conflict and a replay insert nothing, but have
used the session. -/
def openNfsMountHandle : Except DatabaseError MountState := do
  let version ← lockForNfsOpen s.db open'
  let s := touchSession s open'.request.fence.sessionId
  if open'.replayed ∨ nfsOpenConflict s open'.request then .ok s
  else
    insertHandle s (open'.request.row version (nfsExpiry s open'.request.fence.sessionId))

/-! ## Admission -/

variable (session : MountSessionRow) (handle : HandleRow)

def credentialCurrent : Bool :=
  (s.authority.credentials.get session.credentialId).any fun credential =>
    credential.revoked = false ∧ s.now < credential.expiresAt ∧
      credential.credentialGeneration = handle.credentialGeneration ∧
      credential.authorizationGeneration = handle.authorizationGeneration

def principalCurrent (principal : PrincipalId) (handle : HandleRow) : Bool :=
  (s.db.principals.get principal).any fun row =>
    row.disabled = false ∧ row.generation = handle.membershipGeneration

def policyEnabled : Bool :=
  (s.authority.policies.get (session.userPrincipalId, session.protocol)).any
    fun policy => policy.enabled

def gatewayCurrent (epoch : ℕ) : Bool :=
  s.authority.gateways.any fun gateway =>
    gateway.protocol = session.protocol ∧
      gateway.gatewayId = session.gatewayId ∧ gateway.epoch = epoch ∧
      gateway.draining = false ∧ s.now < gateway.leaseExpiresAt

/-- The generations of the drive and of the node are those of the handle. -/
def resourceCurrent : Bool :=
  (s.db.drives.get handle.target.driveId).any (fun drive =>
    drive.aclGeneration = handle.driveAclGeneration) &&
  (s.db.node handle.target.driveId handle.target.nodeId).any fun node =>
    node.namespaceGeneration = handle.namespaceGeneration ∧
      node.aclGeneration = handle.resourceAclGeneration

def sessionGenerations : Bool :=
  session.credentialGeneration = handle.credentialGeneration ∧
    session.authorizationGeneration = handle.authorizationGeneration ∧
    session.membershipGeneration = handle.membershipGeneration ∧
    session.gatewayEpoch = handle.gatewayEpoch

def sessionAlive (now : ℕ) (session : MountSessionRow) : Bool :=
  session.state = .active ∧ now < session.idleExpiresAt ∧ now < session.absoluteExpiresAt

/-- The joined conditions of `admit_mount_handle` on the tables. -/
def handleFenced : Bool :=
  (s.sessions.get handle.sessionId).any fun session =>
    sessionAlive s.now session && sessionGenerations session handle &&
      credentialCurrent s session handle &&
      principalCurrent s session.userPrincipalId handle &&
      policyEnabled s session &&
      gatewayCurrent s session handle.gatewayEpoch && resourceCurrent s handle

variable (fence : MountSessionFence)

/-- The generations of the handle are those of the request. -/
def fenceMatches (handle : HandleRow) : Bool :=
  handle.sessionId = fence.sessionId ∧
    handle.credentialGeneration = fence.credentialGeneration ∧
    handle.authorizationGeneration = fence.authorizationGeneration ∧
    handle.membershipGeneration = fence.membershipGeneration ∧
    handle.gatewayEpoch = fence.gatewayEpoch

/-- The rows that the update of `admit_mount_handle` selects. -/
def admitsHandle (action : HandleAction) (handle : HandleRow) : Bool :=
  handle.live s.now && handle.holds action && fenceMatches fence handle && handleFenced s handle

/-- The handle lives on from the time of its use. -/
def HandleRow.renew (now : ℕ) (handle : HandleRow) : HandleRow :=
  { handle with expiresAt := now + handleLifetime }

def writeHandle (row : HandleRow) : MountState :=
  { s with
    handles := s.handles.update (fun handle => handle.id = row.id)
      (fun handle => { row with id := handle.id }) (fun _ => rfl) }

theorem mem_writeHandle {s : MountState} {row handle : HandleRow}
    (h : handle ∈ (writeHandle s row).handles.rows) : handle ∈ s.handles.rows ∨ handle = row := by
  obtain ⟨old, hmem, rfl⟩ := List.mem_map.mp h
  split
  · next hid =>
    have hkey : old.id = row.id := of_decide_eq_true hid
    refine .inr ?_
    change { row with id := old.id } = row
    rw [hkey]
  · exact .inl hmem

theorem get_writeHandle_of_ne {s : MountState} {row : HandleRow} {id : Uuid} (hid : id ≠ row.id) :
    (writeHandle s row).handles.get id = s.handles.get id := by
  rw [writeHandle, Table.get_update]
  cases hget : s.handles.get id with
  | none => rfl
  | some =>
    rw [Option.map_some, if_neg]
    rw [Table.get_key hget]
    simpa using hid

theorem get_writeHandle {s : MountState} {row handle : HandleRow}
    (hget : s.handles.get row.id = some handle) :
    (writeHandle s row).handles.get row.id = some row := by
  have hid : handle.id = row.id := Table.get_key hget
  rw [writeHandle, Table.get_update, hget, Option.map_some, if_pos (decide_eq_true hid), hid]

def admitMountHandle
    (handleId : Uuid) (action : HandleAction) : Except DatabaseError (HandleRow × MountState) := do
  let handle ← okOr
    ((s.handles.get handleId).filter (admitsHandle s fence action))
    .staleGeneration
  .ok (handle, writeHandle s (handle.renew s.now))

structure MountReadCapabilityFence where
  (handleId mountSessionId credentialId : Uuid)
  principalId : PrincipalId
  target : Target
  versionId : Uuid
  (credentialGeneration authorizationGeneration membershipGeneration driveAclGeneration
    namespaceGeneration resourceAclGeneration gatewayEpoch : ℕ)

/-- The capability names the handle as it is stored. -/
def capabilityMatches (capability : MountReadCapabilityFence) (handle : HandleRow) : Bool :=
  handle.sessionId = capability.mountSessionId ∧
    handle.target = capability.target ∧
    handle.versionId = some capability.versionId ∧
    handle.credentialGeneration = capability.credentialGeneration ∧
    handle.authorizationGeneration = capability.authorizationGeneration ∧
    handle.membershipGeneration = capability.membershipGeneration ∧
    handle.driveAclGeneration = capability.driveAclGeneration ∧
    handle.namespaceGeneration = capability.namespaceGeneration ∧
    handle.resourceAclGeneration = capability.resourceAclGeneration ∧
    handle.gatewayEpoch = capability.gatewayEpoch

/-- The bound device of a credential, when it has one, was seen recently. -/
def deviceCurrent (credential : CredentialRow) : Bool :=
  credential.boundDeviceId.all fun id =>
    (s.authority.devices.get id).any fun device =>
      device.principalId = session.userPrincipalId ∧
        device.revoked = false ∧ s.now < device.observedAt + 5 * minute

def driveAllowed (drive : DriveId) : Bool :=
  ((s.authority.credentials.get session.credentialId).any fun credential =>
    credential.allowedDriveIds.contains drive ∧ deviceCurrent s session credential) &&
  (s.authority.policies.get (session.userPrincipalId, session.protocol)).any
    fun policy => policy.allowedDriveIds.contains drive

def admitMountReadCapability (capability : MountReadCapabilityFence) :
    Except DatabaseError HandleRow :=
  okOr ((s.handles.get capability.handleId).filter fun handle =>
      handle.live s.now && handle.holds .readContent &&
        capabilityMatches capability handle && handleFenced s handle &&
        (s.sessions.get handle.sessionId).any fun session =>
          session.credentialId = capability.credentialId ∧
            session.userPrincipalId = capability.principalId ∧
            driveAllowed s session handle.target.driveId)
    .staleGeneration

/-! ## Closing -/

variable (sessionId handleId : Uuid)

/-- `UPDATE handles SET closed_at ... WHERE closed_at IS NULL`. -/
def closeHandle : Except DatabaseError MountState := do
  let handle ← okOr
    ((s.handles.get handleId).filter fun handle =>
      handle.sessionId = sessionId ∧ handle.closed = false) .staleGeneration
  .ok (writeHandle s { handle with closed := true })

def releaseHandleLocks (handleId : Uuid) : MountState :=
  { s with
    byteLocks := s.byteLocks.update (fun lock => lock.handleId = handleId ∧ lock.released = false)
      (fun lock => { lock with released := true }) (fun _ => rfl) }

def closeMountHandle : Except DatabaseError MountState := do
  let s ← closeHandle s sessionId handleId
  .ok (releaseHandleLocks s handleId)

/-- The conditions of `admit_nfs_handle_tx`; `admitted` is the verdict of those outside. -/
def admitNfsHandle (action : Option HandleAction) (requireLiveNode admitted : Bool) :
    Except DatabaseError HandleRow :=
  okOr ((s.handles.get handleId).filter fun handle =>
      handle.sessionId = sessionId ∧ handle.live s.now ∧
        action.all handle.holds ∧ admitted ∧
        ((s.sessions.get sessionId).any fun session =>
          sessionGenerations session handle ∧ s.now < session.idleExpiresAt ∧
            s.now < session.absoluteExpiresAt ∧
            principalCurrent s session.userPrincipalId handle) ∧
        ((s.db.drives.get handle.target.driveId).any fun drive =>
          drive.aclGeneration = handle.driveAclGeneration) ∧
        (s.db.node handle.target.driveId handle.target.nodeId).any fun node =>
          requireLiveNode = false ∨
            (node.trashRootId = none ∧
              node.namespaceGeneration = handle.namespaceGeneration ∧
              node.aclGeneration = handle.resourceAclGeneration))
    .staleGeneration

/-- `close_nfs_mount_handle`; a replay writes nothing. -/
def closeNfsMountHandle (replayed admitted : Bool) : Except DatabaseError MountState := do
  if replayed then .ok s
  else
    let _ ← admitNfsHandle s sessionId handleId none false admitted
    closeMountHandle s sessionId handleId

end FileBelt.Mount
