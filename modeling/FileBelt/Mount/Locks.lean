import FileBelt.Mount.Handles
import FileBelt.Database.Run

/-!
# Byte-range locks and the runs of the mount schema

Both lock paths hold the node `FOR UPDATE` while they look for a conflicting
lock and insert their own, so a lock transaction is one step.
-/

namespace FileBelt.Mount

open Support

/-- `expires_at` of a lock; it is never renewed. -/
def lockLifetime : ℕ := 30 * second

/-- The rows that conflict with a lock on the bytes from `offset` to `stop`. -/
def conflictsWith (now : ℕ) (target : Target) (offset stop : ℤ)
    (exclusive : Bool) (lock : ByteLockRow) : Bool :=
  lock.target = target ∧ lock.released = false ∧ now < lock.expiresAt ∧
    lock.offset < stop ∧ offset < lock.offset + lock.length ∧
    (lock.exclusive ∨ exclusive)

def lockConflict (s : MountState) (target : Target) (offset stop : ℤ) (exclusive : Bool) : Bool :=
  s.byteLocks.rows.any (conflictsWith s.now target offset stop exclusive)

/-- `INSERT` of a lock, with its foreign key on the handle. -/
def insertLock (s : MountState) (row : ByteLockRow) : Except DatabaseError MountState := do
  let _ ← okOr (s.handles.get row.handleId) .sql
  let byteLocks ← okOr (s.byteLocks.insert row) .conflict
  .ok { s with byteLocks := byteLocks }

structure LockRequest where
  fence : MountSessionFence
  lockId : Uuid
  handleId : Uuid
  target : Target
  ownerKey : String
  offset : ℕ
  length : ℕ
  exclusive : Bool

def ownerKeyAccepted (ownerKey : String) : Bool := ownerKey ≠ "" ∧ ownerKey.utf8ByteSize ≤ 255

/-- `acquire_mount_byte_lock`; the handle and its target are those of the
admitted record. -/
def acquireMountByteLock (s : MountState) (request : LockRequest) :
    Except DatabaseError MountState := do
  if ¬ownerKeyAccepted request.ownerKey ∨ request.length = 0 then
    .error .invalidPersistedValue
  else
    let offset ← okOr (toI64 request.offset) .invalidPersistedValue
    let length ← okOr (toI64 request.length) .invalidPersistedValue
    let stop ← okOr (checkedAddI64 offset length) .invalidPersistedValue
    let _ ← okOr (s.db.node request.target.driveId request.target.nodeId)
      .notFound
    if lockConflict s request.target offset stop request.exclusive then
      .error .conflict
    else
      insertLock s
        { id := request.lockId
          handleId := request.handleId
          target := request.target
          ownerKey := request.ownerKey
          offset := offset
          length := length
          exclusive := request.exclusive
          gatewayEpoch := request.fence.gatewayEpoch
          expiresAt := s.now + lockLifetime
          released := false }

structure NfsLockRequest where
  fence : MountSessionFence
  lockId : Uuid
  handleId : Uuid
  ownerKey : String
  offset : ℤ
  length : ℤ
  (exclusive replayed admitted : Bool)

/-- The outcome that the reply receipt of an NFS request records. -/
inductive NfsOutcome
  | applied | conflict | replayed
  deriving DecidableEq, Repr

def acquireNfsByteLock (s : MountState) (request : NfsLockRequest) :
    Except DatabaseError (NfsOutcome × MountState) := do
  let stop ← okOr (checkedAddI64 request.offset request.length)
    .invalidPersistedValue
  if ¬ownerKeyAccepted request.ownerKey ∨ request.offset < 0 ∨ request.length ≤ 0 then
    .error .invalidPersistedValue
  else if request.replayed then .ok (.replayed, s)
  else
    let handle ← admitNfsHandle s request.fence.sessionId request.handleId
      (some .manageLock) true request.admitted
    if lockConflict s handle.target request.offset stop request.exclusive then
      .ok (.conflict, s)
    else
      let s ← insertLock s
        { id := request.lockId
          handleId := request.handleId
          target := handle.target
          ownerKey := request.ownerKey
          offset := request.offset
          length := request.length
          exclusive := request.exclusive
          gatewayEpoch := request.fence.gatewayEpoch
          expiresAt := s.now + lockLifetime
          released := false }
      .ok (.applied, s)

def releases (handleId lockId : Uuid) (epoch : ℕ) (lock : ByteLockRow) : Bool :=
  lock.id = lockId ∧ lock.handleId = handleId ∧ lock.gatewayEpoch = epoch ∧ lock.released = false

theorem ByteLockRow.released_id (lock : ByteLockRow) :
    { lock with released := true }.id = lock.id := rfl

def releaseLock (s : MountState) (handleId lockId : Uuid) (epoch : ℕ) : MountState :=
  { s with
    byteLocks := s.byteLocks.update (releases handleId lockId epoch)
      (fun lock => { lock with released := true }) ByteLockRow.released_id }

def releaseMountByteLock (s : MountState) (fence : MountSessionFence)
    (handleId lockId : Uuid) : Except DatabaseError MountState := do
  let _ ← okOr
    ((s.byteLocks.get lockId).filter (releases handleId lockId fence.gatewayEpoch)) .notFound
  .ok (releaseLock s handleId lockId fence.gatewayEpoch)

def releaseNfsByteLock (s : MountState) (fence : MountSessionFence)
    (handleId lockId : Uuid) (replayed admitted : Bool) : Except DatabaseError MountState := do
  if replayed then .ok s
  else
    let _ ← admitNfsHandle s fence.sessionId handleId (some .manageLock) false
      admitted
    .ok (releaseLock s handleId lockId fence.gatewayEpoch)

/-- The transactions on the mount schema, those of the control database and the
passage of time. -/
inductive MountOperation
  | tick (duration : ℕ)
  | database (op : Database.Operation)
  | administer (authority : Authority)
  | createSession (request : SessionRequest)
  | createNfsSession (auth : NfsSessionRequest)
  | admitSession (id : Uuid) (admitted : Bool)
  | endSession (id : Uuid)
  | revokeSessions (selector : SessionSelector)
  | drainGateway (protocol : Protocol) (gatewayId : Uuid) (epoch : ℕ)
  | openHandle (request : OpenRequest)
  | openNfsHandle (open' : NfsOpenRequest)
  | admitHandle (fence : MountSessionFence) (handleId : Uuid) (action : HandleAction)
  | closeHandle (sessionId handleId : Uuid)
  | closeNfsHandle (sessionId handleId : Uuid) (replayed admitted : Bool)
  | acquireLock (request : LockRequest)
  | acquireNfsLock (request : NfsLockRequest)
  | releaseLock (fence : MountSessionFence) (handleId lockId : Uuid)
  | releaseNfsLock (fence : MountSessionFence) (handleId lockId : Uuid) (replayed admitted : Bool)

def mountStep (s : MountState) : MountOperation → Except DatabaseError MountState
  | .tick duration => .ok { s with now := s.now + duration }
  | .database op => do
      let db ← Database.step s.db op
      .ok { s with db := db }
  | .administer authority => .ok { s with authority := authority }
  | .createSession request => createMountSession s request
  | .createNfsSession auth => createNfsSession s auth
  | .admitSession id admitted => do
      let (_, s) ← admitMountSession s id admitted
      .ok s
  | .endSession id => endMountSession s id
  | .revokeSessions selector => .ok (revokeSessions s selector)
  | .drainGateway protocol gatewayId epoch =>
    drainMountGatewayEpoch s protocol gatewayId epoch
  | .openHandle request => openMountHandle s request
  | .openNfsHandle open' => openNfsMountHandle s open'
  | .admitHandle fence handleId action => do
      let (_, s) ← admitMountHandle s fence handleId action
      .ok s
  | .closeHandle sessionId handleId => closeMountHandle s sessionId handleId
  | .closeNfsHandle sessionId handleId replayed admitted =>
    closeNfsMountHandle s sessionId handleId replayed admitted
  | .acquireLock request => acquireMountByteLock s request
  | .acquireNfsLock request => do
      let (_, s) ← acquireNfsByteLock s request
      .ok s
  | .releaseLock fence handleId lockId =>
    releaseMountByteLock s fence handleId lockId
  | .releaseNfsLock fence handleId lockId replayed admitted =>
    releaseNfsByteLock s fence handleId lockId replayed admitted

/-- The database after a run from the migrated, empty one. -/
def mountReached (ops : List MountOperation) : MountState := run mountStep .empty ops

end FileBelt.Mount
