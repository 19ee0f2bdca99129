import FileBelt.Write.Plan

/-!
# Write sessions in the database

The rows of one NFS write session and the transactions that a range operation
runs on them: `start_nfs_write`, `extend_mount_write_chunks`, the admission of
the operation by the I/O worker, its completion and `apply_nfs_write_extent`.
-/

namespace FileBelt.Write

open Support

/-- States of a row of `filebelt_mount.nfs_write_operations`. -/
inductive RangeOperationState
  | planned | executing | ioCompleted | applied | cancelled
  deriving DecidableEq, Repr

/-- `MountIoCompletion`, for range operations. -/
inductive MountIoCompletion
  | rangeMutation (logicalSizeBytes reservationDeltaBytes : ℤ)
  | seek (offset : Option ℤ)
  deriving DecidableEq, Repr

/-- A row of `filebelt_mount.nfs_write_operations` with the outcome of its
receipt. -/
structure RangeOperationRow where
  operationId : Uuid
  operation : MountWriteRangeOperation
  operationOrdinal : ℤ
  contentBlake3 : Option Digest
  (rangeStart rangeEnd resultingLogicalSize reservedBytes : ℤ)
  state : RangeOperationState
  outcome : Option MountIoCompletion
  deriving DecidableEq, Repr

structure WriteSession where
  storage : MountWriteStorageRecord
  extents : List NfsWriteExtent
  operations : List RangeOperationRow
  deriving DecidableEq, Repr

structure DriveQuota where
  (usedPhysicalBytes reservedBytes quotaBytes : ℤ)
  deriving DecidableEq, Repr

variable (quota : DriveQuota)

def DriveQuota.reserve (bytes : ℤ) : Option DriveQuota :=
  if quota.usedPhysicalBytes + quota.reservedBytes + bytes ≤ quota.quotaBytes then
    some { quota with reservedBytes := quota.reservedBytes + bytes }
  else none

/-- The head version that a session starts from, with its payload. -/
structure BaseVersion where
  versionId : Uuid
  sizeBytes : ℤ
  blake3 : Digest
  payload : PayloadRecord
  parts : List MountPayloadPartRecord
  deriving DecidableEq, Repr

/-- The parameters of `start_nfs_write` that its rows depend on. -/
structure StartNfsWrite where
  (writeSessionId stagingPayloadId stagingLocator : Uuid)
  reservedBytes : ℤ
  base : Option BaseVersion
  deriving DecidableEq, Repr

/-- The extents that `start_nfs_write` inserts. -/
def startExtents (base : Option BaseVersion) : List NfsWriteExtent :=
  match base with
  | none => []
  | some version =>
    if 0 < version.sizeBytes then
      [{ offsetBytes := 0
         lengthBytes := version.sizeBytes
         isHole := false
         digest := some version.blake3 }]
    else []

/-- The rows of a new session: no chunks, and the reservation of the caller. -/
def StartNfsWrite.session (input : StartNfsWrite) : WriteSession where
  storage :=
    { writeSessionId := input.writeSessionId
      baseVersionId := input.base.map BaseVersion.versionId
      logicalSizeBytes := 0
      reservedBytes := input.reservedBytes
      state := .opened
      stagingPayload :=
        { payloadId := input.stagingPayloadId
          locator := input.stagingLocator
          layout := .chunked
          state := .staging
          sizeBytes := 0
          blake3 := none }
      basePayload := input.base.map BaseVersion.payload
      baseParts := input.base.elim [] BaseVersion.parts
      plannedChunks := [] }
  extents := startExtents input.base
  operations := []

/-- `start_nfs_write` for a handle without a session. -/
def startNfsWrite (input : StartNfsWrite) : Option (DriveQuota × WriteSession) :=
  if input.reservedBytes < 0 then none
  else (quota.reserve input.reservedBytes).map fun quota => (quota, input.session)

def consecutive : List MountWriteChunkPlan → Bool
  | first :: second :: rest =>
    checkedAddI64 first.chunkNumber 1 == some second.chunkNumber && consecutive (second :: rest)
  | _ => true

/-- A chunk that `validate_mount_chunk_plan` of the database accepts. -/
def validPlanChunk (chunk : MountWriteChunkPlan) : Bool :=
  decide (0 ≤ chunk.chunkNumber) && decide (0 < chunk.sizeBytes) &&
    decide (chunk.stagingLocator ≠ nilUuid) &&
    chunk.sourcePayloadId.isSome == chunk.sourceChunkNumber.isSome &&
    chunk.sourceChunkNumber.all fun number => decide (0 ≤ number)

/-- `validate_mount_chunk_plan` of the database. -/
def databaseValidatesPlan (chunks : List MountWriteChunkPlan) : Bool :=
  decide (chunks.length ≤ 1048576) &&
    decide (chunks.map MountWriteChunkPlan.stagingLocator).Nodup &&
    chunks.all validPlanChunk && consecutive chunks &&
    chunks.head?.all fun chunk => chunk.chunkNumber == 0

/-- `ExtendNfsWriteChunksInput`, without the replay context and the capability. -/
structure ExtendNfsWriteChunks where
  requiredReservationBytes : ℤ
  operationId : Uuid
  operation : MountWriteRangeOperation
  contentBlake3 : Option Digest
  rangeStart : ℤ
  rangeEnd : ℤ
  chunks : List MountWriteChunkPlan
  deriving DecidableEq, Repr

/-- The checks at the start of `extend_mount_write_chunks`. -/
def ExtendNfsWriteChunks.valid (input : ExtendNfsWriteChunks) : Bool :=
  databaseValidatesPlan input.chunks &&
    decide (0 ≤ input.requiredReservationBytes) && decide (0 ≤ input.rangeStart) &&
    decide (input.rangeStart ≤ input.rangeEnd) &&
    decide (input.rangeEnd < input.requiredReservationBytes) &&
    (!input.operation.seeks || decide (input.rangeStart = input.rangeEnd)) &&
    (input.operation == .writeData) == input.contentBlake3.isSome

/-- The stored rows are a prefix of the plan, of which only the last row may have
grown. -/
def extendsRows : List MountWriteChunkPlan → List MountWriteChunkPlan → Bool
  | [], _ => true
  | _ :: _, [] => false
  | row :: rows, chunk :: chunks =>
    (row.chunkNumber == chunk.chunkNumber &&
      row.sourcePayloadId == chunk.sourcePayloadId &&
      row.sourceChunkNumber == chunk.sourceChunkNumber &&
      row.stagingLocator == chunk.stagingLocator &&
      (if rows.isEmpty then
        decide (row.sizeBytes ≤ chunk.sizeBytes) && (!row.dirty || chunk.dirty)
      else chunk.sizeBytes == row.sizeBytes && chunk.dirty == row.dirty)) &&
    extendsRows rows chunks

variable (session : WriteSession)

/-- The largest ordinal, `COALESCE(max(operation_ordinal),0)`. -/
def WriteSession.maxOrdinal : ℤ :=
  session.operations.foldl (fun top row => max top row.operationOrdinal) 0

def WriteSession.resultingSize (operation : MountWriteRangeOperation) (endExclusive : ℤ) : ℤ :=
  let current := max session.storage.logicalSizeBytes session.storage.baseSize
  if operation.extends then max current endExclusive else current

/-- The row that `extend_mount_write_chunks` inserts. -/
def ExtendNfsWriteChunks.row (input : ExtendNfsWriteChunks)
    (ordinal resulting : ℤ) : RangeOperationRow where
  operationId := input.operationId
  operation := input.operation
  operationOrdinal := ordinal
  contentBlake3 := input.contentBlake3
  rangeStart := input.rangeStart
  rangeEnd := input.rangeEnd
  resultingLogicalSize := resulting
  reservedBytes := input.requiredReservationBytes
  state := .planned
  outcome := none

/-- The rows after `extend_mount_write_chunks` has stored a plan. -/
def WriteSession.withPlan (input : ExtendNfsWriteChunks) (ordinal resulting : ℤ) : WriteSession :=
  { session with
    storage := { session.storage with
      logicalSizeBytes := resulting
      reservedBytes := input.requiredReservationBytes
      plannedChunks := input.chunks }
    operations := session.operations ++ [input.row ordinal resulting] }

/-- `extend_mount_write_chunks` for an operation that has no plan yet. -/
def extendMountWriteChunks (session : WriteSession)
    (input : ExtendNfsWriteChunks) : Except DatabaseError (DriveQuota × WriteSession) :=
  if input.valid = false then .error .invalidPersistedValue
  else if session.storage.state ≠ .opened ∨
      session.storage.stagingPayload.state ≠ .staging then .error .staleGeneration
  else if session.operations.any fun row => row.state != .applied then
    .error .conflict
  else do
    let ordinal ← okOr (checkedAddI64 session.maxOrdinal 1) .invalidPersistedValue
    let endExclusive ← okOr (checkedAddI64 input.rangeEnd 1) .invalidPersistedValue
    let resulting := session.resultingSize input.operation endExclusive
    if input.requiredReservationBytes < resulting then .error .quotaExceeded
    else if input.chunks.any fun chunk => chunk.sourcePayloadId.isSome &&
        session.storage.basePayload.map PayloadRecord.payloadId !=
          chunk.sourcePayloadId then .error .conflict
    else if extendsRows session.storage.plannedChunks input.chunks = false then
      .error .conflict
    else do
      let planned ← okOr (plannedBytes input.chunks) .invalidPersistedValue
      if planned ≠ input.requiredReservationBytes then .error .conflict
      -- `reserve_nfs_write_bytes`
      else if input.requiredReservationBytes < session.storage.reservedBytes then
        .error (mapConflict .other)
      else do
        let quota ← okOr (quota.reserve
            (input.requiredReservationBytes - session.storage.reservedBytes))
          (mapConflict .other)
        if resulting < session.storage.logicalSizeBytes then .error .staleGeneration
        else if session.operations.any fun row =>
            row.operationId == input.operationId then .error .conflict
        else .ok (quota, session.withPlan input ordinal resulting)

variable (storage : MountWriteStorageRecord)

/-- The source pair that the worker accepts. -/
def workerSource (chunk : MountWriteChunkPlan) : Bool :=
  match chunk.sourcePayloadId, chunk.sourceChunkNumber with
  | some payloadId, some number =>
    storage.basePayload.any (fun payload => payload.payloadId == payloadId) &&
      number == chunk.chunkNumber
  | none, none => true
  | _, _ => false

/-- `validate_mount_chunk_plan`; a size that is not positive is refused. -/
def workerValidatesPlan (chunkSize : ℕ) (rangeEnd : ℤ) : Bool :=
  checkChunks planFields chunkSize (fun _ chunk => workerSource storage chunk) 0 []
      0 storage.plannedChunks == some storage.reservedBytes &&
    decide (rangeEnd < storage.reservedBytes)

/-- `admit_mount_write_range_tx` and `validate_mount_range_admission`. -/
def workerAdmits (row : RangeOperationRow) (chunkSize : ℕ) : Bool :=
  decide (0 < row.operationOrdinal) && decide (row.operationId ≠ nilUuid) &&
    decide (0 ≤ row.rangeStart) && decide (row.rangeStart ≤ row.rangeEnd) &&
    (!row.operation.seeks || decide (row.rangeStart = row.rangeEnd)) &&
    decide (row.rangeEnd < row.reservedBytes) &&
    row.reservedBytes == storage.reservedBytes &&
    plannedBytes storage.plannedChunks == some row.reservedBytes &&
    decide (0 ≤ row.resultingLogicalSize) &&
    decide (row.resultingLogicalSize ≤ row.reservedBytes) &&
    row.resultingLogicalSize == storage.logicalSizeBytes &&
    (row.operation.seeks || storage.state == .opened) &&
    (row.operation == .writeData) == row.contentBlake3.isSome &&
    workerValidatesPlan storage chunkSize row.rangeEnd

end FileBelt.Write
