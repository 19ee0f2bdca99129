import FileBelt.Cow.Session

/-!
# The range operations of the worker

The blocking part of `mutate_mount_range` in `apps/filebelt-worker-io`.  Every
attempt first recovers the session, so that a repeated attempt can follow one that
was stopped at any point.
-/

namespace FileBelt.Cow

open Support Write

/-- A range operation that the worker has admitted. -/
structure RangeAttempt where
  storage : MountWriteStorageRecord
  operationId : Uuid
  chunkSize : ℕ
  operation : MountWriteRangeOperation
  (start length expectedLogicalSize : ℕ)
  bytes : List UInt8
  /-- `read_mount_body_exact`. -/
  bytes_length : operation = .writeData → bytes.length = length

def mountBaseChunk (part : MountPayloadPartRecord) : Except StorageError CowBaseChunk := do
  let chunkNumber ← okOr (toUnsigned part.chunkNumber) .stateConflict
  let size ← okOr (toUnsigned part.sizeBytes) .stateConflict
  return ⟨chunkNumber, size, part.blake3⟩

def plannedSize (operation : MountWriteRangeOperation) (current start length : ℕ) :
    Except StorageError ℕ :=
  match operation with
  | .writeData | .allocate => do
      let stop ← okOr (checkedAdd start length) .stateConflict
      return max current stop
  | .holeDeallocate => .ok current
  | .seekData | .seekHole => .error .stateConflict

variable {b : ℕ}

/-- `ensure_mount_cow`; `id` is the fresh id of an initialization directory. -/
def ensureMountCow (blake3 : List UInt8 → Digest) (id : Uuid)
    (record : MountWriteStorageRecord) (chunkSize : ℕ) : Operation b Unit := do
  recoverCowUnderLock record.writeSessionId
  match ← Proc.look (cowLogicalSize record.writeSessionId chunkSize) with
  | .ok _ => pure ()
  | .error (.io .notFound) =>
    let baseChunks ← Proc.check fun _ => record.baseParts.mapM mountBaseChunk
    beginCowWrite blake3 record.writeSessionId id chunkSize record.basePayload baseChunks
  | .error error => Proc.fail error

/-- The operation that the worker runs on the session. -/
def mutateRange (operation : MountWriteRangeOperation)
    (session operationId : Uuid) (chunkSize current start length : ℕ)
    (bytes : List UInt8) : Operation b CowWriteResult :=
  match operation with
  | .writeData => writeCowAt session operationId chunkSize current start bytes
  | .holeDeallocate =>
    deallocateCowRange session operationId chunkSize current start length
  | .allocate => allocateCowRange session operationId chunkSize current start length
  | .seekData | .seekHole => Proc.fail .stateConflict

/-- The part of `mutate_mount_range` after the recovery. -/
def mutatePlanned (attempt : RangeAttempt) : Operation b CowWriteResult := do
  let session := attempt.storage.writeSessionId
  let current ← Proc.check (cowLogicalSize session attempt.chunkSize)
  let planned ← Proc.check fun _ =>
    plannedSize attempt.operation current attempt.start attempt.length
  Proc.require (planned = attempt.expectedLogicalSize) .stateConflict
  let result ← mutateRange attempt.operation session attempt.operationId
    attempt.chunkSize current attempt.start attempt.length attempt.bytes
  Proc.require (result.logicalSize = attempt.expectedLogicalSize) .stateConflict
  return result

/-- The blocking part of `mutate_mount_range`. -/
def mutateMountRange (blake3 : List UInt8 → Digest) (id : Uuid)
    (attempt : RangeAttempt) : Operation b CowWriteResult := do
  recoverCowUnderLock attempt.storage.writeSessionId
  ensureMountCow blake3 id attempt.storage attempt.chunkSize
  mutatePlanned attempt

end FileBelt.Cow
