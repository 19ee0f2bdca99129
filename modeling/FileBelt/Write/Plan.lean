import FileBelt.Domain.Identity
import FileBelt.Write.Extents

/-!
# Planning a range operation

The chunk plan of a mount write session: the planner of the VFS
(`apps/filebelt-vfs/src/nfs_dispatch.rs`), the transaction of the database that
stores a plan (`crates/filebelt-database/src/mount.rs`) and the check of the
I/O worker (`apps/filebelt-worker-io/src/main.rs`).
-/

namespace FileBelt.Write

open Support

inductive PayloadState
  | staging | finalizing | finalized | referenced | abandoned | deleteIntent
  | deleting | deleted | quarantining | quarantined
  deriving DecidableEq, Repr

inductive PayloadLayout
  | whole | chunked
  deriving DecidableEq, Repr

/-- `PayloadRecord`, without the owning tenant, drive and backend. -/
structure PayloadRecord where
  payloadId : Uuid
  locator : Uuid
  layout : PayloadLayout
  state : PayloadState
  sizeBytes : ℤ
  blake3 : Option Digest
  deriving DecidableEq, Repr

structure MountPayloadPartRecord where
  chunkNumber : ℤ
  locator : Uuid
  sizeBytes : ℤ
  blake3 : Digest
  deriving DecidableEq, Repr

structure MountWriteChunkPlan where
  chunkNumber : ℤ
  sourcePayloadId : Option Uuid
  sourceChunkNumber : Option ℤ
  stagingLocator : Uuid
  sizeBytes : ℤ
  dirty : Bool
  deriving DecidableEq, Repr

/-- States of a row of `filebelt_mount.write_sessions`. -/
inductive WriterState
  | opened | flushing | committing | committed | conflicted | aborting | aborted
  | expired
  deriving DecidableEq, Repr

structure MountWriteStorageRecord where
  writeSessionId : Uuid
  baseVersionId : Option Uuid
  logicalSizeBytes : ℤ
  reservedBytes : ℤ
  state : WriterState
  stagingPayload : PayloadRecord
  basePayload : Option PayloadRecord
  baseParts : List MountPayloadPartRecord
  plannedChunks : List MountWriteChunkPlan
  deriving DecidableEq, Repr

def nilUuid : Uuid := 0

def maxMountChunks : ℕ := 1048576

variable (storage : MountWriteStorageRecord)

def MountWriteStorageRecord.baseSize : ℤ :=
  storage.basePayload.elim 0 PayloadRecord.sizeBytes

/-- How a loop reads the chunks it goes through. -/
structure ChunkFields (α : Type) where
  number : α → ℤ
  locator : α → Uuid
  size : α → ℤ

/-- The loop of the planner and the worker: every chunk but the last is full, locators are
not nil and not repeated, and `extra` holds.  Returns the total size. -/
def checkChunks {α : Type} (fields : ChunkFields α) (chunkSize : ℤ)
    (extra : ℕ → α → Bool) : ℕ → List Uuid → ℤ → List α → Option ℤ
  | _, _, represented, [] => some represented
  | index, locators, represented, chunk :: rest =>
    if fields.number chunk ≠ index ∨ fields.size chunk ≤ 0 ∨
        chunkSize < fields.size chunk ∨
        (rest ≠ [] ∧ fields.size chunk ≠ chunkSize) ∨
        fields.locator chunk = nilUuid ∨ fields.locator chunk ∈ locators ∨
        extra index chunk = false then none
    else
      (checkedAddI64 represented (fields.size chunk)).bind fun represented =>
        checkChunks fields chunkSize extra (index + 1)
          (fields.locator chunk :: locators) represented rest

def partFields : ChunkFields MountPayloadPartRecord where
  number := MountPayloadPartRecord.chunkNumber
  locator := MountPayloadPartRecord.locator
  size := MountPayloadPartRecord.sizeBytes

def planFields : ChunkFields MountWriteChunkPlan where
  number := MountWriteChunkPlan.chunkNumber
  locator := MountWriteChunkPlan.stagingLocator
  size := MountWriteChunkPlan.sizeBytes

def validateBaseParts (chunkSizeBytes : ℕ) : Bool :=
  match toI64 chunkSizeBytes with
  | none => false
  | some chunkSize =>
    decide (0 < chunkSize) &&
      match storage.basePayload with
      | none => storage.baseParts.isEmpty
      | some base =>
        match base.layout with
        | .whole => storage.baseParts.isEmpty
        | .chunked =>
          decide (storage.baseParts.length ≤ maxMountChunks) &&
            checkChunks partFields chunkSize (fun _ _ => true) 0 [] 0
              storage.baseParts == some base.sizeBytes

/-- The checks of `validate_mount_storage` on the base payload. -/
def validBase (base : PayloadRecord) : Bool :=
  decide (base.payloadId ≠ nilUuid) && decide (base.locator ≠ nilUuid) &&
    base.state == .referenced && decide (0 ≤ base.sizeBytes) &&
    decide (base.sizeBytes ≤ storage.reservedBytes) && base.blake3.isSome

/-- `validate_mount_storage`; the identities compared with the fence are left
out. -/
def validateMountStorage (chunkSizeBytes : ℕ) : Bool :=
  decide (0 ≤ storage.logicalSizeBytes) &&
    decide (storage.logicalSizeBytes ≤ storage.reservedBytes) &&
    storage.state == .opened &&
    decide (storage.stagingPayload.payloadId ≠ nilUuid) &&
    decide (storage.stagingPayload.locator ≠ nilUuid) &&
    storage.stagingPayload.layout == .chunked &&
    storage.stagingPayload.state == .staging &&
    storage.basePayload.all (validBase storage) &&
    validateBaseParts storage chunkSizeBytes

def MountWriteRangeOperation.extends : MountWriteRangeOperation → Bool
  | .writeData | .allocate => true
  | .holeDeallocate | .seekData | .seekHole => false

def MountWriteRangeOperation.seeks : MountWriteRangeOperation → Bool
  | .seekData | .seekHole => true
  | .writeData | .holeDeallocate | .allocate => false

def requiredReservation
    (operation : MountWriteRangeOperation) (rangeEnd : ℤ) (maxFileBytes : ℕ) : Option ℤ := do
  let maxFileBytes ← toI64 maxFileBytes
  let endExclusive ← checkedAddI64 rangeEnd 1
  let required := if operation.extends then max storage.reservedBytes endExclusive
    else storage.reservedBytes
  if required ≤ rangeEnd ∨ required ≤ 0 ∨ maxFileBytes < required then none
  else some required

/-- The source that a chunk at this position has. -/
def expectedSource (number offset : ℤ) : Option Uuid × Option ℤ :=
  if offset < storage.baseSize then
    (storage.basePayload.map PayloadRecord.payloadId, some number)
  else (none, none)

/-- What the planner asks of an existing chunk beyond its place and size. -/
def plannedSource (chunkSize : ℤ) (index : ℕ) (chunk : MountWriteChunkPlan) : Bool :=
  match checkedMulI64 index chunkSize with
  | none => false
  | some offset =>
    (chunk.sourcePayloadId, chunk.sourceChunkNumber) ==
      expectedSource storage index offset && chunk.dirty

/-- Fresh version-4 UUIDs: `Uuid::new_v4`, repeated until the locator is new. -/
structure LocatorSource where
  next : List Uuid → Uuid
  next_notMem : ∀ used, next used ∉ used
  next_ne_nil : ∀ used, next used ≠ nilUuid

/-- The growth of the last chunk; returns the bytes that remain. -/
def growTail (chunkSize remaining : ℤ) : List MountWriteChunkPlan → List MountWriteChunkPlan × ℤ
  | [] => ([], remaining)
  | [tail] =>
    if 0 < remaining ∧ tail.sizeBytes < chunkSize then
      let growth := min remaining (chunkSize - tail.sizeBytes)
      ([{ tail with sizeBytes := tail.sizeBytes + growth }], remaining - growth)
    else ([tail], remaining)
  | chunk :: next :: rest =>
    let grown := growTail chunkSize remaining (next :: rest)
    (chunk :: grown.1, grown.2)

/-- The last loop of `build_mount_chunk_plan`; the first new chunk has number `index`. -/
def newChunks (source : LocatorSource) (storage : MountWriteStorageRecord)
    (chunkSize : ℤ) (index : ℕ) (locators : List Uuid) (remaining : ℤ) :
    Option (List MountWriteChunkPlan) :=
  if _h : 0 < remaining ∧ 0 < chunkSize then
    (checkedMulI64 index chunkSize).bind fun offset =>
      let sizeBytes := min remaining chunkSize
      let locator := source.next locators
      let chunk : MountWriteChunkPlan :=
        { chunkNumber := index
          sourcePayloadId := (expectedSource storage index offset).1
          sourceChunkNumber := (expectedSource storage index offset).2
          stagingLocator := locator
          sizeBytes
          dirty := true }
      (newChunks source storage chunkSize (index + 1) (locator :: locators)
        (remaining - sizeBytes)).map (chunk :: ·)
  else some []
termination_by remaining.toNat
decreasing_by omega

/-- The sum of the sizes, checked. -/
def plannedBytes (chunks : List MountWriteChunkPlan) : Option ℤ :=
  chunks.foldlM (fun total chunk => checkedAddI64 total chunk.sizeBytes) 0

def buildMountChunkPlan (source : LocatorSource)
    (storage : MountWriteStorageRecord) (requiredReservationBytes : ℤ)
    (chunkSizeBytes : ℕ) : Option (List MountWriteChunkPlan) := do
  let chunkSize ← (toI64 chunkSizeBytes).filter fun value => decide (0 < value)
  let rounded ← checkedAddI64 requiredReservationBytes (chunkSize - 1)
  let requiredChunkCount ← toUnsigned (rounded / chunkSize)
  if requiredReservationBytes < storage.reservedBytes ∨
      requiredReservationBytes ≤ 0 ∨
      maxMountChunks < storage.plannedChunks.length ∨
      maxMountChunks < requiredChunkCount then none
  else do
    let represented ← checkChunks planFields chunkSize
      (plannedSource storage chunkSize) 0 [] 0 storage.plannedChunks
    if represented ≠ storage.reservedBytes then none
    else do
      let grown := growTail chunkSize
        (requiredReservationBytes - represented) storage.plannedChunks
      let appended ← newChunks source storage chunkSize grown.1.length
        (grown.1.map MountWriteChunkPlan.stagingLocator) grown.2
      let planned ← plannedBytes (grown.1 ++ appended)
      if planned ≠ requiredReservationBytes then none
      else some (grown.1 ++ appended)

end FileBelt.Write
