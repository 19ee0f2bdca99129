import FileBelt.Support.Chunks
import FileBelt.Support.FileSystem
import FileBelt.Support.Procedure
import FileBelt.Support.SparseCopy
import FileBelt.Write.Plan
import Mathlib.Data.List.Sort
import Mathlib.Data.UInt

/-!
# Copy-on-write staging

`crates/filebelt-storage/src/cow.rs` on the files of a mount write session.  A session
is a directory of numbered chunk files, first hard-linked or copied from the base
payload.  A chunk is changed by writing a new file and renaming it.
-/

namespace FileBelt.Cow

open Support Write

def minChunkSize : ℕ := 65536

def maxChunkSize : ℕ := 67108864

def maxChunkCount : ℕ := 100000000

/-- The buffer of the copying loops. -/
def bufferSize : ℕ := 65536

/-- `StorageError`, with the kind of an I/O error. -/
inductive StorageError
  | io (error : FsError)
  | unsafeObject | corruptObject | stateConflict | unsupportedFilesystem
  deriving DecidableEq, Repr

/-- The names of files: a chunk, a chunk that an operation is writing, a whole
payload. -/
inductive EntryName
  | part (number : ℕ)
  | writing (number : ℕ) (operation : Uuid)
  | object (locator : Uuid)
  deriving DecidableEq, Repr

/-- The directories: a session, an initialization of a session, a chunked payload,
the whole payloads. -/
inductive Place
  | cow (session : Uuid)
  | init (session id : Uuid)
  | chunks (locator : Uuid)
  | whole
  deriving DecidableEq, Repr

abbrev Disk (b : ℕ) : Type := FileSystem UInt8 b Place EntryName

abbrev Operation (b : ℕ) (α : Type) : Type := Proc StorageError (Disk b) α

structure CowBaseChunk where
  chunkNumber : ℕ
  size : ℕ
  digest : Digest
  deriving DecidableEq

structure CowWriteResult where
  logicalSize : ℕ
  reservationDelta : ℕ
  deriving DecidableEq, Repr

structure CowChunkDigest where
  chunkNumber : ℕ
  size : ℕ
  digest : Digest
  deriving DecidableEq

structure CowManifest where
  logicalSize : ℕ
  digest : Digest
  chunks : List CowChunkDigest
  deriving DecidableEq

structure FinalizedObject where
  digest : Digest
  size : ℕ
  deriving DecidableEq

/-- `parse_cow_chunk_name`; the name of a chunk has eight digits. -/
def parseCowChunkName : EntryName → Except StorageError ℕ
  | .part number => if number < 10 ^ 8 then .ok number else .error .unsafeObject
  | .writing _ _ | .object _ => .error .unsafeObject

def parseCowWritingName : EntryName → Except StorageError ℕ
  | .writing number _ => parseCowChunkName (.part number)
  | .part _ | .object _ => .error .unsafeObject

def parseCowEntryName (name : EntryName) : Except StorageError ℕ :=
  match parseCowChunkName name with
  | .ok number => .ok number
  | .error _ => parseCowWritingName name

def validateChunkSize (chunkSize : ℕ) : Except StorageError Unit :=
  if minChunkSize ≤ chunkSize ∧ chunkSize ≤ maxChunkSize ∧
      2 ^ Nat.log2 chunkSize = chunkSize then .ok ()
  else .error .stateConflict

/-- The size of a chunk of `count` in a file of a size. -/
def expectedSize (chunkSize logicalSize count number : ℕ) : ℕ :=
  if number + 1 = count then logicalSize - number * chunkSize else chunkSize

def checkedNonemptyRangeEnd (offset length : ℕ) : Except StorageError ℕ :=
  if length = 0 then .error .stateConflict
  else okOr (checkedAdd offset length) .stateConflict

variable {b : ℕ}

def verifyDirectory (place : Place) (disk : Disk b) : Except StorageError (Directory EntryName) :=
  okOr (disk.dir place) (.io .notFound)

/-- `verify_regular_file` and `File::open`. -/
def openFile (place : Place) (name : EntryName) (disk : Disk b) :
    Except StorageError (SparseFile UInt8 b) :=
  okOr (disk.file place name) (.io .notFound)

variable (file : SparseFile UInt8 b)

def fileBytes : List UInt8 := file.read 0 file.size

variable (blake3 : List UInt8 → Digest)

def verifyFile (place : Place) (name : EntryName)
    (size : ℕ) (digest : Digest) (disk : Disk b) : Except StorageError Unit := do
  let file ← openFile place name disk
  if file.size ≠ size ∨ blake3 (fileBytes file) ≠ digest then
    .error .corruptObject
  else .ok ()

/-- The loop of `cow_logical_size` over the chunks in the order of their numbers. -/
def sumChunks (chunkSize : ℕ) : ℕ → ℕ → List (ℕ × ℕ) → Except StorageError ℕ
  | _, logicalSize, [] => .ok logicalSize
  | index, logicalSize, (number, size) :: rest =>
    if number ≠ index ∨ size = 0 ∨ chunkSize < size ∨
        (rest ≠ [] ∧ size ≠ chunkSize) then .error .corruptObject
    else do
      let logicalSize ← okOr (checkedAdd logicalSize size) .stateConflict
      sumChunks chunkSize (index + 1) logicalSize rest

/-- The number and the size of a chunk file. -/
def chunkEntry (disk : Disk b) (link : Link EntryName) : Except StorageError (ℕ × ℕ) := do
  let number ← parseCowChunkName link.name
  return (number, (disk.inode link.inode).size)

variable (session : Uuid)

def cowLogicalSize (chunkSize : ℕ) (disk : Disk b) : Except StorageError ℕ := do
  validateChunkSize chunkSize
  let directory ← verifyDirectory (.cow session) disk
  let chunks ← directory.rows.mapM (chunkEntry disk)
  sumChunks chunkSize 0 0 (chunks.insertionSort fun x y => x.1 ≤ y.1)

/-- The bytes of a chunk, which must have the size that its number gives. -/
def manifestChunk (place : Place) (chunkSize logicalSize count : ℕ) (disk : Disk b)
    (number : ℕ) : Except StorageError (List UInt8) := do
  let file ← openFile place (.part number) disk
  if file.size ≠ expectedSize chunkSize logicalSize count number then
    .error .corruptObject
  else .ok (fileBytes file)

def chunkDigest (chunk : List UInt8 × ℕ) : CowChunkDigest where
  chunkNumber := chunk.2
  size := chunk.1.length
  digest := blake3 chunk.1

def cowManifestIn (place : Place)
    (chunkSize logicalSize : ℕ) (disk : Disk b) : Except StorageError CowManifest := do
  validateChunkSize chunkSize
  let directory ← verifyDirectory place disk
  let count := chunkCount chunkSize logicalSize
  if maxChunkCount < count then .error .stateConflict
  else if directory.rows.length ≠ count then .error .corruptObject
  else do
    let chunks ← (List.range count).mapM
      (manifestChunk place chunkSize logicalSize count disk)
    return {
      logicalSize := logicalSize
      digest := blake3 chunks.flatten
      chunks := chunks.zipIdx.map (chunkDigest blake3) }

variable (payload : PayloadRecord)

def payloadPresent (disk : Disk b) : Bool :=
  match payload.layout with
  | .whole => (disk.lookup .whole (.object payload.locator)).isSome
  | .chunked => (disk.dir (.chunks payload.locator)).isSome

def payloadManifest (chunkSize logicalSize : ℕ) (disk : Disk b) : Except StorageError CowManifest :=
  match payload.layout with
  | .whole => .error .unsafeObject
  | .chunked =>
    cowManifestIn blake3 (.chunks payload.locator) chunkSize logicalSize disk

def cowStagingManifest (chunkSize logicalSize : ℕ) (disk : Disk b) :
    Except StorageError CowManifest :=
  match (disk.dir (.cow session)).isSome, payloadPresent payload disk with
  | true, false => cowManifestIn blake3 (.cow session) chunkSize logicalSize disk
  | false, true => payloadManifest blake3 payload chunkSize logicalSize disk
  | _, _ => .error .stateConflict

/-- A call that changes an open file. -/
inductive FileEdit
  | setLen (size : ℕ)
  | pad (size : ℕ)
  | write (offset : ℕ) (bytes : List UInt8)
  | allocate (offset length : ℕ)
  | punch (offset length : ℕ)

def FileEdit.apply : FileEdit → SparseFile UInt8 b
  | .setLen size => file.setLen size
  | .pad size => file.padTo size
  | .write offset bytes => file.write offset bytes
  | .allocate offset length => file.allocate offset length
  | .punch offset length => file.punch offset length

/-- What `write_all` passes through. -/
def FileEdit.partials : FileEdit → List (SparseFile UInt8 b)
  | .write offset bytes =>
    (List.range bytes.length).map fun n => file.write offset (bytes.take n)
  | .setLen _ | .pad _ | .allocate _ _ | .punch _ _ => []

def fsCall {α : Type} (f : Disk b → Except FsError (α × Disk b)) : Operation b α :=
  Proc.call fun disk => (f disk).mapError .io

def editFile (file : ℕ) (edit : FileEdit) : Operation b Unit :=
  Proc.gradual
    (fun disk => (edit.partials (disk.inode file)).map fun f => disk.edit file fun _ => f)
    (fun disk => disk.edit file edit.apply)

variable (source : SparseFile UInt8 b)

/-- The calls on the destination.  A hole that is found is after the data before it. -/
def copySparseFile : List FileEdit :=
  .setLen source.size :: ((source.dataRuns 0).flatMap fun run =>
      SparseFile.cutBy bufferSize run.1 (run.2 - run.1)).map fun range =>
        .write range.1 (source.read range.1 range.2)

/-- `replace_chunk`, with the calls of `mutate`. -/
def replaceChunk (session operation : Uuid) (number : ℕ) (mutate : List FileEdit) :
    Operation b Unit := do
  Proc.require (number < maxChunkCount) .stateConflict
  let _ ← Proc.check (verifyDirectory (.cow session))
  let destination ← Proc.look fun disk => disk.file (.cow session) (.part number)
  let temporary ← fsCall (FileSystem.createNew (.cow session) (.writing number operation))
  Proc.forEach (destination.elim [] copySparseFile) (editFile temporary)
  Proc.forEach mutate (editFile temporary)
  fsCall (FileSystem.rename (.cow session) (.writing number operation) (.part number))

def writeCowRange (session operation : Uuid) (chunkSize offset : ℕ)
    (bytes : List UInt8) : Operation b Unit :=
  if _h : 0 < bytes.length ∧ 0 < chunkSize then do
    let within := offset % chunkSize
    let take := min bytes.length (chunkSize - within)
    replaceChunk session operation (offset / chunkSize)
      [.pad within, .write within (bytes.take take)]
    writeCowRange session operation chunkSize (offset + take) (bytes.drop take)
  else pure ()
termination_by bytes.length
decreasing_by
  have hwithin := Nat.mod_lt offset _h.2
  simp only [List.length_drop]
  omega

def extendCowWithHoles (session operation : Uuid) (chunkSize offset length : ℕ) :
    Operation b Unit :=
  if _h : 0 < length ∧ 0 < chunkSize then do
    let within := offset % chunkSize
    let take := min length (chunkSize - within)
    replaceChunk session operation (offset / chunkSize) [.pad (within + take)]
    extendCowWithHoles session operation chunkSize (offset + take) (length - take)
  else pure ()
termination_by length
decreasing_by
  have hwithin := Nat.mod_lt offset _h.2
  omega

def forEachCowRange (session operation : Uuid) (chunkSize : ℕ)
    (edits : ℕ → ℕ → List FileEdit) (offset length : ℕ) : Operation b Unit :=
  if _h : 0 < length ∧ 0 < chunkSize then do
    let within := offset % chunkSize
    let take := min length (chunkSize - within)
    replaceChunk session operation (offset / chunkSize) (edits within take)
    forEachCowRange session operation chunkSize edits (offset + take) (length - take)
  else pure ()
termination_by length
decreasing_by
  have hwithin := Nat.mod_lt offset _h.2
  omega

/-- The result of an operation that leaves `size` bytes. -/
def writeResult (current size : ℕ) : CowWriteResult where
  logicalSize := size
  reservationDelta := size - current

def writeCowAt (session operation : Uuid) (chunkSize current offset : ℕ)
    (bytes : List UInt8) : Operation b CowWriteResult := do
  Proc.check fun _ => validateChunkSize chunkSize
  let stop ← Proc.check fun _ => okOr (checkedAdd offset bytes.length) .stateConflict
  Proc.onlyIf (current < offset)
    (extendCowWithHoles session operation chunkSize current (offset - current))
  writeCowRange session operation chunkSize offset bytes
  return writeResult current (max current stop)

def allocateCowRange (session operation : Uuid) (chunkSize current offset length : ℕ) :
    Operation b CowWriteResult := do
  Proc.check fun _ => validateChunkSize chunkSize
  let stop ← Proc.check fun _ => checkedNonemptyRangeEnd offset length
  Proc.onlyIf (current < offset)
    (extendCowWithHoles session operation chunkSize current (offset - current))
  forEachCowRange session operation chunkSize
    (fun within take => [.pad (within + take), .allocate within take]) offset length
  return writeResult current (max current stop)

def deallocateCowRange (session operation : Uuid)
    (chunkSize current offset length : ℕ) : Operation b CowWriteResult := do
  Proc.check fun _ => validateChunkSize chunkSize
  let requestedEnd ← Proc.check fun _ => checkedNonemptyRangeEnd offset length
  let stop := min requestedEnd current
  Proc.onlyIf (offset < stop) (forEachCowRange session operation chunkSize
      (fun within take => [.punch within take]) offset (stop - offset))
  return writeResult current current

/-- Remove a chunk that a shorter file does not have. -/
def truncateEntry (retained : ℕ) (link : Link EntryName) : Operation b Unit := do
  let number ← Proc.check fun _ => parseCowChunkName link.name
  Proc.onlyIf (retained ≤ number) (fsCall (FileSystem.unlink (.cow session) link.name))

/-- The branch of `truncate_cow` for a shorter file. -/
def shortenCow (session operation : Uuid) (chunkSize size : ℕ) : Operation b Unit := do
  let directory ← Proc.check (verifyDirectory (.cow session))
  Proc.forEach directory.rows (truncateEntry session (chunkCount chunkSize size))
  let number := (size - 1) / chunkSize
  Proc.onlyIf (0 < size)
    (replaceChunk session operation number [.setLen (size - number * chunkSize)])

def truncateCow (session operation : Uuid) (chunkSize current size : ℕ) :
    Operation b CowWriteResult := do
  Proc.check fun _ => validateChunkSize chunkSize
  Proc.onlyIf (current < size)
    (extendCowWithHoles session operation chunkSize current (size - current))
  Proc.onlyIf (size < current) (shortenCow session operation chunkSize size)
  return writeResult current size

def removeEntry (parse : EntryName → Except StorageError ℕ) (place : Place)
    (link : Link EntryName) : Operation b Unit := do
  let _ ← Proc.check fun _ => parse link.name
  fsCall (FileSystem.unlink place link.name)

/-- Remove a directory whose names parse, if it is there. -/
def removeDirectory (parse : EntryName → Except StorageError ℕ) (place : Place) :
    Operation b Unit := do
  match ← Proc.look fun disk => disk.dir place with
  | none => pure ()
  | some directory =>
    Proc.forEach directory.rows (removeEntry parse place)
    fsCall (FileSystem.rmdir place)

def removeCowDirectory (place : Place) : Operation b Unit := removeDirectory parseCowChunkName place

/-- The modes that this one accepts are not modelled. -/
def removeInterruptedCowDirectory (place : Place) : Operation b Unit :=
  removeDirectory parseCowChunkName place

def isInitOf : Place → Bool
  | .init owner _ => owner = session
  | .cow _ | .chunks _ | .whole => false

/-- Keep a chunk and remove a file that was being written. -/
def recoverEntry (link : Link EntryName) : Operation b Unit :=
  match parseCowChunkName link.name with
  | .ok _ => pure ()
  | .error _ => removeEntry parseCowWritingName (.cow session) link

def recoverCowUnderLock : Operation b Unit := do
  let places ← Proc.look fun disk => disk.directories (isInitOf session)
  Proc.forEach places removeInterruptedCowDirectory
  match ← Proc.look fun disk => disk.dir (.cow session) with
  | none => pure ()
  | some directory => Proc.forEach directory.rows (recoverEntry session)

def abortCow : Operation b Unit := do
  recoverCowUnderLock session
  removeDirectory parseCowEntryName (.cow session)

def deletePayload : Operation b Unit :=
  match payload.layout with
  | .whole => do
      let present ← Proc.look (payloadPresent payload)
      Proc.onlyIf present (fsCall (FileSystem.unlink .whole (.object payload.locator)))
  | .chunked => removeDirectory (fun _ => .ok 0) (.chunks payload.locator)

def deleteCowStaging : Operation b Unit := do
  abortCow session
  deletePayload payload

def validateBaseChunks (chunks : List CowBaseChunk) (chunkSize logicalSize : ℕ) :
    Except StorageError Unit :=
  let count := chunkCount chunkSize logicalSize
  if chunks.length ≠ count ∨ chunks.zipIdx.any (fun (chunk, index) =>
      chunk.chunkNumber ≠ index ∨ chunk.size ≠ expectedSize chunkSize logicalSize count index)
  then .error .stateConflict
  else .ok ()

/-- The calls that copy chunk `number` of a whole payload. -/
def splitChunk (chunkSize number : ℕ) : List FileEdit :=
  (SparseFile.cutBy bufferSize 0
    (min chunkSize (source.size - number * chunkSize))).map fun range =>
      .write range.1 (source.read (number * chunkSize + range.1) range.2)

variable (destination : Place)

def createChunk (chunkSize number : ℕ) : Operation b Unit := do
  let chunk ← fsCall (FileSystem.createNew destination (.part number))
  Proc.forEach (splitChunk source chunkSize number) (editFile chunk)

/-- `split_whole_payload`.  The removal of chunks after an I/O error is an event
of its own. -/
def splitWholePayload (locator : Uuid) (destination : Place) (chunkSize : ℕ) :
    Operation b Unit := do
  let source ← Proc.check (openFile .whole (.object locator))
  if source.size = 0 then pure ()
  else if source.size ≤ chunkSize then
    fsCall (FileSystem.hardLink .whole (.object locator) destination (.part 0))
  else
    Proc.forEach (List.range (chunkCount chunkSize source.size))
      (createChunk source destination chunkSize)

def linkBaseChunk (locator : Uuid) (destination : Place)
    (chunk : CowBaseChunk) : Operation b Unit := do
  Proc.check (verifyFile blake3 (.chunks locator) (.part chunk.chunkNumber) chunk.size chunk.digest)
  fsCall (FileSystem.hardLink (.chunks locator) (.part chunk.chunkNumber) destination
    (.part chunk.chunkNumber))

def syncCowFiles (place : Place) (disk : Disk b) : Except StorageError Unit := do
  let directory ← verifyDirectory place disk
  let _ ← directory.rows.mapM fun link => parseCowChunkName link.name
  return ()

/-- Fill a new session directory from the base payload. -/
def fillCow (chunkSize : ℕ)
    (payload : PayloadRecord) (baseChunks : List CowBaseChunk) (logicalSize : ℕ)
    (digest : Digest) : Operation b Unit :=
  match payload.layout with
  | .whole => do
      Proc.check (verifyFile blake3 .whole (.object payload.locator) logicalSize digest)
      splitWholePayload payload.locator destination chunkSize
  | .chunked => do
      let _ ← Proc.check (verifyDirectory (.chunks payload.locator))
      Proc.check fun _ => validateBaseChunks baseChunks chunkSize logicalSize
      Proc.forEach baseChunks (linkBaseChunk blake3 payload.locator destination)

/-- The closure of `begin_cow_write` that initializes the new directory. -/
def initializeCow (chunkSize : ℕ)
    (basePayload : Option PayloadRecord) (baseChunks : List CowBaseChunk) : Operation b Unit :=
  match basePayload with
  | none => Proc.require (baseChunks = []) .stateConflict
  | some payload => do
      let logicalSize ← Proc.check fun _ =>
        okOr (toUnsigned payload.sizeBytes) .stateConflict
      let digest ← Proc.check fun _ => okOr payload.blake3 .corruptObject
      fillCow blake3 destination chunkSize payload baseChunks logicalSize digest
      Proc.check (syncCowFiles destination)
      let manifest ← Proc.check
        (cowManifestIn blake3 destination chunkSize logicalSize)
      Proc.require (manifest.logicalSize = logicalSize ∧ manifest.digest = digest) .corruptObject

def createSecureDirectory (place : Place) : Operation b Unit := do
  let missing ← Proc.look fun disk => (disk.dir place).isNone
  Proc.onlyIf missing (fsCall (FileSystem.mkdir place))

/-- `begin_cow_write`; `id` is the fresh id of the initialization directory. -/
def beginCowWrite (session id : Uuid) (chunkSize : ℕ)
    (basePayload : Option PayloadRecord) (baseChunks : List CowBaseChunk) : Operation b Unit := do
  Proc.check fun _ => validateChunkSize chunkSize
  recoverCowUnderLock session
  let missing ← Proc.look fun disk => (disk.dir (.cow session)).isNone
  Proc.require missing .stateConflict
  createSecureDirectory (.init session id)
  Proc.onError (initializeCow blake3 (.init session id) chunkSize basePayload baseChunks)
    fun error => do
      removeCowDirectory (.init session id)
      Proc.fail error
  fsCall (FileSystem.renameDir (.init session id) (.cow session))

def sizeDisagrees (persisted : ℤ) (size : ℕ) : Bool :=
  match toUnsigned persisted with
  | some n => n ≠ 0 && n ≠ size
  | none => true

def validateCowPayloadEvidence (expected manifest : CowManifest) : Except StorageError Unit :=
  if manifest ≠ expected ∨ payload.blake3.any (· ≠ manifest.digest) ∨
      sizeDisagrees payload.sizeBytes expected.logicalSize
  then .error .corruptObject
  else .ok ()

def publishCow (chunkSize : ℕ) (expected : CowManifest) : Operation b FinalizedObject := do
  Proc.require (payload.layout = .chunked) .stateConflict
  let source ← Proc.look fun disk => (disk.dir (.cow session)).isSome
  let destination ← Proc.look (payloadPresent payload)
  match source, destination with
  | true, false =>
    let manifest ← Proc.check
      (cowManifestIn blake3 (.cow session) chunkSize expected.logicalSize)
    Proc.check fun _ => validateCowPayloadEvidence payload expected manifest
    fsCall (FileSystem.renameDir (.cow session) (.chunks payload.locator))
    return ⟨manifest.digest, manifest.logicalSize⟩
  | false, true =>
    let manifest ← Proc.check
      (cowManifestIn blake3 (.chunks payload.locator) chunkSize expected.logicalSize)
    Proc.check fun _ => validateCowPayloadEvidence payload expected manifest
    return ⟨manifest.digest, manifest.logicalSize⟩
  | _, _ => Proc.fail .stateConflict

end FileBelt.Cow
