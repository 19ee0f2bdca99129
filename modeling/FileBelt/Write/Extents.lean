import FileBelt.Domain.Errors
import FileBelt.Support.MachineInt
import FileBelt.Support.Segments

/-!
# The extent map of a write session

`crates/filebelt-database/src/mount.rs`: the normalized list of data and hole extents
of an NFS write session.  Offsets and lengths are signed 64-bit integers, and every
addition that the source checks is checked here.
-/

namespace FileBelt.Write

open Support

/-- A BLAKE3 digest, `[u8; 32]`. -/
abbrev Digest := Vector UInt8 32

inductive MountWriteRangeOperation
  | writeData | holeDeallocate | allocate | seekData | seekHole
  deriving DecidableEq, Repr

structure NfsWriteExtent where
  offsetBytes : ℤ
  lengthBytes : ℤ
  isHole : Bool
  digest : Option Digest
  deriving DecidableEq, Repr

/-- The most extents that the database keeps for one session. -/
def maxNfsWriteExtents : ℕ := 1048576

/-- One turn of the loop of `normalized_nfs_extent_size`. -/
def nfsExtentEnd (stop : ℤ) (extent : NfsWriteExtent) : Except DatabaseError ℤ :=
  if extent.offsetBytes ≠ stop ∨ extent.lengthBytes ≤ 0 ∨
      (extent.isHole ∧ extent.digest.isSome) then .error .invalidPersistedValue
  else okOr (checkedAddI64 stop extent.lengthBytes) .invalidPersistedValue

variable (extents : List NfsWriteExtent)

def normalizedNfsExtentSize : Except DatabaseError ℤ :=
  extents.foldlM nfsExtentEnd 0

def validateNormalizedNfsExtents (logicalSizeBytes : ℤ) : Except DatabaseError Unit :=
  if logicalSizeBytes < 0 ∨ maxNfsWriteExtents < extents.length then
    .error .invalidPersistedValue
  else do
    let size ← normalizedNfsExtentSize extents
    if size ≠ logicalSizeBytes then .error .invalidPersistedValue else .ok ()

/-- Two extents that `push_normalized_nfs_extent` joins into one. -/
def NfsWriteExtent.joins (previous extent : NfsWriteExtent) : Bool :=
  previous.isHole == extent.isHole && previous.digest.isNone && extent.digest.isNone

def pushNormalizedNfsExtent
    (extent : NfsWriteExtent) : Except DatabaseError (List NfsWriteExtent) :=
  if extent.lengthBytes ≤ 0 ∨ (extent.isHole ∧ extent.digest.isSome) then
    .error .invalidPersistedValue
  else match extents.getLast? with
    | some previous => do
        let previousEnd ←
          okOr (checkedAddI64 previous.offsetBytes previous.lengthBytes) .invalidPersistedValue
        if previousEnd ≠ extent.offsetBytes then .error .invalidPersistedValue
        else if previous.joins extent then do
          let lengthBytes ←
            okOr (checkedAddI64 previous.lengthBytes extent.lengthBytes) .invalidPersistedValue
          .ok (extents.dropLast ++ [{ previous with lengthBytes }])
        else .ok (extents ++ [extent])
    | none =>
      if extent.offsetBytes ≠ 0 then .error .invalidPersistedValue
      else .ok (extents ++ [extent])

variable (replacement : NfsWriteExtent) (rangeStart rangeEnd : ℤ)

/-- The loop body of `apply_nfs_extent_range` around its calls of
`push_normalized_nfs_extent`: the pushes of one extent, and the `inserted` flag. -/
def extentPieces
    (inserted : Bool) (extent : NfsWriteExtent) (extentEnd : ℤ) : List NfsWriteExtent × Bool :=
  if extentEnd ≤ rangeStart ∨ rangeEnd ≤ extent.offsetBytes then
    if !inserted ∧ rangeEnd ≤ extent.offsetBytes then
      ([replacement, extent], true)
    else ([extent], inserted)
  else
    -- the pieces outside the range lose their digest
    let left := if extent.offsetBytes < rangeStart then
        [{ extent with
            lengthBytes := rangeStart - extent.offsetBytes, digest := none }]
      else []
    let middle := if inserted then [] else [replacement]
    let right := if rangeEnd < extentEnd then
        [{ extent with
            offsetBytes := rangeEnd
            lengthBytes := extentEnd - rangeEnd
            digest := none }]
      else []
    (left ++ middle ++ right, true)

/-- One turn of the loop of `apply_nfs_extent_range`; `rangeEnd` is exclusive. -/
def rebuildNfsExtents (state : List NfsWriteExtent × Bool) (extent : NfsWriteExtent) :
    Except DatabaseError (List NfsWriteExtent × Bool) := do
  let extentEnd ← okOr (checkedAddI64 extent.offsetBytes extent.lengthBytes)
    .invalidPersistedValue
  let (pieces, inserted) := extentPieces replacement rangeStart rangeEnd state.2 extent extentEnd
  let result ← pieces.foldlM pushNormalizedNfsExtent state.1
  .ok (result, inserted)

/-- The current extents, followed by a hole up to the resulting size. -/
def grownNfsExtents (current : List NfsWriteExtent)
    (currentSize resultingLogicalSize : ℤ) : List NfsWriteExtent :=
  if currentSize < resultingLogicalSize then
    current ++ [{ offsetBytes := currentSize
                  lengthBytes := resultingLogicalSize - currentSize
                  isHole := true
                  digest := none }]
  else current

/-- The extent that `apply_nfs_extent_range` puts over the range. -/
def rangeReplacement
    (operation : MountWriteRangeOperation) (dataDigest : Option Digest) : NfsWriteExtent where
  offsetBytes := rangeStart
  lengthBytes := rangeEnd - rangeStart
  isHole := operation == .holeDeallocate
  digest := dataDigest

/-- The push after the loop of `apply_nfs_extent_range`. -/
def insertReplacement (state : List NfsWriteExtent × Bool) :
    Except DatabaseError (List NfsWriteExtent) :=
  if state.2 then .ok state.1 else pushNormalizedNfsExtent state.1 replacement

/-- `apply_nfs_extent_range`; the unused planned size is left out. -/
def applyNfsExtentRange (current : List NfsWriteExtent)
    (resultingLogicalSize rangeStart rangeEnd : ℤ)
    (operation : MountWriteRangeOperation) (dataDigest : Option Digest) :
    Except DatabaseError (List NfsWriteExtent) := do
  let currentSize ← normalizedNfsExtentSize current
  let rangeEndExclusive ←
    okOr (checkedAddI64 rangeEnd 1) .invalidPersistedValue
  if rangeStart < 0 ∨ rangeEnd < rangeStart ∨
      resultingLogicalSize < currentSize ∨
      resultingLogicalSize < rangeEndExclusive then .error .staleGeneration
  else do
    let replacement := rangeReplacement rangeStart rangeEndExclusive operation dataDigest
    let state ←
      (grownNfsExtents current currentSize resultingLogicalSize).foldlM
        (rebuildNfsExtents replacement rangeStart rangeEndExclusive) ([], false)
    let result ← insertReplacement replacement state
    validateNormalizedNfsExtents result resultingLogicalSize
    .ok result

/-- The loop of `seek_nfs_extent`. -/
def seekNfsExtentFrom (requestedOffset : ℤ) (seekHole : Bool) : List NfsWriteExtent → Option ℤ
  | [] => none
  | extent :: rest =>
    let extentEnd := saturatingAddI64 extent.offsetBytes extent.lengthBytes
    if extentEnd ≤ requestedOffset then
      seekNfsExtentFrom requestedOffset seekHole rest
    else if extent.isHole = seekHole then
      some (max extent.offsetBytes requestedOffset)
    else seekNfsExtentFrom requestedOffset seekHole rest

def seekNfsExtent (logicalSizeBytes requestedOffset : ℤ) (seekHole : Bool) : Option ℤ :=
  if logicalSizeBytes < requestedOffset then none
  else if seekHole ∧ requestedOffset = logicalSizeBytes then
    some logicalSizeBytes
  else match seekNfsExtentFrom requestedOffset seekHole extents with
    | some offset => some offset
    | none => if seekHole then some logicalSizeBytes else none

end FileBelt.Write
