import FileBelt.Domain.Errors
import FileBelt.Domain.Identity
import FileBelt.Support.MachineInt

/-!
# Geometry of an upload

How a declared size becomes a layout, a part count and part sizes, in the API, the
database, the I/O worker and the storage layer.  Columns of type `integer` and `bigint`
are integers, so that the sign checks of the source are kept.
-/

namespace FileBelt.Upload

open Support

structure LimitConfig where
  (wholeThresholdBytes chunkSizeBytes maxParts maxFileBytes uploadTtlSeconds
    generationRecheckSeconds orphanGraceSeconds expiredPartGraceSeconds privateDriveQuotaBytes
    sharedDriveQuotaBytes : ℕ)
  deriving DecidableEq, Repr

/-- Limits of a configuration file that sets none of them. -/
def LimitConfig.default : LimitConfig where
  wholeThresholdBytes := 33554432
  chunkSizeBytes := 16777216
  maxParts := 65536
  maxFileBytes := 1099511627776
  uploadTtlSeconds := 604800
  generationRecheckSeconds := 60
  orphanGraceSeconds := 86400
  expiredPartGraceSeconds := 86400
  privateDriveQuotaBytes := 1099511627776
  sharedDriveQuotaBytes := 10995116277760

def isPowerOfTwo (n : ℕ) : Bool := 2 ^ n.log2 == n

/-- The limits section of the configuration validation. -/
def validateLimits (limits : LimitConfig) : Except ConfigError Unit :=
  if limits.wholeThresholdBytes > 1073741824 then
    .error (.invalid "whole threshold exceeds 1 GiB")
  else if ¬(1048576 ≤ limits.chunkSizeBytes ∧ limits.chunkSizeBytes ≤ 268435456)
      ∨ ¬isPowerOfTwo limits.chunkSizeBytes then
    .error (.invalid "chunk size must be a power of two from 1 to 256 MiB")
  else if ¬(1 ≤ limits.maxParts ∧ limits.maxParts ≤ 1048576) then
    .error (.invalid "part count is outside the accepted envelope")
  else if ¬(1048576 ≤ limits.maxFileBytes ∧ limits.maxFileBytes ≤ 70368744177664) then
    .error (.invalid "maximum file is outside 1 MiB to 64 TiB")
  else if (checkedMul limits.chunkSizeBytes limits.maxParts).all (· < limits.maxFileBytes) then
    .error (.invalid "chunk size and part count cannot represent maximum file")
  else if ¬(300 ≤ limits.uploadTtlSeconds ∧ limits.uploadTtlSeconds ≤ 2592000) then
    .error (.invalid "upload lifetime is outside 5 minutes to 30 days")
  else if ¬(1 ≤ limits.generationRecheckSeconds ∧ limits.generationRecheckSeconds ≤ 60) then
    .error (.invalid "generation recheck must be 1 to 60 seconds")
  else if ¬(3600 ≤ limits.orphanGraceSeconds ∧
      limits.orphanGraceSeconds ≤ 2592000) ∨
      limits.expiredPartGraceSeconds > 604800 then
    .error (.invalid "storage grace period is outside the accepted envelope")
  else if ¬(1073741824 ≤ limits.privateDriveQuotaBytes ∧
      limits.privateDriveQuotaBytes ≤ 1125899906842624) ∨
      ¬(1073741824 ≤ limits.sharedDriveQuotaBytes ∧
        limits.sharedDriveQuotaBytes ≤ 1125899906842624) then
    .error (.invalid "drive quota is outside 1 GiB to 1 PiB")
  else .ok ()

inductive Layout
  | whole | chunked
  deriving DecidableEq, Repr

def tooManyParts : ApiError :=
  .badRequest "upload.too_many_parts" "The upload requires too many parts"

def uploadLayoutAndPartCount (size chunkSize wholeThreshold : ℕ) : Except ApiError (Layout × ℤ) :=
  if size ≤ wholeThreshold then .ok (.whole, 1)
  else do
    let chunkMinusOne ← okOr (checkedSub chunkSize 1) .internal
    let total ← okOr (checkedAdd size chunkMinusOne) .internal
    let parts := max (total / chunkSize) 1
    let partCount ← okOr (toI32 parts) tooManyParts
    .ok (.chunked, partCount)

/-- The values the handler hands to the database. -/
structure UploadPlan where
  (declaredSize chunkSize partCount : ℤ)
  layout : Layout
  deriving DecidableEq, Repr

/-- Size checks and layout choice of the `begin_upload` handler. -/
def planUpload (limits : LimitConfig) (declaredSizeBytes : ℕ) : Except ApiError UploadPlan :=
  if declaredSizeBytes > limits.maxFileBytes then
    .error (.badRequest "upload.too_large" "The declared file size exceeds the configured limit")
  else do
    let chunkSize ← okOr (toI32 limits.chunkSizeBytes) .internal
    let (layout, partCount) ← uploadLayoutAndPartCount declaredSizeBytes
      chunkSize.toNat limits.wholeThresholdBytes
    let parts ← okOr (toUnsigned partCount) .internal
    if parts > limits.maxParts then .error tooManyParts
    else
      let declaredSize ← okOr (toI64 declaredSizeBytes) .internal
      .ok { declaredSize, chunkSize, partCount, layout }

inductive PartState
  | allocated | writing | durable
  deriving DecidableEq, Repr

structure UploadPartRecord where
  partNumber : ℤ
  locator : Uuid
  state : PartState
  sizeBytes : ℤ
  blake3 : Option (List UInt8)
  deriving DecidableEq, Repr

structure UploadRecord where
  tenantId : Uuid
  uploadId : Uuid
  driveId : DriveId
  (payloadId backendId payloadLocator : Uuid)
  (declaredSizeBytes chunkSizeBytes partCount : ℤ)
  deriving DecidableEq, Repr

structure PayloadRecord where
  tenantId : Uuid
  payloadId : Uuid
  driveId : DriveId
  backendId : Uuid
  locator : Uuid
  layout : Layout
  sizeBytes : ℤ
  deriving DecidableEq, Repr

/-- Identifiers of the request and the fresh ones of the transaction. -/
structure UploadIds where
  tenantId : Uuid
  driveId : DriveId
  (backendId uploadId payloadId locator : Uuid)
  partLocator : ℕ → Uuid

/-- The layout check at the head of `begin_upload_tx`. -/
def layoutAccepted (layout : Layout) (partCount : ℤ) : Bool :=
  ¬((layout = .whole ∧ partCount ≠ 1) ∨ (layout = .chunked ∧ partCount < 2))

/-- The `CHECK` constraints of the inserted upload session row. -/
def uploadSessionChecks (plan : UploadPlan) : Bool :=
  0 ≤ plan.declaredSize ∧ 0 < plan.chunkSize ∧ 0 < plan.partCount

def UploadIds.uploadRow (ids : UploadIds) (plan : UploadPlan) : UploadRecord where
  tenantId := ids.tenantId
  uploadId := ids.uploadId
  driveId := ids.driveId
  payloadId := ids.payloadId
  backendId := ids.backendId
  payloadLocator := ids.locator
  declaredSizeBytes := plan.declaredSize
  chunkSizeBytes := plan.chunkSize
  partCount := plan.partCount

def UploadIds.payloadRow (ids : UploadIds) (plan : UploadPlan) : PayloadRecord where
  tenantId := ids.tenantId
  payloadId := ids.payloadId
  driveId := ids.driveId
  backendId := ids.backendId
  locator := ids.locator
  layout := plan.layout
  sizeBytes := plan.declaredSize

def UploadIds.partRow (ids : UploadIds) (part : ℕ) : UploadPartRecord where
  partNumber := part
  locator := ids.partLocator part
  state := .allocated
  sizeBytes := 0
  blake3 := none

structure UploadAllocation where
  upload : UploadRecord
  payload : PayloadRecord
  parts : List UploadPartRecord

/-- The rows that `begin_upload_tx` inserts for an accepted plan. -/
def allocateUpload (ids : UploadIds) (plan : UploadPlan) : Except DatabaseError UploadAllocation :=
  if ¬layoutAccepted plan.layout plan.partCount then
    .error .invalidPersistedValue
  else if ¬uploadSessionChecks plan then .error .sql
  else
    .ok
      { upload := ids.uploadRow plan
        payload := ids.payloadRow plan
        parts := (List.range plan.partCount.toNat).map ids.partRow }

def uploadPartSize (declaredSize chunkSize partCount partNumber : ℕ) : Except ApiError ℕ :=
  if partCount = 0 ∨ partNumber ≥ partCount ∨ chunkSize = 0 then
    .error .internal
  else if partCount = 1 then .ok declaredSize
  else do
    let offset ← okOr (checkedMul partNumber chunkSize) .internal
    let remaining ← okOr (checkedSub declaredSize offset) .internal
    if partNumber + 1 = partCount then .ok remaining
    else if remaining ≥ chunkSize then .ok chunkSize
    else .error .internal

/-- The part size the API computes from an upload row. -/
def apiPartSize (upload : UploadRecord) (partNumber : ℕ) : Except ApiError ℕ := do
  let declaredSize ← okOr (toUnsigned upload.declaredSizeBytes) .internal
  let chunkSize ← okOr (toUnsigned upload.chunkSizeBytes) .internal
  let partCount ← okOr (toUnsigned upload.partCount) .internal
  uploadPartSize declaredSize chunkSize partCount partNumber

/-- The inclusive byte range signed into an upload-part capability. -/
def uploadCapabilityRange (upload : UploadRecord) (partNumber : ℕ) : Except ApiError (ℕ × ℕ) := do
  let partSize ← apiPartSize upload partNumber
  .ok (0, partSize - 1)

def expectedPartSize (upload : UploadRecord) (partNumber : ℤ) : Except AppError ℕ :=
  if partNumber < 0 ∨ partNumber ≥ upload.partCount ∨ upload.partCount ≤ 0 then
    .error (.badRequest "invalid_part_number")
  else do
    let declared ← okOr (toUnsigned upload.declaredSizeBytes) .internal
    let chunk ← okOr (toUnsigned upload.chunkSizeBytes) .internal
    let part ← okOr (toUnsigned partNumber) (.badRequest "invalid_part_number")
    if upload.partCount = 1 then .ok declared
    else
      let offset ← okOr (checkedMul chunk part) .internal
      let remaining ← okOr (checkedSub declared offset) .internal
      if partNumber + 1 = upload.partCount then .ok remaining
      else if remaining ≥ chunk then .ok chunk
      else .error .internal

/-- The range check of the worker. -/
def rangeRefused (expectedSize rangeStart rangeEnd : ℕ) : Bool :=
  rangeStart ≠ 0 ∨ (expectedSize > 0 ∧ rangeEnd ≠ expectedSize - 1) ∨
    (expectedSize = 0 ∧ rangeEnd ≠ 0)

/-- The signed range and the length of the body must be the expected size. -/
def uploadPart (hash : List UInt8 → Vector UInt8 32)
    (upload : UploadRecord) (part : UploadPartRecord) (range : ℕ × ℕ) (body : List UInt8) :
    Except AppError UploadPartRecord := do
  let expectedSize ← expectedPartSize upload part.partNumber
  if rangeRefused expectedSize range.1 range.2 then .error .forbidden
  else if body.length ≠ expectedSize then
    .error (.conflict "part_size_mismatch")
  else
    let size ← okOr (toI32 body.length) (.conflict "part_too_large")
    .ok { part with
      state := .durable, sizeBytes := size, blake3 := some (hash body).toList }

def partUnfinished (part : UploadPartRecord) : Bool :=
  part.state ≠ .durable || part.blake3.all (·.length ≠ 32)

def validateManifest (upload : UploadRecord) (payload : PayloadRecord)
    (parts : List UploadPartRecord) : Except StorageError Unit := do
  let partCount ← okOr (toUnsigned upload.partCount) .stateConflict
  if upload.tenantId ≠ payload.tenantId ∨ upload.driveId ≠ payload.driveId ∨
      upload.backendId ≠ payload.backendId ∨
      upload.payloadId ≠ payload.payloadId ∨
      upload.payloadLocator ≠ payload.locator ∨
      parts.length ≠ partCount ∨ parts.any partUnfinished ∨
      (payload.layout = .whole ∧ parts.length ≠ 1) ∨
      (payload.layout = .chunked ∧ parts.length < 2) ∨
      parts.zipIdx.any fun (part, index) =>
        toUnsigned part.partNumber ≠ some index
  then .error .stateConflict
  else .ok ()

end FileBelt.Upload
