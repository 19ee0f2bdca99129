import FileBelt.Nfs.Wire

/-!
# VFS responses

The bridge encodes a `VfsResponse`, and `filebelt_protocol.c` parses it by hand: the
envelope first, attributes and directory entries when a callback asks for them.  A
parsed slice is `none` for the null pointer, which is what an empty string becomes.
File-system information, access lists, lock conflicts and gateway admission are kept
encoded.
-/

namespace FileBelt.Nfs

open Support Support.Protobuf

/-! ## The messages -/

inductive VfsError
  | unspecified | ok | invalidRequest | unauthenticated | accessDenied | notFound | alreadyExists
  | notDirectory | isDirectory | directoryNotEmpty | nameInvalid | conflict | staleGeneration
  | lockConflict | leaseBreakRequired | quotaExceeded | storageUnavailable | rateLimited
  | notSupported | unavailable
  deriving DecidableEq, Repr

def VfsError.code : VfsError → ℕ
  | .unspecified => 0
  | .ok => 1
  | .invalidRequest => 2
  | .unauthenticated => 3
  | .accessDenied => 4
  | .notFound => 5
  | .alreadyExists => 6
  | .notDirectory => 7
  | .isDirectory => 8
  | .directoryNotEmpty => 9
  | .nameInvalid => 10
  | .conflict => 11
  | .staleGeneration => 12
  | .lockConflict => 13
  | .leaseBreakRequired => 14
  | .quotaExceeded => 15
  | .storageUnavailable => 16
  | .rateLimited => 17
  | .notSupported => 18
  | .unavailable => 19

inductive NodeKind
  | unspecified | file | directory | symlink
  deriving DecidableEq, Repr

def NodeKind.code : NodeKind → ℕ
  | .unspecified => 0
  | .file => 1
  | .directory => 2
  | .symlink => 3

structure NodeAttributes where
  kind : NodeKind
  sizeBytes : UInt64
  headVersionId : List Byte
  namespaceGeneration : UInt64
  aclGeneration : UInt64
  modifiedAtUnixSeconds : Int64
  readOnly : Bool
  mode : UInt32
  projectedUid : UInt64
  projectedGid : UInt64
  linkCount : UInt32
  sparse : Bool
  (accessedAtUnixSeconds createdAtUnixSeconds changedAtUnixSeconds : Int64)
  ownerName : List Byte
  groupName : List Byte
  deriving DecidableEq

/-- A signed scalar, in two's complement. -/
def sint (v : Int64) : List Payload := uint v.toUInt64.toNat

def NodeAttributes.slots (a : NodeAttributes) : List Slot :=
  [(1, uint a.kind.code), (2, uint a.sizeBytes.toNat), (3, blob a.headVersionId),
    (4, uint a.namespaceGeneration.toNat), (5, uint a.aclGeneration.toNat),
    (6, sint a.modifiedAtUnixSeconds), (7, flag a.readOnly),
    (8, uint a.mode.toNat), (9, uint a.projectedUid.toNat),
    (10, uint a.projectedGid.toNat), (11, uint a.linkCount.toNat),
    (12, flag a.sparse), (13, sint a.accessedAtUnixSeconds),
    (14, sint a.createdAtUnixSeconds), (15, sint a.changedAtUnixSeconds),
    (16, blob a.ownerName), (17, blob a.groupName)]

def NodeAttributes.encodeToVec (a : NodeAttributes) : List Byte := encode (fields a.slots)

structure DirectoryEntry where
  resourceId : List Byte
  displayName : List Byte
  attributes : Option NodeAttributes
  persistentHandle : List Byte
  deriving DecidableEq

variable (e : DirectoryEntry)

def DirectoryEntry.slots : List Slot :=
  [(1, blob e.resourceId), (2, blob e.displayName),
    (3, message (e.attributes.map NodeAttributes.encodeToVec)),
    (4, blob e.persistentHandle)]

def DirectoryEntry.encodeToVec : List Byte := encode (fields e.slots)

structure NfsSessionProjection where
  posixName : List Byte
  primaryGroupName : List Byte
  (projectedUid projectedGid mappingGeneration featureGeneration : UInt64)
  absoluteExpiresAtUnixSeconds : Int64
  allowedExportIds : List UInt64
  deriving DecidableEq

def NfsSessionProjection.slots (p : NfsSessionProjection) : List Slot :=
  [(1, blob p.posixName), (2, blob p.primaryGroupName),
    (3, uint p.projectedUid.toNat), (4, uint p.projectedGid.toNat),
    (5, uint p.mappingGeneration.toNat), (6, uint p.featureGeneration.toNat),
    (7, sint p.absoluteExpiresAtUnixSeconds),
    (8, packed (p.allowedExportIds.map UInt64.toNat))]

def NfsSessionProjection.encodeToVec (p : NfsSessionProjection) : List Byte :=
  encode (fields p.slots)

structure VfsResponse where
  protocolVersion : UInt32
  requestId : List Byte
  error : VfsError
  (reasonCode sessionId handleId writeSessionId lockId leaseId versionId : List Byte := [])
  (credentialGeneration authorizationGeneration fencingToken : UInt64 := 0)
  passivePort : UInt32 := 0
  data : List Byte := []
  attributes : Option NodeAttributes := none
  entries : List DirectoryEntry := []
  nextCursor : List Byte := []
  gatewayEpoch : UInt64 := 0
  xattrValue : List Byte := []
  xattrNames : List (List Byte) := []
  (symlinkTarget stateId resourceId persistentHandle : List Byte := [])
  exportId : UInt64 := 0
  (nfsGatewayHello filesystemInfo acl : Option (List Byte) := none)
  sparseOffset : UInt64 := 0
  endOfFile : Bool := false
  allowedActions : List ℕ := []
  nfsSessionProjection : Option NfsSessionProjection := none
  lockConflict : Option (List Byte) := none
  deriving DecidableEq

variable (r : VfsResponse)

def VfsResponse.slots : List Slot :=
  [(1, uint r.protocolVersion.toNat), (2, blob r.requestId),
    (3, uint r.error.code), (4, blob r.reasonCode), (5, blob r.sessionId),
    (6, blob r.handleId), (7, blob r.writeSessionId), (8, blob r.lockId),
    (9, blob r.leaseId), (10, blob r.versionId),
    (11, uint r.credentialGeneration.toNat),
    (12, uint r.authorizationGeneration.toNat), (13, uint r.fencingToken.toNat),
    (14, uint r.passivePort.toNat), (15, blob r.data),
    (16, message (r.attributes.map NodeAttributes.encodeToVec)),
    (17, repeated (r.entries.map DirectoryEntry.encodeToVec)),
    (18, blob r.nextCursor), (19, uint r.gatewayEpoch.toNat),
    (20, blob r.xattrValue), (21, repeated r.xattrNames),
    (22, blob r.symlinkTarget), (23, blob r.stateId), (24, blob r.resourceId),
    (25, blob r.persistentHandle), (26, uint r.exportId.toNat),
    (27, message r.nfsGatewayHello), (28, message r.filesystemInfo),
    (29, message r.acl), (30, uint r.sparseOffset.toNat),
    (31, flag r.endOfFile), (32, packed r.allowedActions),
    (33, message (r.nfsSessionProjection.map NfsSessionProjection.encodeToVec)),
    (34, message r.lockConflict)]

def VfsResponse.encodeToVec : List Byte := encode (fields r.slots)

def protocolVersion : UInt32 := 1

def VfsResponse.failure (requestId : List Byte) (error : VfsError)
    (reasonCode : List Byte) : VfsResponse where
  protocolVersion := Nfs.protocolVersion
  requestId := requestId
  error := error
  reasonCode := reasonCode

/-! ## The parsers -/

/-- `struct filebelt_slice`. -/
abbrev Slice := Option (List Byte)

/-- The slice of a string that is left out when empty. -/
def slice (b : List Byte) : Slice := if b = [] then none else some b

def setSlice : Payload → Slice → Option Slice
  | .bytes b, none => some (some b)
  | _, _ => none

/-- `field->varint`, zero for other wire types. -/
def Payload.value : Payload → ℕ
  | .varint v => v
  | .bytes _ => 0

structure FilebeltNodeAttributes where
  (kind sizeBytes namespaceGeneration aclGeneration : ℕ := 0)
  modifiedAt : ℤ := 0
  readOnly : Bool := false
  (mode uid gid linkCount : ℕ := 0)
  sparse : Bool := false
  (accessedAt createdAt changedAt : ℤ := 0)
  (headVersionId ownerName groupName : Slice := none)
  deriving DecidableEq, Repr

def attributesStep (a : FilebeltNodeAttributes) (f : Field) : Option FilebeltNodeAttributes :=
  let v := Payload.value f.payload
  match f.number with
  | 1 => some { a with kind := v % 2 ^ 32 }
  | 2 => some { a with sizeBytes := v }
  | 3 => (setSlice f.payload a.headVersionId).map fun x =>
    { a with headVersionId := x }
  | 4 => some { a with namespaceGeneration := v }
  | 5 => some { a with aclGeneration := v }
  | 6 => some { a with modifiedAt := asI64 v }
  | 7 => some { a with readOnly := v ≠ 0 }
  | 8 => some { a with mode := v % 2 ^ 32 }
  | 9 => some { a with uid := v }
  | 10 => some { a with gid := v }
  | 11 => some { a with linkCount := v % 2 ^ 32 }
  | 12 => some { a with sparse := v ≠ 0 }
  | 13 => some { a with accessedAt := asI64 v }
  | 14 => some { a with createdAt := asI64 v }
  | 15 => some { a with changedAt := asI64 v }
  | 16 => (setSlice f.payload a.ownerName).map fun x => { a with ownerName := x }
  | 17 => (setSlice f.payload a.groupName).map fun x => { a with groupName := x }
  | _ => none

def filebeltAttributesParse (encoded : Slice) : Option FilebeltNodeAttributes := do
  let a ← filebeltPbScan attributesStep {} (← encoded)
  if 1 ≤ a.kind ∧ a.kind ≤ 3 ∧ a.namespaceGeneration ≠ 0 ∧ a.aclGeneration ≠ 0 ∧
      a.mode ≤ 0o777 then some a
  else none

def filebeltHandleBytes : ℕ := 101

structure FilebeltDirectoryEntry where
  (resourceId displayName persistentHandle : Slice)
  attributes : FilebeltNodeAttributes
  deriving DecidableEq, Repr

/-- The slices of an entry while it is parsed. -/
structure EntryParse where
  (resourceId displayName attributes persistentHandle : Slice := none)

def entryStep (e : EntryParse) (f : Field) : Option EntryParse :=
  match f.number with
  | 1 => (setSlice f.payload e.resourceId).map fun x => { e with resourceId := x }
  | 2 => (setSlice f.payload e.displayName).map fun x =>
    { e with displayName := x }
  | 3 => (setSlice f.payload e.attributes).map fun x => { e with attributes := x }
  | 4 => (setSlice f.payload e.persistentHandle).map fun x =>
    { e with persistentHandle := x }
  | _ => none

/-- The length of a slice, zero for the null pointer. -/
def Slice.length (s : Slice) : ℕ := (s.getD []).length

def parseEntry (encoded : List Byte) : Option FilebeltDirectoryEntry := do
  let e ← filebeltPbScan entryStep {} encoded
  if Slice.length e.resourceId ≠ 36 ∨ Slice.length e.displayName = 0 ∨
      Slice.length e.persistentHandle ≠ filebeltHandleBytes then none
  else
    let attributes ← filebeltAttributesParse e.attributes
    some ⟨e.resourceId, e.displayName, e.persistentHandle, attributes⟩

structure FilebeltResponse where
  (error fencingToken exportId sparseOffset : ℕ := 0)
  endOfFile : Bool := false
  (handleId writeSessionId lockId versionId data attributes nextCursor xattrValue symlinkTarget
    stateId resourceId persistentHandle filesystemInfo acl lockConflict : Slice := none)
  encoded : List Byte
  deriving DecidableEq, Repr

/-- The response and the required fields seen so far. -/
structure ResponseParse extends FilebeltResponse where
  (sawProtocol sawRequest sawError : Bool := false)

def responseStep (p : ResponseParse) (f : Field) : Option ResponseParse :=
  let v := Payload.value f.payload
  let varintField (refused : Bool) (next : ResponseParse) :=
    if f.payload.wireType ≠ 0 ∨ refused then none else some next
  let sliceField (old : Slice) (next : Slice → ResponseParse) := (setSlice f.payload old).map next
  let repeatedField := if f.payload.wireType ≠ 2 then none else some p
  match f.number with
  | 1 => varintField (p.sawProtocol || v != 1) { p with sawProtocol := true }
  | 2 =>
    match f.payload with
    | .bytes b =>
      if p.sawRequest ∨ b.length ≠ 36 then none
      else some { p with sawRequest := true }
    | .varint _ => none
  | 3 => varintField (p.sawError || 19 < v) { p with error := v, sawError := true }
  | 6 => sliceField p.handleId fun x => { p with handleId := x }
  | 7 => sliceField p.writeSessionId fun x => { p with writeSessionId := x }
  | 8 => sliceField p.lockId fun x => { p with lockId := x }
  | 10 => sliceField p.versionId fun x => { p with versionId := x }
  | 13 => varintField (p.fencingToken != 0) { p with fencingToken := v }
  | 15 => sliceField p.data fun x => { p with data := x }
  | 16 => sliceField p.attributes fun x => { p with attributes := x }
  | 17 => repeatedField
  | 18 => sliceField p.nextCursor fun x => { p with nextCursor := x }
  | 20 => sliceField p.xattrValue fun x => { p with xattrValue := x }
  | 21 => repeatedField
  | 22 => sliceField p.symlinkTarget fun x => { p with symlinkTarget := x }
  | 23 => sliceField p.stateId fun x => { p with stateId := x }
  | 24 => sliceField p.resourceId fun x => { p with resourceId := x }
  | 25 => sliceField p.persistentHandle fun x => { p with persistentHandle := x }
  | 26 => varintField (p.exportId != 0) { p with exportId := v }
  | 28 => sliceField p.filesystemInfo fun x => { p with filesystemInfo := x }
  | 29 => sliceField p.acl fun x => { p with acl := x }
  | 30 => varintField (p.sparseOffset != 0) { p with sparseOffset := v }
  | 31 => varintField (1 < v) { p with endOfFile := v ≠ 0 }
  | 32 => repeatedField
  | 34 => sliceField p.lockConflict fun x => { p with lockConflict := x }
  | n => if 34 < n then none else some p

def filebeltResponseParse (encoded : List Byte) : Option FilebeltResponse := do
  let p ← filebeltPbScan responseStep { encoded := encoded } encoded
  if p.sawProtocol ∧ p.sawRequest ∧ p.sawError ∧ p.error ≠ 0 then
    some p.toFilebeltResponse
  else none

/-- The directory entries of a response, unparsed. -/
def entriesStep (entries : List (List Byte)) (f : Field) : Option (List (List Byte)) :=
  match f.number, f.payload with
  | 17, .bytes b => some (entries ++ [b])
  | _, _ => some entries

variable (response : FilebeltResponse)

def FilebeltResponse.entries : Option (List (List Byte)) :=
  filebeltPbScan entriesStep [] response.encoded

def filebeltResponseEntryCount : ℕ :=
  response.entries.elim 0 List.length

/-- The scan for one entry; the response was parsed to its end before. -/
def filebeltResponseEntry (wanted : ℕ) : Option FilebeltDirectoryEntry := do
  let entries ← response.entries
  let encoded ← entries[wanted]?
  parseEntry encoded

/-! ## What the parsers should return -/

def FilebeltNodeAttributes.ofMessage (a : NodeAttributes) : FilebeltNodeAttributes where
  kind := a.kind.code
  sizeBytes := a.sizeBytes.toNat
  namespaceGeneration := a.namespaceGeneration.toNat
  aclGeneration := a.aclGeneration.toNat
  modifiedAt := a.modifiedAtUnixSeconds.toInt
  readOnly := a.readOnly
  mode := a.mode.toNat
  uid := a.projectedUid.toNat
  gid := a.projectedGid.toNat
  linkCount := a.linkCount.toNat
  sparse := a.sparse
  accessedAt := a.accessedAtUnixSeconds.toInt
  createdAt := a.createdAtUnixSeconds.toInt
  changedAt := a.changedAtUnixSeconds.toInt
  headVersionId := slice a.headVersionId
  ownerName := slice a.ownerName
  groupName := slice a.groupName

def FilebeltDirectoryEntry.ofMessage (e : DirectoryEntry) : Option FilebeltDirectoryEntry :=
  e.attributes.map fun a =>
    ⟨slice e.resourceId, slice e.displayName, slice e.persistentHandle, .ofMessage a⟩

def FilebeltResponse.ofMessage : FilebeltResponse where
  error := r.error.code
  fencingToken := r.fencingToken.toNat
  exportId := r.exportId.toNat
  sparseOffset := r.sparseOffset.toNat
  endOfFile := r.endOfFile
  handleId := slice r.handleId
  writeSessionId := slice r.writeSessionId
  lockId := slice r.lockId
  versionId := slice r.versionId
  data := slice r.data
  attributes := r.attributes.map NodeAttributes.encodeToVec
  nextCursor := slice r.nextCursor
  xattrValue := slice r.xattrValue
  symlinkTarget := slice r.symlinkTarget
  stateId := slice r.stateId
  resourceId := slice r.resourceId
  persistentHandle := slice r.persistentHandle
  filesystemInfo := r.filesystemInfo
  acl := r.acl
  lockConflict := r.lockConflict
  encoded := r.encodeToVec

/-! ## Rules for slots -/

variable {payload : Payload} {payloads : List Payload} {slots : List Slot} {a : NodeAttributes}
  {b : List Byte}

section

variable {σ α : Type} {step : σ → Field → Option σ} {s : σ} {n v : ℕ} {slots : List Slot}
  {out : Option σ}

theorem foldlM_slice (set : σ → Slice → σ)
    (hrest : (fields slots).foldlM step (set s (slice b)) = out) (hnone : set s none = s := by rfl)
    (h : ∀ b, step s ⟨n, .bytes b⟩ = some (set s (some b)) := by intros; rfl) :
    (fields ((n, blob b) :: slots)).foldlM step s = out := by
  refine foldlM_blob (fun s b => set s (slice b)) hrest hnone fun hb => ?_
  rw [h, slice, if_neg hb]

/-- A scalar that `read` turns into the value of the parsed field. -/
theorem foldlM_scalar (read : ℕ → α) (set : σ → α → σ) {x : α} (hx : read v = x)
    (hrest : (fields slots).foldlM step (set s x) = out) (hzero : set s (read 0) = s := by rfl)
    (h : v ≠ 0 → step s ⟨n, .varint v⟩ = some (set s (read v)) := by intros; rfl) :
    (fields ((n, uint v) :: slots)).foldlM step s = out := by
  subst hx
  exact foldlM_uint (fun s v => set s (read v)) hrest hzero h

theorem foldlM_single (set : σ → σ) (hpayloads : payloads = [payload])
    (h : step s ⟨n, payload⟩ = some (set s)) (hrest : (fields slots).foldlM step (set s) = out) :
    (fields ((n, payloads) :: slots)).foldlM step s = out := by
  rw [← hrest, foldlM_fields_cons, hpayloads]
  simp [h]

theorem foldlM_bytes (hbytes : ∀ payload ∈ payloads, ∃ b, payload = .bytes b)
    (hrest : (fields slots).foldlM step s = out)
    (h : ∀ b, step s ⟨n, .bytes b⟩ = some s := by intros; rfl) :
    (fields ((n, payloads) :: slots)).foldlM step s = out := by
  refine foldlM_ignored hrest fun payload hpayload => ?_
  obtain ⟨b, rfl⟩ := hbytes payload hpayload
  exact h b

end

theorem toNat_mod_two_pow (v : UInt32) : v.toNat % 2 ^ 32 = v.toNat := Nat.mod_eq_of_lt v.toNat_lt

/-! ## Attributes -/

/-- What `validate_attributes` demands and the parser checks again. -/
def NodeAttributes.valid (a : NodeAttributes) : Bool :=
  a.kind ≠ .unspecified && a.namespaceGeneration ≠ 0 && a.aclGeneration ≠ 0 && a.mode ≤ 0o777

theorem NodeKind.code_lt (k : NodeKind) : k.code < 4 := by
  cases k <;> decide

@[simp]
theorem scalars_sint (v : Int64) : Scalars (sint v) := scalars_uint64 v.toUInt64

theorem NodeAttributes.slots_scalars (a : NodeAttributes) : ∀ slot ∈ a.slots, Scalars slot.2 := by
  have hcode := a.kind.code_lt
  have hkind : Scalars (uint a.kind.code) := scalars_uint (by omega)
  simp [slots, hkind]

theorem attributesStep_slots (a : NodeAttributes) :
    (fields a.slots).foldlM attributesStep {} = some (.ofMessage a) := by
  have hkind : a.kind.code % 2 ^ 32 = a.kind.code :=
    Nat.mod_eq_of_lt (by have := a.kind.code_lt; omega)
  refine foldlM_scalar (· % 2 ^ 32) (fun s x => { s with kind := x }) hkind ?_
  refine foldlM_uint (fun s x => { s with sizeBytes := x }) ?_
  refine foldlM_slice (fun s x => { s with headVersionId := x }) ?_
  refine foldlM_uint (fun s x => { s with namespaceGeneration := x }) ?_
  refine foldlM_uint (fun s x => { s with aclGeneration := x }) ?_
  refine foldlM_scalar asI64 (fun s x => { s with modifiedAt := x }) (asI64_toUInt64 _) ?_
  refine foldlM_flag (fun s x => { s with readOnly := x }) ?_
  refine foldlM_scalar (· % 2 ^ 32) (fun s x => { s with mode := x }) (toNat_mod_two_pow _) ?_
  refine foldlM_uint (fun s x => { s with uid := x }) ?_
  refine foldlM_uint (fun s x => { s with gid := x }) ?_
  refine foldlM_scalar (· % 2 ^ 32) (fun s x => { s with linkCount := x }) (toNat_mod_two_pow _) ?_
  refine foldlM_flag (fun s x => { s with sparse := x }) ?_
  refine foldlM_scalar asI64 (fun s x => { s with accessedAt := x }) (asI64_toUInt64 _) ?_
  refine foldlM_scalar asI64 (fun s x => { s with createdAt := x }) (asI64_toUInt64 _) ?_
  refine foldlM_scalar asI64 (fun s x => { s with changedAt := x }) (asI64_toUInt64 _) ?_
  refine foldlM_slice (fun s x => { s with ownerName := x }) ?_
  refine foldlM_slice (fun s x => { s with groupName := x }) ?_
  rfl

theorem filebeltAttributesParse_encodeToVec (hlength : a.encodeToVec.length < 2 ^ 64) :
    filebeltAttributesParse (some a.encodeToVec) =
      if a.valid then some (.ofMessage a) else none := by
  have hscan : filebeltPbScan attributesStep {} a.encodeToVec =
      some (.ofMessage a) := by
    rw [← attributesStep_slots a]
    exact filebeltPbScan_message attributesStep _ (n := 17) rfl (by decide) a.slots_scalars hlength
  have hkind : 1 ≤ a.kind.code ∧ a.kind.code ≤ 3 ↔ a.kind ≠ .unspecified := by
    cases a.kind <;> decide
  have hzero : ∀ v : UInt64, v.toNat ≠ 0 ↔ v ≠ 0 :=
    fun v => not_congr (show v.toNat = (0 : UInt64).toNat ↔ v = 0 from UInt64.toNat_inj)
  change (filebeltPbScan attributesStep {} a.encodeToVec).bind _ = _
  rw [hscan, Option.bind_some]
  refine if_congr ?_ rfl rfl
  simp only [NodeAttributes.valid, Bool.and_eq_true, decide_eq_true_eq, ← hkind, ← hzero, and_assoc]
  rfl

/-! ## Directory entries -/

/-- An entry as the NFS listing returns it. -/
def DirectoryEntry.complete : Bool :=
  e.resourceId.length == 36 && e.displayName ≠ [] &&
    e.attributes.any NodeAttributes.valid &&
    e.persistentHandle.length == filebeltHandleBytes

theorem DirectoryEntry.slots_scalars : ∀ slot ∈ e.slots, Scalars slot.2 := by
  simp [slots]

theorem entryStep_slots : (fields e.slots).foldlM entryStep {} =
      some ⟨slice e.resourceId, slice e.displayName, e.attributes.map NodeAttributes.encodeToVec,
        slice e.persistentHandle⟩ := by
  refine foldlM_slice (fun s x => { s with resourceId := x }) ?_
  refine foldlM_slice (fun s x => { s with displayName := x }) ?_
  refine foldlM_message (fun s x => { s with attributes := x }) ?_
  refine foldlM_slice (fun s x => { s with persistentHandle := x }) ?_
  rfl

theorem slice_length (b : List Byte) : Slice.length (slice b) = b.length := by
  rw [slice]
  split
  · next h => rw [h]; rfl
  · rfl

theorem payload_length_le {slot : Slot} (hslot : slot ∈ slots) (hb : .bytes b ∈ slot.2) :
    b.length ≤ (encode (fields slots)).length :=
  length_le_of_mem (mem_fields.mpr ⟨slot, hslot, rfl, hb⟩)

theorem attributes_length_le {n : ℕ} {attributes : Option NodeAttributes} (ha : attributes = some a)
    (hslot : (n, message (attributes.map NodeAttributes.encodeToVec)) ∈ slots) :
    a.encodeToVec.length ≤ (encode (fields slots)).length := by
  rw [ha] at hslot
  exact payload_length_le hslot (List.mem_singleton_self _)

theorem parseEntry_encodeToVec {e : DirectoryEntry} (hlength : e.encodeToVec.length < 2 ^ 64) :
    parseEntry e.encodeToVec =
      if e.complete then FilebeltDirectoryEntry.ofMessage e else none := by
  have hscan : filebeltPbScan entryStep {} e.encodeToVec =
      some ⟨slice e.resourceId, slice e.displayName, e.attributes.map NodeAttributes.encodeToVec,
        slice e.persistentHandle⟩ := by
    rw [← entryStep_slots e]
    exact filebeltPbScan_message entryStep {} (n := 4) rfl (by decide) e.slots_scalars hlength
  have hattributes : filebeltAttributesParse (e.attributes.map NodeAttributes.encodeToVec) =
      (e.attributes.filter NodeAttributes.valid).map .ofMessage := by
    cases ha : e.attributes with
    | none => rfl
    | some a =>
      have hle : a.encodeToVec.length ≤ e.encodeToVec.length :=
        attributes_length_le ha (List.mem_cons_of_mem _ (List.mem_cons_of_mem _ List.mem_cons_self))
      rw [Option.map_some, filebeltAttributesParse_encodeToVec (Nat.lt_of_le_of_lt hle hlength),
        Option.filter_some]
      split <;> rfl
  change (filebeltPbScan entryStep {} e.encodeToVec).bind _ = _
  rw [hscan, Option.bind_some]
  change (if _ then none else (filebeltAttributesParse _).bind _) = _
  rw [hattributes, FilebeltDirectoryEntry.ofMessage, DirectoryEntry.complete]
  simp only [slice_length]
  cases e.attributes with
  | none => simp
  | some a =>
    by_cases hvalid : a.valid = true
    · rw [Option.filter_some_pos hvalid]
      grind
    · simp [hvalid]

theorem entriesStep_other {f : Field} (hf : f.number ≠ 17)
    (s : List (List Byte)) : entriesStep s f = some s := by
  rw [entriesStep]
  split
  · next hnumber _ => exact absurd hnumber hf
  · rfl

theorem entriesStep_others (h : 17 ∉ slots.map Prod.fst) (s : List (List Byte)) :
    (fields slots).foldlM entriesStep s = some s := by
  induction slots with
  | nil => rfl
  | cons slot slots ih =>
    rw [List.map_cons, List.mem_cons, not_or] at h
    exact foldlM_ignored (ih h.2) fun _ _ => entriesStep_other (Ne.symm h.1) s

theorem entriesStep_entries (ms : List (List Byte)) (s : List (List Byte)) :
    ((repeated ms).map (Protobuf.Field.mk 17)).foldlM entriesStep s = some (s ++ ms) := by
  induction ms generalizing s with
  | nil => simp [repeated]
  | cons m ms ih =>
    refine (ih (s ++ [m])).trans ?_
    rw [List.append_assoc, List.singleton_append]

theorem entriesStep_slots :
    (fields r.slots).foldlM entriesStep [] = some (r.entries.map DirectoryEntry.encodeToVec) := by
  have hsplit : r.slots = r.slots.take 16 ++
      (17, repeated (r.entries.map DirectoryEntry.encodeToVec)) ::
        r.slots.drop 17 := rfl
  have hbefore : (r.slots.take 16).map Prod.fst = List.range' 1 16 := rfl
  have hafter : (r.slots.drop 17).map Prod.fst = List.range' 18 17 := rfl
  rw [hsplit, fields, List.flatMap_append, List.foldlM_append]
  change ((fields (r.slots.take 16)).foldlM entriesStep []).bind _ = _
  rw [entriesStep_others (by rw [hbefore]; decide)]
  change (fields ((17, _) :: r.slots.drop 17)).foldlM entriesStep [] = _
  rw [foldlM_fields_cons, entriesStep_entries, Option.bind_some,
    entriesStep_others (by rw [hafter]; decide), List.nil_append]

/-! ## Responses -/

theorem VfsError.code_le (e : VfsError) : e.code ≤ 19 := by
  cases e <;> decide

theorem VfsError.code_ne_zero {e : VfsError} (h : e ≠ .unspecified) : e.code ≠ 0 := by
  cases e with
  | unspecified => exact absurd rfl h
  | _ => decide

theorem repeated_bytes {ms : List (List Byte)}
    (h : payload ∈ repeated ms) : ∃ b, payload = .bytes b := by
  obtain ⟨b, -, rfl⟩ := List.mem_map.mp h
  exact ⟨b, rfl⟩

theorem packed_bytes {vs : List ℕ} (h : payload ∈ packed vs) : ∃ b, payload = .bytes b := by
  rw [packed] at h
  split at h
  · cases h
  · exact ⟨_, List.mem_singleton.mp h⟩

/-- What `validate_for` demands of the envelope. -/
def VfsResponse.envelopeValid : Bool :=
  r.protocolVersion == Nfs.protocolVersion && r.requestId.length == 36 && r.error ≠ .unspecified

theorem responseStep_slots {r : VfsResponse} (h : r.envelopeValid) :
    (fields r.slots).foldlM responseStep { encoded := r.encodeToVec } =
      some ⟨.ofMessage r, true, true, true⟩ := by
  simp only [VfsResponse.envelopeValid, Bool.and_eq_true, beq_iff_eq, decide_eq_true_eq] at h
  obtain ⟨⟨hversion, hrequest⟩, herror⟩ := h
  have hversion' : uint r.protocolVersion.toNat = [.varint 1] := by
    rw [hversion]
    rfl
  have hrequest' : blob r.requestId = [.bytes r.requestId] := by
    refine if_neg fun hnil => ?_
    rw [hnil] at hrequest
    cases hrequest
  have herror' : uint r.error.code = [.varint r.error.code] := if_neg (VfsError.code_ne_zero herror)
  -- the three required fields, then the others in the order of their numbers
  refine foldlM_single (fun p => { p with sawProtocol := true }) hversion' ?_ ?_
  · rfl
  refine foldlM_single (fun p => { p with sawRequest := true }) hrequest' ?_ ?_
  · exact if_neg (by simp [hrequest])
  refine foldlM_single (fun p => { p with error := r.error.code, sawError := true }) herror' ?_ ?_
  · refine if_neg ?_
    rintro (htype | hlarge)
    · exact htype rfl
    · have hbound : 19 < r.error.code := of_decide_eq_true hlarge
      exact Nat.not_lt.mpr r.error.code_le hbound
  refine foldlM_ignored ?_
  refine foldlM_ignored ?_
  refine foldlM_slice (fun p x => { p with handleId := x }) ?_
  refine foldlM_slice (fun p x => { p with writeSessionId := x }) ?_
  refine foldlM_slice (fun p x => { p with lockId := x }) ?_
  refine foldlM_ignored ?_
  refine foldlM_slice (fun p x => { p with versionId := x }) ?_
  refine foldlM_ignored ?_
  refine foldlM_ignored ?_
  refine foldlM_uint (fun p x => { p with fencingToken := x }) ?_
  refine foldlM_ignored ?_
  refine foldlM_slice (fun p x => { p with data := x }) ?_
  refine foldlM_message (fun p x => { p with attributes := x }) ?_
  refine foldlM_bytes (fun _ => repeated_bytes) ?_
  refine foldlM_slice (fun p x => { p with nextCursor := x }) ?_
  refine foldlM_ignored ?_
  refine foldlM_slice (fun p x => { p with xattrValue := x }) ?_
  refine foldlM_bytes (fun _ => repeated_bytes) ?_
  refine foldlM_slice (fun p x => { p with symlinkTarget := x }) ?_
  refine foldlM_slice (fun p x => { p with stateId := x }) ?_
  refine foldlM_slice (fun p x => { p with resourceId := x }) ?_
  refine foldlM_slice (fun p x => { p with persistentHandle := x }) ?_
  refine foldlM_uint (fun p x => { p with exportId := x }) ?_
  refine foldlM_ignored ?_
  refine foldlM_message (fun p x => { p with filesystemInfo := x }) ?_
  refine foldlM_message (fun p x => { p with acl := x }) ?_
  refine foldlM_uint (fun p x => { p with sparseOffset := x }) ?_
  refine foldlM_flag (fun p x => { p with endOfFile := x }) ?_
  refine foldlM_bytes (fun _ => packed_bytes) ?_
  refine foldlM_ignored ?_
  refine foldlM_message (fun p x => { p with lockConflict := x }) ?_
  rfl

theorem VfsResponse.slots_scalars : ∀ slot ∈ r.slots, Scalars slot.2 := by
  have hcode := r.error.code_le
  have herror : Scalars (uint r.error.code) := scalars_uint (by omega)
  simp [slots, herror]

variable {r : VfsResponse} (hlength : r.encodeToVec.length < 2 ^ 64)
include hlength

/-- The parser of the envelope returns the fields of the response. -/
theorem filebeltResponseParse_encodeToVec (h : r.envelopeValid) :
    filebeltResponseParse r.encodeToVec = some (.ofMessage r) := by
  have hscan : filebeltPbScan responseStep { encoded := r.encodeToVec }
      r.encodeToVec = some ⟨.ofMessage r, true, true, true⟩ := by
    rw [← responseStep_slots h]
    exact filebeltPbScan_message responseStep _ (n := 34) rfl (by decide) r.slots_scalars hlength
  change (filebeltPbScan responseStep { encoded := r.encodeToVec } r.encodeToVec).bind _ = _
  simp only [VfsResponse.envelopeValid, Bool.and_eq_true, decide_eq_true_eq] at h
  rw [hscan]
  exact if_pos ⟨rfl, rfl, rfl, VfsError.code_ne_zero h.2⟩

theorem FilebeltResponse.entries_ofMessage :
    (FilebeltResponse.ofMessage r).entries = some (r.entries.map DirectoryEntry.encodeToVec) := by
  rw [← entriesStep_slots r]
  exact filebeltPbScan_message entriesStep _ (n := 34) rfl (by decide) r.slots_scalars hlength

theorem filebeltResponseEntryCount_ofMessage :
    filebeltResponseEntryCount (.ofMessage r) = r.entries.length := by
  rw [filebeltResponseEntryCount, FilebeltResponse.entries_ofMessage hlength]
  exact List.length_map _

/-- The parser of entries returns them by their position if and only if they are complete. -/
theorem filebeltResponseEntry_ofMessage :
    (∀ i e, r.entries[i]? = some e → ∃ entry, filebeltResponseEntry (.ofMessage r) i = some entry ∧
      FilebeltDirectoryEntry.ofMessage e = some entry) ↔
        r.entries.all DirectoryEntry.complete := by
  have hunfold : ∀ i e, r.entries[i]? = some e → filebeltResponseEntry (.ofMessage r) i =
      if e.complete then FilebeltDirectoryEntry.ofMessage e else none := by
    intro i e hget
    have hslot : (17, repeated (r.entries.map DirectoryEntry.encodeToVec)) ∈
        r.slots := by simp [VfsResponse.slots]
    have hle : e.encodeToVec.length ≤ r.encodeToVec.length := by
      refine payload_length_le hslot ?_
      exact List.mem_map_of_mem (List.mem_map_of_mem (List.mem_of_getElem? hget))
    rw [← parseEntry_encodeToVec (Nat.lt_of_le_of_lt hle hlength), filebeltResponseEntry,
      FilebeltResponse.entries_ofMessage hlength]
    change (r.entries.map DirectoryEntry.encodeToVec)[i]?.bind parseEntry = _
    rw [List.getElem?_map, hget]
    rfl
  rw [List.all_eq_true]
  constructor
  · intro h e he
    obtain ⟨i, hi⟩ := List.mem_iff_getElem?.mp he
    obtain ⟨_, hentry, -⟩ := h i e hi
    rw [hunfold i e hi] at hentry
    exact (Option.ite_none_right_eq_some.mp hentry).1
  · intro h i e hget
    have hcomplete := h e (List.mem_of_getElem? hget)
    have hattributes : e.attributes.isSome := by
      simp only [DirectoryEntry.complete, Bool.and_eq_true, Option.any_eq_true] at hcomplete
      obtain ⟨⟨-, a, ha, -⟩, -⟩ := hcomplete
      rw [ha]
      rfl
    obtain ⟨a, ha⟩ := Option.isSome_iff_exists.mp hattributes
    rw [hunfold i e hget, if_pos hcomplete, FilebeltDirectoryEntry.ofMessage, ha]
    exact ⟨_, rfl, rfl⟩

theorem filebeltAttributesParse_ofMessage (hvalid : r.attributes.all NodeAttributes.valid) :
    filebeltAttributesParse (FilebeltResponse.ofMessage r).attributes =
      r.attributes.map FilebeltNodeAttributes.ofMessage := by
  change filebeltAttributesParse (r.attributes.map NodeAttributes.encodeToVec) = _
  cases ha : r.attributes with
  | none => rfl
  | some a =>
    have hle : a.encodeToVec.length ≤ r.encodeToVec.length :=
      attributes_length_le (n := 16) ha (by simp [VfsResponse.slots])
    rw [ha] at hvalid
    exact (filebeltAttributesParse_encodeToVec (Nat.lt_of_le_of_lt hle hlength)).trans
      (if_pos hvalid)

end FileBelt.Nfs
