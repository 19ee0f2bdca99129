import FileBelt.Nfs.Response

/-!
# Private replies

The reply of the bridge to the module holds an encoded response and the
projection of the session.  `parse_private_reply` wants both.
-/

namespace FileBelt.Nfs

open Support Support.Protobuf

structure FsalReply where
  vfsResponse : List Byte
  projection : Option NfsSessionProjection
  deriving DecidableEq

def FsalReply.slots (reply : FsalReply) : List Slot :=
  [(1, blob reply.vfsResponse),
    (2, message (reply.projection.map NfsSessionProjection.encodeToVec))]

def FsalReply.encodeToVec (reply : FsalReply) : List Byte := encode (fields reply.slots)

def posixLetter (b : Byte) : Bool := 0x61 ≤ b && b ≤ 0x7A

/-- `lowercase_posix_name`, and `valid_lowercase_posix_name` of the protocol. -/
def lowercasePosixName : List Byte → Bool
  | [] => false
  | first :: rest =>
    (first == 0x5F || posixLetter first) && rest.length < 255 &&
      rest.all fun b => posixLetter b || (0x30 ≤ b && b ≤ 0x39) || b == 0x5F ||
        b == 0x2E || b == 0x2D

/-- The identifiers of a projection. -/
def projectedId (v : ℕ) : Bool := v ≠ 0 && v ≠ 65534 && v ≤ 4294967294

/-- The loop of `parse_export_ids`. -/
def parseExportIdsLoop : ℕ → ℕ → ℕ → List Byte → Bool
  | _, _, count, [] => count ≠ 0
  | 0, _, _, _ :: _ => false
  | n + 1, previous, count, b :: bytes =>
    match takeVarint true (b :: bytes) with
    | none => false
    | some (v, rest) =>
      if v = 0 ∨ v ≤ previous ∨ 1000 < count + 1 then false
      else parseExportIdsLoop n v (count + 1) rest

def parseExportIds : Payload → Bool
  | .varint _ => false
  | .bytes b => parseExportIdsLoop b.length 0 0 b

structure FilebeltPrivateProjection where
  (uid gid mappingGeneration featureGeneration expiry : ℕ := 0)
  deriving DecidableEq, Repr

/-- The projection and the numbers of the fields seen so far. -/
structure ProjectionParse extends FilebeltPrivateProjection where
  seen : List ℕ := []

/-- A field that may occur once and has to be acceptable. -/
def ProjectionParse.once (p : ProjectionParse) (number : ℕ) (accepted : Bool)
    (next : ProjectionParse) : Option ProjectionParse :=
  if number ∈ p.seen ∨ ¬accepted then none
  else some { next with seen := number :: p.seen }

def projectionStep (p : ProjectionParse) (f : Field) : Option ProjectionParse :=
  let v := Payload.value f.payload
  let name := match f.payload with
    | .bytes b => lowercasePosixName b
    | .varint _ => false
  let scalar := f.payload.wireType == 0
  match f.number with
  | 1 => p.once 1 name p
  | 2 => p.once 2 name p
  | 3 => p.once 3 (scalar && projectedId v) { p with uid := v }
  | 4 => p.once 4 (scalar && projectedId v) { p with gid := v }
  | 5 => p.once 5 (scalar && v ≠ 0) { p with mappingGeneration := v }
  | 6 => p.once 6 (scalar && v ≠ 0) { p with featureGeneration := v }
  | 7 => p.once 7 (scalar && v ≠ 0 && v < 2 ^ 63) { p with expiry := v }
  | 8 => p.once 8 (parseExportIds f.payload) p
  | _ => none

def parseProjection (encoded : List Byte) : Option FilebeltPrivateProjection := do
  let p ← filebeltPbScan projectionStep {} encoded
  if p.seen.length = 8 then some p.toFilebeltPrivateProjection else none

/-- The response and the projection of a reply, as far as they were seen. -/
structure ReplyParse where
  vfsResponse : Option (List Byte) := none
  projection : Option FilebeltPrivateProjection := none

def replyStep (p : ReplyParse) (f : Field) : Option ReplyParse :=
  match f.number, f.payload with
  | 1, .bytes b =>
    if p.vfsResponse.isSome ∨ b.length = 0 then none
    else some { p with vfsResponse := some b }
  | 2, .bytes b =>
    if p.projection.isSome then none
    else (parseProjection b).map fun x => { p with projection := some x }
  | _, _ => none

def parsePrivateReply (encoded : List Byte) : Option (List Byte × FilebeltPrivateProjection) := do
  let p ← filebeltPbScan replyStep {} encoded
  let response ← p.vfsResponse
  let projection ← p.projection
  some (response, projection)

def exportIdsIncreasing : UInt64 → List UInt64 → Bool
  | _, [] => true
  | previous, v :: vs => v ≠ 0 && previous < v && exportIdsIncreasing v vs

/-- `validate_nfs_session_projection`. -/
def NfsSessionProjection.valid (p : NfsSessionProjection) : Bool :=
  lowercasePosixName p.posixName && lowercasePosixName p.primaryGroupName &&
    projectedId p.projectedUid.toNat && projectedId p.projectedGid.toNat &&
    p.mappingGeneration ≠ 0 && p.featureGeneration ≠ 0 &&
    0 < p.absoluteExpiresAtUnixSeconds.toInt && p.allowedExportIds ≠ [] &&
    p.allowedExportIds.length ≤ 1000 && exportIdsIncreasing 0 p.allowedExportIds

def FilebeltPrivateProjection.ofMessage (p : NfsSessionProjection) : FilebeltPrivateProjection where
  uid := p.projectedUid.toNat
  gid := p.projectedGid.toNat
  mappingGeneration := p.mappingGeneration.toNat
  featureGeneration := p.featureGeneration.toNat
  expiry := p.absoluteExpiresAtUnixSeconds.toInt.toNat

variable {b response : List Byte}

theorem toNat_ne_zero {v : UInt64} (h : v ≠ 0) : v.toNat ≠ 0 :=
  fun hzero => h (UInt64.toNat_inj.mp hzero)

/-- The loop over increasing identifiers of a written list. -/
theorem parseExportIdsLoop_flatMap {vs : List UInt64} {previous : UInt64}
    {n count : ℕ} (hn : vs.length ≤ n) (hcount : count + vs.length ≤ 1000)
    (hsome : count + vs.length ≠ 0) (h : exportIdsIncreasing previous vs) :
    parseExportIdsLoop n previous.toNat count ((vs.map UInt64.toNat).flatMap varint) := by
  induction vs generalizing n count previous with
  | nil =>
    cases n with
    | zero => exact decide_eq_true hsome
    | succ => exact decide_eq_true hsome
  | cons v vs ih =>
    simp only [exportIdsIncreasing, Bool.and_eq_true, decide_eq_true_eq] at h
    obtain ⟨⟨hzero, hprevious⟩, hrest⟩ := h
    have hprevious' := UInt64.lt_iff_toNat_lt.mp hprevious
    rw [List.length_cons] at hn hcount hsome
    obtain ⟨b, bytes, hbytes⟩ := List.exists_cons_of_ne_nil (varint_ne_nil v.toNat)
    have hencode : ((v :: vs).map UInt64.toNat).flatMap varint =
        b :: (bytes ++ (vs.map UInt64.toNat).flatMap varint) := by
      rw [List.map_cons, List.flatMap_cons, hbytes, List.cons_append]
    have htake : takeVarint true (b :: (bytes ++ (vs.map UInt64.toNat).flatMap varint)) =
          some (v.toNat, (vs.map UInt64.toNat).flatMap varint) := by
      rw [← List.cons_append, ← hbytes]
      exact takeVarint_varint true v.toNat_lt _
    cases n with
    | zero => exact absurd hn (Nat.not_succ_le_zero _)
    | succ n =>
      rw [hencode, parseExportIdsLoop, htake]
      dsimp only
      rw [if_neg (by omega)]
      exact ih (by omega) (by omega) (by omega) hrest

theorem toUInt64_of_pos {v : Int64} (h : 0 < v.toInt) :
    v.toUInt64.toNat = v.toInt.toNat ∧ v.toUInt64.toNat < 2 ^ 63 := by
  have hbits := asI64_toUInt64 v
  have hlt := v.toUInt64.toNat_lt
  rw [asI64] at hbits
  split at hbits
  · omega
  · omega

theorem lowercasePosixName_ne_nil (h : lowercasePosixName b) : b ≠ [] := by
  rintro rfl
  cases h

theorem lowercasePosixName_length (h : lowercasePosixName b) : b.length ≤ 255 := by
  cases b with
  | nil => exact Nat.zero_le _
  | cons =>
    simp only [lowercasePosixName, Bool.and_eq_true, decide_eq_true_eq] at h
    exact h.1.2

theorem uint_of_ne {v : ℕ} (h : v ≠ 0) : uint v = [.varint v] := if_neg h

theorem blob_of_ne (h : b ≠ []) : blob b = [.bytes b] := if_neg h

theorem NfsSessionProjection.slots_scalars (p : NfsSessionProjection) :
    ∀ slot ∈ p.slots, Scalars slot.2 := by
  simp [slots]

theorem le_length_flatMap_varint (vs : List UInt64) :
    vs.length ≤ ((vs.map UInt64.toNat).flatMap varint).length := by
  induction vs with
  | nil => exact Nat.zero_le _
  | cons v vs ih =>
    have hv := List.length_pos_iff.mpr (varint_ne_nil v.toNat)
    rw [List.map_cons, List.flatMap_cons, List.length_append, List.length_cons]
    omega

theorem packedIds_length {vs : List ℕ} : (vs.flatMap varint).length ≤ vs.length * 10 := by
  induction vs with
  | nil => exact Nat.zero_le _
  | cons v vs ih =>
    have hv := varint_length v
    rw [List.flatMap_cons, List.length_append, List.length_cons]
    omega

section

variable {p : NfsSessionProjection} (h : p.valid)
include h

theorem fields_projection : fields p.slots =
      [⟨1, .bytes p.posixName⟩, ⟨2, .bytes p.primaryGroupName⟩,
        ⟨3, .varint p.projectedUid.toNat⟩, ⟨4, .varint p.projectedGid.toNat⟩,
        ⟨5, .varint p.mappingGeneration.toNat⟩, ⟨6, .varint p.featureGeneration.toNat⟩,
        ⟨7, .varint p.absoluteExpiresAtUnixSeconds.toUInt64.toNat⟩,
        ⟨8, .bytes ((p.allowedExportIds.map UInt64.toNat).flatMap varint)⟩] := by
  simp only [NfsSessionProjection.valid, projectedId, Bool.and_eq_true, decide_eq_true_eq] at h
  obtain ⟨⟨⟨⟨⟨⟨⟨⟨⟨hname, hgroup⟩, huid⟩, hgid⟩, hmapping⟩, hfeature⟩, hexpiry⟩, hids⟩, -⟩, -⟩ := h
  have hmapping' := toNat_ne_zero hmapping
  have hfeature' := toNat_ne_zero hfeature
  have hexpiry' : p.absoluteExpiresAtUnixSeconds.toUInt64.toNat ≠ 0 := by
    have hbits := toUInt64_of_pos hexpiry
    omega
  have hids' : p.allowedExportIds.map UInt64.toNat ≠ [] := by
    simpa using hids
  rw [NfsSessionProjection.slots, sint, blob_of_ne (lowercasePosixName_ne_nil hname),
    blob_of_ne (lowercasePosixName_ne_nil hgroup), uint_of_ne huid.1.1,
    uint_of_ne hgid.1.1, uint_of_ne hmapping', uint_of_ne hfeature',
    uint_of_ne hexpiry', packed, if_neg hids']
  rfl

theorem NfsSessionProjection.encodeToVec_length : p.encodeToVec.length < 2 ^ 20 := by
  have hfields := fields_projection h
  simp only [NfsSessionProjection.valid, Bool.and_eq_true, decide_eq_true_eq] at h
  obtain ⟨⟨⟨⟨⟨⟨⟨⟨⟨hname, hgroup⟩, -⟩, -⟩, -⟩, -⟩, -⟩, -⟩, hcount⟩, -⟩ := h
  have hname' := lowercasePosixName_length hname
  have hgroup' := lowercasePosixName_length hgroup
  have hids : ((p.allowedExportIds.map UInt64.toNat).flatMap varint).length ≤
      (p.allowedExportIds.map UInt64.toNat).length * 10 := packedIds_length
  rw [List.length_map] at hids
  rw [NfsSessionProjection.encodeToVec, hfields]
  refine Nat.lt_of_le_of_lt (encode_length_le _) ?_
  simp only [Protobuf.room, Payload.size]
  omega

theorem projectionStep_slots :
    (fields p.slots).foldlM projectionStep {} = some ⟨.ofMessage p, [8, 7, 6, 5, 4, 3, 2, 1]⟩ := by
  rw [fields_projection h]
  simp only [NfsSessionProjection.valid, Bool.and_eq_true, decide_eq_true_eq] at h
  obtain ⟨⟨⟨⟨⟨⟨⟨⟨⟨hname, hgroup⟩, huid⟩, hgid⟩, hmapping⟩, hfeature⟩, hexpiry⟩,
    hids⟩, hcount⟩, hincreasing⟩ := h
  have hmapping' := toNat_ne_zero hmapping
  have hfeature' := toNat_ne_zero hfeature
  obtain ⟨hbits, hbound⟩ := toUInt64_of_pos hexpiry
  simp only [Nat.reducePow] at hbound
  have hpositive : p.absoluteExpiresAtUnixSeconds.toUInt64.toNat ≠ 0 := by omega
  have hparse : parseExportIds
      (.bytes ((p.allowedExportIds.map UInt64.toNat).flatMap varint)) := by
    refine parseExportIdsLoop_flatMap (le_length_flatMap_varint _) (by omega) ?_ hincreasing
    rw [Nat.zero_add]
    exact fun hnil => hids (List.length_eq_zero_iff.mp hnil)
  simp [projectionStep, Payload.value, hname, hgroup, huid,
    hgid, hmapping', hfeature', hpositive, hbound, hparse]
  rw [hbits]
  rfl

theorem parseProjection_encodeToVec : parseProjection p.encodeToVec = some (.ofMessage p) := by
  have hlength := NfsSessionProjection.encodeToVec_length h
  have hscan : filebeltPbScan projectionStep {} p.encodeToVec =
      some ⟨.ofMessage p, [8, 7, 6, 5, 4, 3, 2, 1]⟩ := by
    rw [← projectionStep_slots h]
    exact filebeltPbScan_message projectionStep _ (n := 8) rfl (by decide)
      p.slots_scalars (Nat.lt_trans hlength (by decide))
  change (filebeltPbScan projectionStep {} p.encodeToVec).bind _ = _
  rw [hscan]
  rfl

end

/-- A reply is accepted if and only if it has a projection. -/
theorem parsePrivateReply_encodeToVec (hresponse : response ≠ [])
    (hlength : response.length < 2 ^ 63) {projection : Option NfsSessionProjection}
    (hprojection : projection.all NfsSessionProjection.valid) :
    parsePrivateReply (FsalReply.encodeToVec ⟨response, projection⟩) =
      projection.map fun p => (response, .ofMessage p) := by
  have hfit : ∀ slot ∈ FsalReply.slots ⟨response, projection⟩, Fit slot.2 := by
    simp only [FsalReply.slots, List.forall_mem_cons]
    refine ⟨fit_blob (by omega), fit_message fun b hb => ?_, List.forall_mem_nil _⟩
    obtain ⟨p, rfl, rfl⟩ := Option.map_eq_some_iff.mp hb
    have hsize := NfsSessionProjection.encodeToVec_length hprojection
    omega
  have hscan : filebeltPbScan replyStep {} (FsalReply.encodeToVec ⟨response, projection⟩) =
      some ⟨some response, projection.map .ofMessage⟩ := by
    rw [FsalReply.encodeToVec, filebeltPbScan_encode replyStep _ (n := 2) rfl (by decide) hfit,
      FsalReply.slots, blob_of_ne hresponse]
    cases projection with
    | none => simp [fields, message, replyStep, hresponse]
    | some => simp [fields, message, replyStep, hresponse, parseProjection_encodeToVec hprojection]
  rw [parsePrivateReply, hscan]
  cases projection <;> rfl

end FileBelt.Nfs
