import FileBelt.Domain.Errors
import FileBelt.Domain.Identity
import FileBelt.Nfs.Uuid
import Mathlib.Algebra.Group.Int.Defs

/-!
# Event envelopes

The outbox holds `EventEnvelope` messages.  The API writes them with prost, the
functions of the database with an encoder in SQL that writes every field but the last.
-/

namespace FileBelt.Database

open Nfs Support Support.Protobuf

/-- An event.  The texts are Rust strings, the numbers signed words of 64 bits. -/
structure Event where
  (id tenantId aggregateId : Uuid)
  (aggregateType eventType : List Byte)
  (generation occurredAt : ℤ)
  aggregateType_length : aggregateType.length < 2 ^ 63
  eventType_length : eventType.length < 2 ^ 63

def EventEnvelope.slots (event : Event) (generation : ℕ) : List Slot :=
  [(1, blob (uuidText event.id)), (2, blob (uuidText event.tenantId)),
    (3, blob event.aggregateType), (4, blob (uuidText event.aggregateId)),
    (5, uint generation), (6, blob event.eventType), (7, uint (asU64 event.occurredAt)),
    (8, blob [])]

/-- The payload that `insert_outbox` writes. -/
def insertOutbox (event : Event) : Except DatabaseError (List Byte) := do
  let unsignedGeneration ← okOr (toUnsigned event.generation) .invalidPersistedValue
  return encode (fields (EventEnvelope.slots event unsignedGeneration))

/-- The loop of `protobuf_varint`; a byte is decoded from its two hexadecimal digits. -/
def protobufVarintLoop (result : List Byte) (value : ℕ) : List Byte :=
  if 128 ≤ value then
    protobufVarintLoop (result ++ [UInt8.ofNat (value % 128 + 128)]) (value / 128)
  else result ++ [UInt8.ofNat value]

/-- A negative value raises an exception. -/
def protobufVarint (value : ℤ) : Option (List Byte) :=
  if value < 0 then none else some (protobufVarintLoop [] value.toNat)

def protobufBytesField (field : ℕ) (value : List Byte) : Option (List Byte) := do
  let key ← protobufVarint ↑(field <<< 3 ||| 2)
  let length ← protobufVarint value.length
  return key ++ length ++ value

def encodeEventEnvelope (event : Event) : Option (List Byte) := do
  let id ← protobufBytesField 1 (uuidText event.id)
  let tenant ← protobufBytesField 2 (uuidText event.tenantId)
  let aggregateType ← protobufBytesField 3 event.aggregateType
  let aggregateId ← protobufBytesField 4 (uuidText event.aggregateId)
  let generationKey ← protobufVarint ↑(5 <<< 3 ||| 0)
  let generation ← protobufVarint event.generation
  let eventType ← protobufBytesField 6 event.eventType
  let occurredAtKey ← protobufVarint ↑(7 <<< 3 ||| 0)
  let occurredAt ← protobufVarint event.occurredAt
  return id ++ tenant ++ aggregateType ++ aggregateId ++ generationKey ++ generation ++ eventType ++
    occurredAtKey ++ occurredAt

theorem protobufVarintLoop_eq {n v : ℕ} (h : v < 128 ^ (n + 1)) (result : List Byte) :
    protobufVarintLoop result v = result ++ varintGroups (n + 1) v := by
  induction n generalizing v result with
  | zero =>
    rw [protobufVarintLoop, if_neg (by omega), varintGroups, if_pos (by omega)]
  | succ n ih =>
    rw [protobufVarintLoop, varintGroups]
    by_cases hv : 128 ≤ v
    · have hdiv : v / 128 < 128 ^ (n + 1) := Nat.div_lt_of_lt_mul (by rw [← Nat.pow_succ']; exact h)
      rw [if_pos hv, if_neg (Nat.not_lt.mpr hv), ih hdiv, List.append_assoc]
      rfl
    · rw [if_neg hv, if_pos (Nat.lt_of_not_le hv)]

theorem protobufVarint_natCast {v : ℕ} (h : v < 2 ^ 63) : protobufVarint v = some (varint v) := by
  have hv : v < 128 ^ (9 + 1) := Nat.lt_trans h (by decide)
  rw [protobufVarint, if_neg (by omega), Int.toNat_natCast, protobufVarintLoop_eq hv]
  rfl

theorem protobufBytesField_eq {field : ℕ} {value : List Byte} (hfield : field < 8)
    (h : value.length < 2 ^ 63) :
    protobufBytesField field value = some (Field.encode ⟨field, .bytes value⟩) := by
  have hkey : field <<< 3 ||| 2 = field * 8 + 2 := by
    rw [Nat.shiftLeft_eq, Nat.mul_comm, ← Nat.two_pow_add_eq_or_of_lt (by decide)]
  rw [protobufBytesField, hkey, protobufVarint_natCast (by omega), protobufVarint_natCast h]
  exact congrArg some (List.append_assoc ..)

/-- The encoder of the database leaves no field out but the last. -/
theorem encodeEventEnvelope_eq {event : Event} {generation occurredAt : ℕ}
    (hgeneration : event.generation = generation) (hg : generation < 2 ^ 63)
    (hoccurredAt : event.occurredAt = occurredAt) (ht : occurredAt < 2 ^ 63) :
    encodeEventEnvelope event = some (encode
      [⟨1, .bytes (uuidText event.id)⟩, ⟨2, .bytes (uuidText event.tenantId)⟩,
        ⟨3, .bytes event.aggregateType⟩, ⟨4, .bytes (uuidText event.aggregateId)⟩,
        ⟨5, .varint generation⟩, ⟨6, .bytes event.eventType⟩, ⟨7, .varint occurredAt⟩]) := by
  have hid (id : Uuid) : (uuidText id).length < 2 ^ 63 := by
    rw [uuidText_length]
    decide
  rw [encodeEventEnvelope, hgeneration, hoccurredAt, protobufVarint_natCast hg,
    protobufVarint_natCast ht, protobufVarint_natCast (by decide),
    protobufVarint_natCast (by decide), protobufBytesField_eq (by decide) (hid _),
    protobufBytesField_eq (by decide) (hid _),
    protobufBytesField_eq (by decide) event.aggregateType_length,
    protobufBytesField_eq (by decide) (hid _),
    protobufBytesField_eq (by decide) event.eventType_length]
  simp [encode, Field.encode, Payload.wireType, Payload.encode]

/-- The two encoders agree on events with a type and an aggregate type. -/
theorem envelope_encodings_agree (event : Event) (haggregate : event.aggregateType ≠ [])
    (hevent : event.eventType ≠ []) (hgeneration : 0 < event.generation)
    (hgenerationBound : event.generation < 2 ^ 63) (hoccurred : 0 < event.occurredAt)
    (hoccurredBound : event.occurredAt < 2 ^ 63) :
    ∃ payload, encodeEventEnvelope event = some payload ∧ insertOutbox event = .ok payload := by
  obtain ⟨generation, hg⟩ := Int.eq_ofNat_of_zero_le (Int.le_of_lt hgeneration)
  obtain ⟨occurredAt, ht⟩ := Int.eq_ofNat_of_zero_le (Int.le_of_lt hoccurred)
  refine ⟨_, encodeEventEnvelope_eq hg (by omega) ht (by omega), ?_⟩
  have hunsigned : asU64 event.occurredAt = occurredAt := by
    rw [ht, asU64, if_pos (Int.natCast_nonneg _), Int.toNat_natCast]
  have hid (id : Uuid) : uuidText id ≠ [] :=
    List.ne_nil_of_length_pos (by rw [uuidText_length]; decide)
  have hpositive : generation ≠ 0 ∧ occurredAt ≠ 0 := by omega
  rw [insertOutbox, hg, toUnsigned_natCast]
  simp [EventEnvelope.slots, fields, blob, uint, hid, haggregate, hevent, hunsigned, hpositive]

theorem nodeType_length : (ascii "node").length < 2 ^ 63 := by decide

/-- A version created a while ago; its numbers take several groups. -/
def versionCreated (aggregateType : List Byte) (h : aggregateType.length < 2 ^ 63) : Event :=
  ⟨1, 2, 3, aggregateType, ascii "filebelt.v1.version.created", 300, 1760000000000, h, by decide⟩

theorem versionCreated_encodings_agree : ∃ payload,
    encodeEventEnvelope (versionCreated (ascii "node") nodeType_length) = some payload ∧
      insertOutbox (versionCreated (ascii "node") nodeType_length) = .ok payload :=
  envelope_encodings_agree _ (by decide) (by decide) (by decide) (by decide) (by decide) (by decide)

/-- The database writes an empty aggregate type, prost does not. -/
theorem empty_type_encodings_differ : ∃ payload payload',
    encodeEventEnvelope (versionCreated [] (Nat.two_pow_pos 63)) = some payload ∧
      insertOutbox (versionCreated [] (Nat.two_pow_pos 63)) = .ok payload' ∧ payload ≠ payload' :=
  ⟨_, _, encodeEventEnvelope_eq rfl (by decide) rfl (by decide), rfl, by decide +kernel⟩

end FileBelt.Database
