import FileBelt.Nfs.Call

/-!
# Texts and UUIDs

The texts of the protocol as bytes, and the text of a UUID: five groups of
hexadecimal digits.
-/

namespace FileBelt.Nfs

open Support.Protobuf

def ascii (s : String) : List Byte := s.toList.map fun c => UInt8.ofNat c.toNat

def hexByte (b : Byte) : Bool :=
  (0x30 ≤ b && b ≤ 0x39) || (0x41 ≤ b && b ≤ 0x46) || (0x61 ≤ b && b ≤ 0x66)

def hyphen : Byte := 0x2D

/-- Where the hyphens are when digits are split into groups. -/
def hyphenPattern : List ℕ → ℕ → List Bool
  | [], length => List.replicate length false
  | n :: groups, length =>
    List.replicate (min n length) false ++ true :: hyphenPattern groups (length - n)

/-- The lengths of the groups of a UUID but the last. -/
def uuidGroups : List ℕ := [8, 4, 4, 4]

/-- Thirty-two digits, or five groups of them. -/
def uuidDigits (text : List Byte) : Bool :=
  (text.map (· == hyphen) == hyphenPattern [] 32 ||
      text.map (· == hyphen) == hyphenPattern uuidGroups 32) &&
    (text.filter (· != hyphen)).all hexByte

/-- The digits of a UUID in braces, of a URN or on their own. -/
def uuidBody (text : List Byte) : List Byte :=
  if text.length = 38 ∧ text.head? = some 0x7B ∧ text.getLast? = some 0x7D then
    (text.drop 1).dropLast
  else if text.length = 45 ∧ text.take 9 = ascii "urn:uuid:" then text.drop 9
  else text

def hexDigitValue (b : Byte) : ℕ :=
  if b ≤ 0x39 then b.toNat - 0x30
  else if b ≤ 0x46 then b.toNat - 0x37
  else b.toNat - 0x57

def hexValue (digits : List Byte) : ℕ := digits.foldl (fun n b => 16 * n + hexDigitValue b) 0

/-- `Uuid::parse_str`. -/
def parseUuid (text : List Byte) : Option ℕ :=
  if uuidDigits (uuidBody text) then
    some (hexValue ((uuidBody text).filter (· != hyphen)))
  else none

def hyphenate : List ℕ → List Byte → List Byte
  | [], digits => digits
  | n :: groups, digits =>
    digits.take n ++ hyphen :: hyphenate groups (digits.drop n)

/-- `Uuid::to_string`. -/
def uuidText (id : ℕ) : List Byte := hyphenate uuidGroups (hexPadded 32 id)

theorem hexDigit_spec {n : ℕ} (h : n < 16) :
    hexByte (hexDigit n) ∧ hexDigit n ≠ hyphen ∧ hexDigitValue (hexDigit n) = n := by
  have hall : ∀ n < 16, hexByte (hexDigit n) ∧ hexDigit n ≠ hyphen ∧
      hexDigitValue (hexDigit n) = n := by decide +kernel
  exact hall n h

theorem hexPadded_digits {n v : ℕ} : ∀ b ∈ hexPadded n v, hexByte b ∧ b ≠ hyphen :=
  forall_mem_hexPadded fun _ hd => ⟨(hexDigit_spec hd).1, (hexDigit_spec hd).2.1⟩

theorem hexValue_hexPadded (n v : ℕ) : hexValue (hexPadded n v) = v % 16 ^ n := by
  induction n generalizing v with
  | zero => exact (Nat.mod_one v).symm
  | succ n ih =>
    obtain ⟨-, -, hvalue⟩ := hexDigit_spec (Nat.mod_lt v (by decide))
    have hfold : hexValue (hexPadded (n + 1) v) =
        16 * hexValue (hexPadded n (v / 16)) + hexDigitValue (hexDigit (v % 16)) := by
      rw [hexValue, hexPadded, List.foldl_append]
      rfl
    rw [hfold, ih, hvalue, Nat.pow_succ, Nat.mul_comm (16 ^ n) 16, Nat.mod_mul, Nat.add_comm]

section

variable {digits : List Byte} (h : ∀ b ∈ digits, b ≠ hyphen)
include h

theorem map_eq_hyphen : digits.map (· == hyphen) = List.replicate digits.length false := by
  rw [List.eq_replicate_iff]
  refine ⟨List.length_map _, ?_⟩
  intro b hb
  obtain ⟨x, hx, rfl⟩ := List.mem_map.mp hb
  exact beq_false_of_ne (h x hx)

theorem take_drop_ne_hyphen (n : ℕ) :
    (∀ b ∈ digits.take n, b ≠ hyphen) ∧ ∀ b ∈ digits.drop n, b ≠ hyphen :=
  ⟨fun b hb => h b (List.mem_of_mem_take hb), fun b hb => h b (List.mem_of_mem_drop hb)⟩

theorem filter_ne_hyphen : digits.filter (· != hyphen) = digits := by
  rw [List.filter_eq_self]
  intro b hb
  exact bne_iff_ne.mpr (h b hb)

end

variable {groups : List ℕ} {digits : List Byte} {b : Byte}

theorem hyphenate_map (h : ∀ b ∈ digits, b ≠ hyphen) :
    (hyphenate groups digits).map (· == hyphen) = hyphenPattern groups digits.length := by
  induction groups generalizing digits with
  | nil => exact map_eq_hyphen h
  | cons n groups ih =>
    obtain ⟨hkept, hrest⟩ := take_drop_ne_hyphen h n
    have htake := map_eq_hyphen hkept
    have hdrop := ih hrest
    rw [List.length_take] at htake
    rw [List.length_drop] at hdrop
    rw [hyphenate, List.map_append, List.map_cons, htake, hdrop]
    rfl

theorem hyphenate_filter (h : ∀ b ∈ digits, b ≠ hyphen) :
    (hyphenate groups digits).filter (· != hyphen) = digits := by
  induction groups generalizing digits with
  | nil => exact filter_ne_hyphen h
  | cons n groups ih =>
    obtain ⟨hkept, hrest⟩ := take_drop_ne_hyphen h n
    rw [hyphenate, List.filter_append, filter_ne_hyphen hkept,
      List.filter_cons_of_neg (by simp), ih hrest, List.take_append_drop]

theorem hyphenate_bytes (hb : b ∈ hyphenate groups digits) : b ∈ digits ∨ b = hyphen := by
  induction groups generalizing digits with
  | nil => exact .inl hb
  | cons n groups ih =>
    rw [hyphenate, List.mem_append, List.mem_cons] at hb
    rcases hb with hb | rfl | hb
    · exact .inl (List.mem_of_mem_take hb)
    · exact .inr rfl
    · exact (ih hb).imp_left List.mem_of_mem_drop

variable (id : ℕ)

theorem hexPadded_ne_hyphen : ∀ b ∈ hexPadded 32 id, b ≠ hyphen :=
  fun b hb => (hexPadded_digits b hb).2

theorem uuidText_map : (uuidText id).map (· == hyphen) = hyphenPattern uuidGroups 32 := by
  rw [uuidText, hyphenate_map (hexPadded_ne_hyphen id), hexPadded_length]

theorem uuidText_length : (uuidText id).length = 36 := by
  have hlength := congrArg List.length (uuidText_map id)
  rw [List.length_map] at hlength
  exact hlength

theorem uuidText_bytes (hb : b ∈ uuidText id) : hexByte b ∨ b = hyphen :=
  (hyphenate_bytes hb).imp_left fun hdigit => (hexPadded_digits b hdigit).1

theorem hexByte_range (h : hexByte b) : b < 0x80 ∧ b ≠ 0 := by
  simp only [hexByte, Bool.or_eq_true, Bool.and_eq_true, decide_eq_true_eq] at h
  constructor
  · rcases h with (⟨-, h⟩ | ⟨-, h⟩) | ⟨-, h⟩
    · exact UInt8.lt_of_le_of_lt h (by decide)
    · exact UInt8.lt_of_le_of_lt h (by decide)
    · exact UInt8.lt_of_le_of_lt h (by decide)
  · rintro rfl
    revert h
    decide

theorem uuidText_range : ∀ b ∈ uuidText id, b < 0x80 ∧ b ≠ 0 := by
  intro b hb
  rcases uuidText_bytes id hb with hhex | rfl
  · exact hexByte_range hhex
  · decide

theorem uuidBody_uuidText : uuidBody (uuidText id) = uuidText id := by
  rw [uuidBody, uuidText_length, if_neg, if_neg]
  · rintro ⟨hlength, -⟩
    cases hlength
  · rintro ⟨hlength, -⟩
    cases hlength

theorem parseUuid_uuidText_mod : parseUuid (uuidText id) = some (id % 2 ^ 128) := by
  have hfilter : (uuidText id).filter (· != hyphen) = hexPadded 32 id :=
    hyphenate_filter (hexPadded_ne_hyphen id)
  have hall : (hexPadded 32 id).all hexByte :=
    List.all_eq_true.mpr fun b hb => (hexPadded_digits b hb).1
  have hdigits : uuidDigits (uuidText id) := by
    rw [uuidDigits, hfilter, hall, uuidText_map]
    simp
  rw [parseUuid, uuidBody_uuidText, if_pos hdigits, hfilter, hexValue_hexPadded]
  rfl

theorem parseUuid_uuidText (hid : id < 2 ^ 128) : parseUuid (uuidText id) = some id := by
  rw [parseUuid_uuidText_mod, Nat.mod_eq_of_lt hid]

end FileBelt.Nfs
