import Mathlib.Algebra.Group.Nat.Defs
import Mathlib.Data.Nat.Basic
import Mathlib.Tactic.Common

/-!
# The protobuf wire format

Varints of 64 bits, fields with a varint or a length-delimited payload, and messages as
lists of slots in the order of their field numbers.  A reader may refuse overlong
varints and has its own way to get a field number from a key; every reader that agrees
on the numbers below `2 ^ 29` reads back what is written.
-/

namespace FileBelt.Support.Protobuf

abbrev Byte := UInt8

/-! ## Varints -/

/-- At most `n` groups of seven bits, the lowest first. -/
def varintGroups : ℕ → ℕ → List Byte
  | 0, _ => []
  | n + 1, v =>
    if v < 128 then [UInt8.ofNat v]
    else UInt8.ofNat (v % 128 + 128) :: varintGroups n (v / 128)

/-- The varint of a 64-bit value. -/
def varint (v : ℕ) : List Byte := varintGroups 10 v

/-- At most `n` groups; the last possible one has one bit.  A strict reader refuses a last
group of zeros after the first one. -/
def takeGroups (strict : Bool) : ℕ → Bool → List Byte → Option (ℕ × List Byte)
  | 0, _, _ => none
  | _ + 1, _, [] => none
  | n + 1, first, b :: rest =>
    if b.toNat < 128 then
      if (n = 0 ∧ 1 < b.toNat) ∨ (strict ∧ ¬first ∧ b = 0) then none
      else some (b.toNat, rest)
    else
      (takeGroups strict n false rest).map fun (v, rest) =>
        (b.toNat % 128 + 128 * v, rest)

def takeVarint (strict : Bool) (bytes : List Byte) : Option (ℕ × List Byte) :=
  takeGroups strict 10 true bytes

/-- The number that groups of seven bits denote, the lowest first, and what follows them. -/
def denoted : List Byte → Option (ℕ × List Byte)
  | [] => none
  | b :: rest =>
    if b.toNat < 128 then some (b.toNat, rest)
    else (denoted rest).map fun (v, rest) => (b.toNat % 128 + 128 * v, rest)

variable {m : Option (List Byte)} {n v previous : ℕ} {s b bytes rest t : List Byte} {a : Byte}
  {first : Bool}

theorem toNat_ofNat_lt (h : n < 256) : (UInt8.ofNat n).toNat = n := by
  exact Nat.mod_eq_of_lt h

theorem takeGroups_last (strict : Bool) (hv : v < 128) (hn : n = 0 → v < 2)
    (hfirst : first = false → v ≠ 0) (rest : List Byte) :
    takeGroups strict (n + 1) first (UInt8.ofNat v :: rest) = some (v, rest) := by
  have hbyte : (UInt8.ofNat v).toNat = v := toNat_ofNat_lt (by omega)
  rw [takeGroups, hbyte, if_pos hv, if_neg]
  rintro (⟨hlast, hlarge⟩ | ⟨-, hnotFirst, heq⟩)
  · omega
  · apply hfirst (Bool.eq_false_iff.mpr hnotFirst)
    rw [← hbyte, heq]
    rfl

theorem takeGroups_varintGroups (strict : Bool) (hv : v < 2 ^ (7 * n + 1))
    (hfirst : first = false → v ≠ 0) (rest : List Byte) :
    takeGroups strict (n + 1) first (varintGroups (n + 1) v ++ rest) = some (v, rest) := by
  induction n generalizing v first with
  | zero =>
    rw [varintGroups, if_pos (by omega)]
    exact takeGroups_last strict (by omega) (fun _ => by omega) hfirst rest
  | succ n ih =>
    rw [varintGroups]
    split
    · next hsmall =>
      exact takeGroups_last strict hsmall (fun h => by omega) hfirst rest
    · have hbyte : (UInt8.ofNat (v % 128 + 128)).toNat = v % 128 + 128 := toNat_ofNat_lt (by omega)
      have hpow : 2 ^ (7 * (n + 1) + 1) = 2 ^ (7 * n + 1) * 128 := by
        rw [show 7 * (n + 1) + 1 = 7 * n + 1 + 7 by omega, Nat.pow_add]
      have hrest : takeGroups strict (n + 1) false
          (varintGroups (n + 1) (v / 128) ++ rest) = some (v / 128, rest) :=
        ih (by omega) (fun _ => by omega)
      rw [List.cons_append, takeGroups, hbyte, hrest]
      refine congrArg some (Prod.ext ?_ rfl)
      dsimp only
      omega

theorem takeVarint_varint (strict : Bool) (hv : v < 2 ^ 64) (rest : List Byte) :
    takeVarint strict (varint v ++ rest) = some (v, rest) :=
  takeGroups_varintGroups strict hv (fun h => by cases h) rest

/-- A strict reader accepts only the groups that would be written. -/
theorem takeGroups_strict (h : takeGroups true n first bytes = some (v, rest)) :
    bytes = varintGroups n v ++ rest ∧ (first = false → 0 < v) ∧ 128 * v + 128 ≤ 2 * 128 ^ n := by
  induction n generalizing first bytes v with
  | zero => simp [takeGroups] at h
  | succ n ih =>
    cases bytes with
    | nil => simp [takeGroups] at h
    | cons byte bytes =>
      rw [takeGroups] at h
      rw [varintGroups]
      split_ifs at h with hlast hrefused
      · obtain ⟨rfl, rfl⟩ := Prod.mk.inj (Option.some.inj h)
        rw [if_pos hlast, UInt8.ofNat_toNat]
        refine ⟨rfl, fun hfirst => Nat.pos_of_ne_zero fun hzero =>
          hrefused (.inr ⟨rfl, ?_, ?_⟩), ?_⟩
        · simp [hfirst]
        · exact UInt8.toNat.inj hzero
        · rcases Nat.eq_zero_or_pos n with rfl | hn
          · omega
          · have hpow := Nat.pow_le_pow_right (n := 128) (by decide) hn
            omega
      · obtain ⟨⟨w, rest'⟩, hw, heq⟩ := Option.map_eq_some_iff.mp h
        obtain ⟨rfl, rfl⟩ := Prod.mk.inj heq
        obtain ⟨hbytes, hpos, hbound⟩ := ih hw
        have hpos := hpos rfl
        have hbyte := byte.toNat_lt
        have hlow : (byte.toNat % 128 + 128 * w) % 128 + 128 = byte.toNat := by omega
        have hhigh : (byte.toNat % 128 + 128 * w) / 128 = w := by omega
        rw [if_neg (by omega), hlow, hhigh, UInt8.ofNat_toNat, hbytes]
        exact ⟨rfl, fun _ => by omega, by omega⟩

theorem takeVarint_strict (h : takeVarint true bytes = some (v, rest)) :
    bytes = varint v ++ rest ∧ v < 2 ^ 64 := by
  obtain ⟨hbytes, -, hbound⟩ := takeGroups_strict h
  exact ⟨hbytes, by omega⟩

theorem varint_ne_nil (v : ℕ) : varint v ≠ [] := by
  rw [varint, varintGroups]
  split
  · exact List.cons_ne_nil _ _
  · exact List.cons_ne_nil _ _

theorem varintGroups_length (n v : ℕ) : (varintGroups n v).length ≤ n := by
  induction n generalizing v with
  | zero => exact Nat.zero_le _
  | succ n ih =>
    rw [varintGroups]
    split
    · exact Nat.succ_le_succ (Nat.zero_le _)
    · exact Nat.succ_le_succ (ih _)

theorem varint_length (v : ℕ) : (varint v).length ≤ 10 := varintGroups_length 10 v

/-! ## Strings -/

/-- A continuation byte of UTF-8 in a range. -/
def continues (low high : Byte) (b : Byte) : Bool := low ≤ b && b ≤ high

/-- Two, three and four bytes of one character. -/
def utf8Pair (a b : Byte) : Bool := 0xC2 ≤ a && a ≤ 0xDF && continues 0x80 0xBF b

def utf8Triple (a b c : Byte) : Bool :=
  ((a == 0xE0 && continues 0xA0 0xBF b) ||
    (0xE1 ≤ a && a ≤ 0xEC && continues 0x80 0xBF b) ||
    (a == 0xED && continues 0x80 0x9F b) ||
    (0xEE ≤ a && a ≤ 0xEF && continues 0x80 0xBF b)) && continues 0x80 0xBF c

def utf8Quadruple (a b c d : Byte) : Bool :=
  ((a == 0xF0 && continues 0x90 0xBF b) ||
    (0xF1 ≤ a && a ≤ 0xF3 && continues 0x80 0xBF b) ||
    (a == 0xF4 && continues 0x80 0x8F b)) &&
    continues 0x80 0xBF c && continues 0x80 0xBF d

/-- The bytes are a string. -/
def utf8Valid : List Byte → Bool
  | [] => true
  | [a] => a < 0x80
  | [a, b] => (a < 0x80 && b < 0x80) || utf8Pair a b
  | a :: b :: c :: rest =>
    if a < 0x80 then utf8Valid (b :: c :: rest)
    else if utf8Pair a b then utf8Valid (c :: rest)
    else if utf8Triple a b c then utf8Valid rest
    else
      match rest with
      | [] => false
      | d :: rest => utf8Quadruple a b c d && utf8Valid rest

theorem utf8Valid_of_ascii (h : ∀ b ∈ s, b < 0x80) : utf8Valid s := by
  induction s using utf8Valid.induct with
  | case1 => rfl
  | case2 => simpa [utf8Valid] using h
  | case3 a b =>
    have ha := h a List.mem_cons_self
    have hb := h b (List.mem_cons_of_mem _ List.mem_cons_self)
    simp [utf8Valid, ha, hb]
  | case4 _ _ _ rest ha ih =>
    have hrest := ih (List.forall_mem_cons.mp h).2
    cases rest with
    | nil => rw [utf8Valid, if_pos ha, hrest]
    | cons => rw [utf8Valid, if_pos ha, hrest]
  | _ a => exact absurd (h a List.mem_cons_self) ‹_›

theorem utf8Valid_long (a b c : Byte) (rest : List Byte) : utf8Valid (a :: b :: c :: rest) =
      if a < 0x80 then utf8Valid (b :: c :: rest) else if utf8Pair a b then utf8Valid (c :: rest)
      else if utf8Triple a b c then utf8Valid rest else match rest with
        | [] => false
        | d :: rest => utf8Quadruple a b c d && utf8Valid rest := by
  cases rest with
  | nil => conv_lhs => rw [utf8Valid]
  | cons => conv_lhs => rw [utf8Valid]

theorem utf8Pair_not_ascii {b : Byte} (h : utf8Pair a b) : ∀ x ∈ [a, b], 0x80 ≤ x := by
  grind [utf8Pair, continues]

theorem utf8Triple_not_ascii {b c : Byte} (h : utf8Triple a b c) : ∀ x ∈ [a, b, c], 0x80 ≤ x := by
  grind [utf8Triple, continues]

theorem utf8Quadruple_not_ascii {b c d : Byte} (h : utf8Quadruple a b c d) :
    ∀ x ∈ [a, b, c, d], 0x80 ≤ x := by
  grind [utf8Quadruple, continues]

/-- A first byte of seven bits is a character of its own. -/
theorem utf8Valid_cons (ha : a < 0x80) (hs : utf8Valid s) : utf8Valid (a :: s) := by
  match s, hs with
  | [], _ => simp [utf8Valid, ha]
  | [b], hs =>
    have hb : b < 0x80 := of_decide_eq_true hs
    simp [utf8Valid, ha, hb]
  | b :: c :: rest, hs => rw [utf8Valid_long, if_pos ha, hs]

theorem utf8Valid_pair {b : Byte} (h : utf8Pair a b)
    (hs : utf8Valid s) : utf8Valid (a :: b :: s) := by
  match s, hs with
  | [], _ => simp [utf8Valid, h]
  | c :: rest, hs =>
    rw [utf8Valid_long, if_neg (UInt8.not_lt.mpr (utf8Pair_not_ascii h a List.mem_cons_self)),
      if_pos h, hs]

/-- Strings are made of seven-bit bytes and of characters without such bytes. -/
theorem utf8Valid_induction {P : List Byte → Prop} (nil : P [])
    (ascii : ∀ a s, a < 0x80 → P s → P (a :: s)) (char : ∀ c s, (∀ b ∈ c, 0x80 ≤ b) →
      (∀ t, utf8Valid t → utf8Valid (c ++ t)) → P s → P (c ++ s))
    (hs : utf8Valid s) : P s := by
  have pair (a b : Byte) (s : List Byte) (h : utf8Pair a b) : P s → P (a :: b :: s) :=
    char [a, b] s (utf8Pair_not_ascii h) fun t ht => utf8Valid_pair h ht
  induction s using utf8Valid.induct with
  | case1 => exact nil
  | case2 a => exact ascii a [] (of_decide_eq_true hs) nil
  | case3 a b =>
    simp only [utf8Valid, Bool.or_eq_true, Bool.and_eq_true, decide_eq_true_eq] at hs
    rcases hs with ⟨ha, hb⟩ | hpair
    · exact ascii a [b] ha (ascii b [] hb nil)
    · exact pair a b [] hpair nil
  | case4 a _ _ _ ha ih =>
    rw [utf8Valid_long, if_pos ha] at hs
    exact ascii a _ ha (ih hs)
  | case5 a b _ _ ha hpair ih =>
    rw [utf8Valid_long, if_neg ha, if_pos hpair] at hs
    exact pair a b _ hpair (ih hs)
  | case6 a b c rest ha hpair htriple ih =>
    rw [utf8Valid_long, if_neg ha, if_neg hpair, if_pos htriple] at hs
    refine char [a, b, c] rest (utf8Triple_not_ascii htriple) (fun t ht => ?_) (ih hs)
    rw [List.cons_append, List.cons_append, List.cons_append,
      utf8Valid_long, if_neg ha, if_neg hpair, if_pos htriple]
    exact ht
  | case7 _ _ _ ha hpair htriple =>
    rw [utf8Valid_long, if_neg ha, if_neg hpair, if_neg htriple] at hs
    cases hs
  | case8 a b c ha hpair htriple d rest ih =>
    rw [utf8Valid_long, if_neg ha, if_neg hpair, if_neg htriple] at hs
    obtain ⟨hquadruple, hs⟩ := (Bool.and_eq_true _ _).mp hs
    refine char [a, b, c, d] rest (utf8Quadruple_not_ascii hquadruple) (fun t ht => ?_) (ih hs)
    rw [List.cons_append, List.cons_append, List.cons_append,
      utf8Valid_long, if_neg ha, if_neg hpair, if_neg htriple]
    exact (Bool.and_eq_true _ _).mpr ⟨hquadruple, ht⟩

theorem utf8Valid_append (hs : utf8Valid s) (ht : utf8Valid t) : utf8Valid (s ++ t) := by
  refine utf8Valid_induction (P := fun s => utf8Valid (s ++ t) = true) ht
    (fun a s ha ih => utf8Valid_cons ha ih) (fun c s _ hc ih => ?_) hs
  rw [List.append_assoc]
  exact hc _ ih

/-! ## Fields -/

inductive Payload
  | varint (value : ℕ)
  | bytes (value : List Byte)
  deriving DecidableEq, Repr

def Payload.wireType : Payload → ℕ
  | .varint _ => 0
  | .bytes _ => 2

theorem Payload.wireType_lt (payload : Payload) : payload.wireType < 8 := by
  cases payload <;> exact Nat.le_of_ble_eq_true rfl

def Payload.encode : Payload → List Byte
  | .varint v => Protobuf.varint v
  | .bytes b => Protobuf.varint b.length ++ b

def Payload.Fits : Payload → Prop
  | .varint v => v < 2 ^ 64
  | .bytes b => b.length < 2 ^ 64

structure Field where
  number : ℕ
  payload : Payload
  deriving DecidableEq, Repr

def Field.encode (f : Field) : List Byte :=
  varint (f.number * 8 + f.payload.wireType) ++ f.payload.encode

def encode (fs : List Field) : List Byte := fs.flatMap Field.encode

variable {f : Field} {fs : List Field} {payload : Payload}

/-- The bytes of a payload besides numbers. -/
def Payload.size : Payload → ℕ
  | .varint _ => 0
  | .bytes b => b.length

theorem Field.encode_length_le (f : Field) : f.encode.length ≤ f.payload.size + 20 := by
  have hkey := varint_length (f.number * 8 + f.payload.wireType)
  obtain ⟨number, payload⟩ := f
  rw [Field.encode, List.length_append]
  cases payload with
  | varint v =>
    have hvalue := varint_length v
    change _ + (Protobuf.varint v).length ≤ 0 + 20
    omega
  | bytes b =>
    have hlength := varint_length b.length
    change _ + (Protobuf.varint b.length ++ b).length ≤ b.length + 20
    rw [List.length_append]
    omega

/-- Room for the payloads of some fields, their keys, lengths and numbers. -/
def room : List Field → ℕ
  | [] => 0
  | f :: fs => f.payload.size + 20 + room fs

theorem encode_length_le (fs : List Field) : (encode fs).length ≤ room fs := by
  induction fs with
  | nil => exact Nat.zero_le _
  | cons f fs ih =>
    rw [encode, List.flatMap_cons, List.length_append]
    exact Nat.add_le_add f.encode_length_le ih

/-- A field that can be written. -/
structure Field.Valid (f : Field) : Prop where
  positive : 0 < f.number
  bounded : f.number < 2 ^ 29
  fits : f.payload.Fits

/-- How keys are read. -/
structure Reader where
  strict : Bool
  number : ℕ → Option ℕ

/-- The reader agrees on the numbers that can be written. -/
def Reader.Agrees (r : Reader) : Prop := ∀ n, 0 < n → n < 2 ^ 29 → r.number n = some n

def takePayload (strict : Bool) (wireType : ℕ) (bytes : List Byte) : Option (Payload × List Byte) :=
  if wireType = 0 then
    (takeVarint strict bytes).map fun (v, rest) => (.varint v, rest)
  else if wireType = 2 then do
    let (length, rest) ← takeVarint strict bytes
    if length ≤ rest.length then
      some (.bytes (rest.take length), rest.drop length)
    else none
  else none

def takeField (r : Reader) (bytes : List Byte) : Option (Field × List Byte) := do
  let (key, rest) ← takeVarint r.strict bytes
  let number ← r.number (key / 8)
  let (payload, rest) ← takePayload r.strict (key % 8) rest
  some (⟨number, payload⟩, rest)

variable {r : Reader}

theorem takePayload_encode (strict : Bool) (h : payload.Fits) (rest : List Byte) :
    takePayload strict payload.wireType (payload.encode ++ rest) = some (payload, rest) := by
  cases payload with
  | varint =>
    rw [takePayload, Payload.encode, takeVarint_varint strict h]
    rfl
  | bytes =>
    rw [Payload.wireType, takePayload,
      Payload.encode, List.append_assoc, takeVarint_varint strict h]
    simp

theorem takeField_encode (hr : r.Agrees) (h : f.Valid)
    (rest : List Byte) : takeField r (f.encode ++ rest) = some (f, rest) := by
  have hwire := f.payload.wireType_lt
  have hbounded := h.bounded
  have hkey : f.number * 8 + f.payload.wireType < 2 ^ 64 := by omega
  have hnumber : (f.number * 8 + f.payload.wireType) / 8 = f.number := by omega
  have htype : (f.number * 8 + f.payload.wireType) % 8 = f.payload.wireType := by
    omega
  rw [takeField, Field.encode, List.append_assoc, takeVarint_varint _ hkey]
  change (r.number _).bind _ = _
  rw [hnumber, hr _ h.positive h.bounded]
  rw [htype, takePayload_encode _ h.fits]
  rfl

theorem takePayload_strict {wireType : ℕ}
    (h : takePayload true wireType bytes = some (payload, rest)) :
    payload.wireType = wireType ∧ bytes = payload.encode ++ rest ∧ payload.Fits := by
  unfold takePayload at h
  split_ifs at h with hvarint hbytes
  · obtain ⟨⟨_, rest'⟩, hvalue, heq⟩ := Option.map_eq_some_iff.mp h
    obtain ⟨rfl, rfl⟩ := Prod.mk.inj heq
    exact ⟨hvarint.symm, takeVarint_strict hvalue⟩
  · obtain ⟨⟨_, _⟩, hlength, h⟩ := Option.bind_eq_some_iff.mp h
    dsimp only at h
    split_ifs at h with hle
    obtain ⟨rfl, rfl⟩ := Prod.mk.inj (Option.some.inj h)
    rw [Payload.encode, Payload.Fits, List.length_take_of_le hle, List.append_assoc,
      List.take_append_drop]
    exact ⟨hbytes.symm, takeVarint_strict hlength⟩

/-- What a strict reader takes, with the number that its key carries. -/
theorem takeField_strict (hr : r.strict) (h : takeField r bytes = some (f, rest)) :
    ∃ n, r.number n = some f.number ∧ f.payload.Fits ∧
      bytes = Field.encode ⟨n, f.payload⟩ ++ rest := by
  obtain ⟨⟨key, tail⟩, hkey, h⟩ := Option.bind_eq_some_iff.mp h
  obtain ⟨number, hnumber, h⟩ := Option.bind_eq_some_iff.mp h
  obtain ⟨⟨payload, rest'⟩, hpayload, h⟩ := Option.bind_eq_some_iff.mp h
  obtain ⟨rfl, rfl⟩ := Prod.mk.inj (Option.some.inj h)
  rw [hr] at hkey hpayload
  obtain ⟨hwire, htail, hfits⟩ := takePayload_strict hpayload
  refine ⟨key / 8, hnumber, hfits, ?_⟩
  rw [Field.encode, hwire, List.append_assoc, ← htail, Nat.div_add_mod']
  exact (takeVarint_strict hkey).1

/-! ## Messages -/

section

variable {σ : Type} {step : σ → Field → Option σ}

/-- Reads at most `n` fields and hands them to `step` one by one. -/
def scan (r : Reader) (step : σ → Field → Option σ) : ℕ → σ → List Byte → Option σ
  | _, s, [] => some s
  | 0, _, _ :: _ => none
  | n + 1, s, b :: bytes => do
      let (f, rest) ← takeField r (b :: bytes)
      let s ← step s f
      scan r step n s rest

def read (r : Reader) (step : σ → Field → Option σ) (s : σ) (bytes : List Byte) : Option σ :=
  scan r step bytes.length s bytes

theorem Field.encode_ne_nil (f : Field) : f.encode ≠ [] := by
  exact List.append_ne_nil_of_left_ne_nil (varint_ne_nil _) _

/-- What a reader finds at the first field of a message. -/
theorem exists_encode_cons (f : Field) (fs : List Field) :
    ∃ b bytes, encode (f :: fs) = b :: bytes ∧ b :: bytes = f.encode ++ encode fs := by
  obtain ⟨b, bytes, hbytes⟩ := List.exists_cons_of_ne_nil f.encode_ne_nil
  have hcons : b :: (bytes ++ encode fs) = f.encode ++ encode fs := by rw [hbytes, List.cons_append]
  exact ⟨b, bytes ++ encode fs, hcons.symm, hcons⟩

theorem scan_encode (hr : r.Agrees) (hfs : ∀ f ∈ fs, f.Valid) (hn : fs.length ≤ n) (s : σ) :
    scan r step n s (encode fs) = fs.foldlM step s := by
  induction fs generalizing n s with
  | nil =>
    cases n with
    | zero => rfl
    | succ => rfl
  | cons f fs ih =>
    obtain ⟨_, _, hencode, hbytes⟩ := exists_encode_cons f fs
    cases n with
    | zero => exact absurd hn (Nat.not_succ_le_zero _)
    | succ =>
      rw [hencode, scan, hbytes, takeField_encode hr (hfs f List.mem_cons_self)]
      refine congrArg (Option.bind (step s f)) (funext fun s' => ?_)
      exact ih (List.forall_mem_cons.mp hfs).2 (Nat.le_of_succ_le_succ hn) s'

theorem length_le_encode (fs : List Field) : fs.length ≤ (encode fs).length := by
  induction fs with
  | nil => exact Nat.zero_le _
  | cons f fs ih =>
    have hpos := List.length_pos_iff.mpr f.encode_ne_nil
    rw [encode, List.flatMap_cons, List.length_append, List.length_cons]
    change _ ≤ _ + (encode fs).length
    omega

theorem read_encode (hr : r.Agrees) (hfs : ∀ f ∈ fs, f.Valid)
    (s : σ) : read r step s (encode fs) = fs.foldlM step s :=
  scan_encode hr hfs (length_le_encode fs) s

/-- What a strict reader accepts is a written message, up to the numbers of its keys. -/
theorem scan_strict {s s' : σ} (hr : r.strict) (h : scan r step n s bytes = some s') :
    ∃ ws fs : List Field, bytes = encode ws ∧ fs.foldlM step s = some s' ∧
      (∀ f ∈ fs, f.payload.Fits) ∧ ∀ w ∈ ws, (r.number w.number).isSome ∧ w.payload.Fits := by
  induction n generalizing s bytes with
  | zero =>
    cases bytes with
    | nil => exact ⟨[], [], rfl, h, by simp, by simp⟩
    | cons => cases h
  | succ n ih =>
    cases bytes with
    | nil => exact ⟨[], [], rfl, h, by simp, by simp⟩
    | cons =>
      obtain ⟨⟨f, _⟩, hf, h⟩ := Option.bind_eq_some_iff.mp h
      obtain ⟨_, hstep, h⟩ := Option.bind_eq_some_iff.mp h
      obtain ⟨ws, fs, rfl, hfold, hfs, hws⟩ := ih h
      obtain ⟨number, hnumber, hfits, hbytes⟩ := takeField_strict hr hf
      refine ⟨⟨number, f.payload⟩ :: ws, f :: fs, hbytes, ?_,
        List.forall_mem_cons.mpr ⟨hfits, hfs⟩,
        List.forall_mem_cons.mpr ⟨⟨Option.isSome_of_eq_some hnumber, hfits⟩, hws⟩⟩
      rw [List.foldlM_cons, hstep]
      exact hfold

/-- Keeps the whole numbers and refuses those that cannot be written. -/
def exactReader : Reader where
  strict := true
  number n := if 0 < n ∧ n < 2 ^ 29 then some n else none

theorem exactReader_agrees : exactReader.Agrees := fun _ hlow hhigh => if_pos ⟨hlow, hhigh⟩

theorem foldlM_collect (fs acc : List Field) :
    fs.foldlM (fun fs f => some (fs ++ [f])) acc = some (acc ++ fs) := by
  induction fs generalizing acc with
  | nil => simp
  | cons f fs ih => simp [ih]

/-- Messages of valid fields have their fields alone. -/
theorem encode_injective {gs : List Field} (hfs : ∀ f ∈ fs, f.Valid) (hgs : ∀ f ∈ gs, f.Valid)
    (h : encode fs = encode gs) : fs = gs := by
  have hread : ∀ {fs : List Field}, (∀ f ∈ fs, f.Valid) →
      read exactReader (fun fs f => some (fs ++ [f])) [] (encode fs) = some fs := fun hfs =>
    (read_encode exactReader_agrees hfs _).trans (foldlM_collect _ _)
  exact Option.some.inj ((hread hfs).symm.trans (h ▸ hread hgs))

/-- A step that also demands field numbers in order. -/
def ordered (step : σ → Field → Option σ) (s : ℕ × σ) (f : Field) : Option (ℕ × σ) :=
  if f.number < s.1 then none
  else (step s.2 f).map fun s' => (f.number, s')

theorem foldlM_ordered (hlow : ∀ f ∈ fs, previous ≤ f.number)
    (hsorted : fs.Pairwise fun f g => f.number ≤ g.number) (s : σ) :
    (fs.foldlM (ordered step) (previous, s)).map Prod.snd = fs.foldlM step s := by
  induction fs generalizing previous s with
  | nil => rfl
  | cons f fs ih =>
    obtain ⟨hhead, htail⟩ := List.pairwise_cons.mp hsorted
    have hprevious := hlow f List.mem_cons_self
    have hstep : ordered step (previous, s) f =
        (step s f).map fun s' => (f.number, s') := if_neg (by simp; omega)
    rw [List.foldlM_cons, List.foldlM_cons, hstep]
    cases step s f with
    | none => rfl
    | some s' => exact ih hhead htail s'

end

/-! ## Slots -/

/-- The payloads of one field number. -/
abbrev Slot := ℕ × List Payload

def fields (slots : List Slot) : List Field :=
  slots.flatMap fun slot => slot.2.map (Field.mk slot.1)

/-- A scalar that is left out when it is zero. -/
def uint (v : ℕ) : List Payload := if v = 0 then [] else [.varint v]

/-- Bytes or a string, left out when empty. -/
def blob (b : List Byte) : List Payload := if b = [] then [] else [.bytes b]

/-- A flag that is left out when it is not set. -/
def flag (b : Bool) : List Payload := if b then [.varint 1] else []

/-- A message, left out when absent. -/
def message (m : Option (List Byte)) : List Payload := m.toList.map .bytes

def repeated (ms : List (List Byte)) : List Payload := ms.map .bytes

/-- Repeated scalars in one payload. -/
def packed (vs : List ℕ) : List Payload := if vs = [] then [] else [.bytes (vs.flatMap varint)]

variable {slots : List Slot}

theorem mem_fields : f ∈ fields slots ↔ ∃ slot ∈ slots, f.number = slot.1 ∧ f.payload ∈ slot.2 := by
  rw [fields, List.mem_flatMap]
  refine exists_congr fun slot => and_congr_right fun _ => ?_
  rw [List.mem_map]
  constructor
  · rintro ⟨_, hpayload, rfl⟩
    exact ⟨rfl, hpayload⟩
  · rintro ⟨hnumber, hpayload⟩
    exact ⟨f.payload, hpayload, by rw [← hnumber]⟩

theorem fields_sorted (h : (slots.map Prod.fst).Pairwise (· < ·)) :
    (fields slots).Pairwise fun f g => f.number ≤ g.number := by
  induction slots with
  | nil => exact List.Pairwise.nil
  | cons slot slots ih =>
    rw [List.map_cons, List.pairwise_cons] at h
    rw [fields, List.flatMap_cons, List.pairwise_append]
    refine ⟨?_, ih h.2, ?_⟩
    · rw [List.pairwise_map]
      exact List.pairwise_of_forall fun _ _ => le_rfl
    · intro f hf g hg
      obtain ⟨_, -, rfl⟩ := List.mem_map.mp hf
      obtain ⟨_, hslot', hnumber, -⟩ := mem_fields.mp hg
      rw [hnumber]
      exact Nat.le_of_lt (h.1 _ (List.mem_map_of_mem hslot'))

def Fit (payloads : List Payload) : Prop := ∀ payload ∈ payloads, payload.Fits

section

variable {P : Payload → Prop}

theorem forall_mem_uint (h : P (.varint v)) : ∀ payload ∈ uint v, P payload := by
  rw [uint]
  split
  · exact List.forall_mem_nil _
  · exact List.forall_mem_singleton.mpr h

theorem forall_mem_blob (h : P (.bytes b)) : ∀ payload ∈ blob b, P payload := by
  rw [blob]
  split
  · exact List.forall_mem_nil _
  · exact List.forall_mem_singleton.mpr h

theorem forall_mem_flag (h : P (.varint 1)) (b : Bool) : ∀ payload ∈ flag b, P payload := by
  rw [flag]
  split
  · exact List.forall_mem_singleton.mpr h
  · exact List.forall_mem_nil _

end

@[simp]
theorem fit_uint (h : v < 2 ^ 64) : Fit (uint v) := forall_mem_uint h

@[simp]
theorem fit_blob (h : b.length < 2 ^ 64) : Fit (blob b) := forall_mem_blob h

@[simp]
theorem fit_flag (b : Bool) : Fit (flag b) := forall_mem_flag (Nat.one_lt_two_pow (by decide)) b

@[simp]
theorem fit_message (h : ∀ b, m = some b → b.length < 2 ^ 64) : Fit (message m) := by
  intro payload hpayload
  obtain ⟨b, hb, rfl⟩ := List.mem_map.mp hpayload
  exact h b (Option.mem_toList.mp hb)

/-- The slots of a message are numbered from one. -/
theorem fields_numbered {P : Payload → Prop} (hnumbers : slots.map Prod.fst = List.range' 1 n)
    (hn : n < 2 ^ 28) (h : ∀ slot ∈ slots, ∀ payload ∈ slot.2, P payload) :
    ∀ f ∈ fields slots, 0 < f.number ∧ f.number < 2 ^ 29 ∧ P f.payload := by
  intro f hf
  obtain ⟨slot, hslot, hnumber, hpayload⟩ := mem_fields.mp hf
  have hmem : f.number ∈ List.range' 1 n := by
    rw [← hnumbers, hnumber]
    exact List.mem_map_of_mem hslot
  have hrange := List.mem_range'_1.mp hmem
  exact ⟨by omega, by omega, h slot hslot _ hpayload⟩

theorem fields_valid (hnumbers : slots.map Prod.fst = List.range' 1 n) (hn : n < 2 ^ 28)
    (h : ∀ slot ∈ slots, Fit slot.2) : ∀ f ∈ fields slots, f.Valid := by
  intro f hf
  obtain ⟨hpositive, hbounded, hfits⟩ := fields_numbered hnumbers hn h f hf
  exact ⟨hpositive, hbounded, hfits⟩

theorem length_le_of_mem (h : ⟨n, .bytes b⟩ ∈ fs) : b.length ≤ (encode fs).length := by
  have hencode : b.length ≤ (Field.encode ⟨n, .bytes b⟩).length := by
    rw [Field.encode, Payload.encode, ← List.append_assoc, List.length_append]
    exact Nat.le_add_left _ _
  obtain ⟨before, after, rfl⟩ := List.append_of_mem h
  rw [encode, List.flatMap_append, List.flatMap_cons, List.length_append, List.length_append]
  omega

def Scalars (payloads : List Payload) : Prop := ∀ v, .varint v ∈ payloads → v < 2 ^ 64

theorem scalars_uint (h : v < 2 ^ 64) : Scalars (uint v) := fun w hw => fit_uint h (.varint w) hw

@[simp]
theorem scalars_uint64 (v : UInt64) : Scalars (uint v.toNat) := scalars_uint v.toNat_lt

@[simp]
theorem scalars_uint32 (v : UInt32) : Scalars (uint v.toNat) :=
  scalars_uint (Nat.lt_trans v.toNat_lt (by decide))

@[simp]
theorem scalars_flag (b : Bool) : Scalars (flag b) := fun w hw => fit_flag b (.varint w) hw

@[simp]
theorem scalars_blob (b : List Byte) : Scalars (blob b) := by
  intro w hw
  rw [blob] at hw
  split at hw
  · cases hw
  · cases List.mem_singleton.mp hw

@[simp]
theorem scalars_repeated (ms : List (List Byte)) : Scalars (repeated ms) := by
  intro w hw
  obtain ⟨_, -, hb⟩ := List.mem_map.mp hw
  cases hb

@[simp]
theorem scalars_message (m : Option (List Byte)) : Scalars (message m) := scalars_repeated m.toList

@[simp]
theorem scalars_packed (vs : List ℕ) : Scalars (packed vs) := by
  intro w hw
  rw [packed] at hw
  split at hw
  · cases hw
  · cases List.mem_singleton.mp hw

/-- In an encoding of 64-bit length only the scalars can be too large. -/
theorem fit_of_length (hlength : (encode (fields slots)).length < 2 ^ 64)
    {slot : Slot} (hslot : slot ∈ slots) (hscalars : Scalars slot.2) : Fit slot.2 := by
  intro payload hpayload
  cases payload with
  | varint v => exact hscalars v hpayload
  | bytes b =>
    have hfield : ⟨slot.1, .bytes b⟩ ∈ fields slots := mem_fields.mpr ⟨slot, hslot, rfl, hpayload⟩
    exact Nat.lt_of_le_of_lt (length_le_of_mem hfield) hlength

/-! ## Reading slots -/

variable {σ : Type} {step : σ → Field → Option σ} {s : σ} {n v : ℕ} {slots : List Slot}

theorem foldlM_fields_cons (payloads : List Payload) :
    (fields ((n, payloads) :: slots)).foldlM step s =
      ((payloads.map (Field.mk n)).foldlM step s).bind fun s' => (fields slots).foldlM step s' := by
  rw [fields, List.flatMap_cons, List.foldlM_append]
  rfl

variable {out : Option σ}

/-- The side conditions of this rule and of those below hold by computation. -/
theorem foldlM_uint (set : σ → ℕ → σ) (hrest : (fields slots).foldlM step (set s v) = out)
    (hzero : set s 0 = s := by rfl)
    (h : v ≠ 0 → step s ⟨n, .varint v⟩ = some (set s v) := by intros; rfl) :
    (fields ((n, uint v) :: slots)).foldlM step s = out := by
  rw [← hrest, foldlM_fields_cons, uint]
  split
  · next hv =>
    rw [hv, hzero]
    rfl
  · next hv => simp [h hv]

theorem foldlM_blob {b : List Byte} (set : σ → List Byte → σ)
    (hrest : (fields slots).foldlM step (set s b) = out) (hnil : set s [] = s := by rfl)
    (h : b ≠ [] → step s ⟨n, .bytes b⟩ = some (set s b) := by intros; rfl) :
    (fields ((n, blob b) :: slots)).foldlM step s = out := by
  rw [← hrest, foldlM_fields_cons, blob]
  split
  · next hb =>
    rw [hb, hnil]
    rfl
  · next hb => simp [h hb]

theorem foldlM_flag {b : Bool} (set : σ → Bool → σ)
    (hrest : (fields slots).foldlM step (set s b) = out) (hfalse : set s false = s := by rfl)
    (h : step s ⟨n, .varint 1⟩ = some (set s true) := by rfl) :
    (fields ((n, flag b) :: slots)).foldlM step s = out := by
  rw [← hrest, foldlM_fields_cons]
  cases b with
  | false =>
    rw [hfalse]
    rfl
  | true => simp [flag, h]

theorem foldlM_message (set : σ → Option (List Byte) → σ)
    (hrest : (fields slots).foldlM step (set s m) = out) (hnone : set s none = s := by rfl)
    (h : ∀ b, m = some b → step s ⟨n, .bytes b⟩ = some (set s (some b)) := by intros; rfl) :
    (fields ((n, message m) :: slots)).foldlM step s = out := by
  rw [← hrest, foldlM_fields_cons]
  cases m with
  | none =>
    rw [hnone]
    rfl
  | some b => simp [message, h b rfl]

theorem foldlM_ignored {payloads : List Payload} (hrest : (fields slots).foldlM step s = out)
    (h : ∀ payload ∈ payloads, step s ⟨n, payload⟩ = some s := by intros; rfl) :
    (fields ((n, payloads) :: slots)).foldlM step s = out := by
  have hfold : (payloads.map (Field.mk n)).foldlM step s = some s := by
    induction payloads with
    | nil => rfl
    | cons payload payloads ih =>
      rw [List.map_cons, List.foldlM_cons, h payload List.mem_cons_self]
      exact ih (List.forall_mem_cons.mp h).2
  rw [← hrest, foldlM_fields_cons, hfold, Option.bind_some]

end FileBelt.Support.Protobuf
