import FileBelt.Collaboration.Join

/-!
# The protobuf fields of the browser client

`Fields` reads back what `Unsigned` and `Bytes` write, and every number that it returns
is the one that its groups denote.
-/

namespace FileBelt.Collaboration

open Support.Protobuf

/-- `Varint`; a safe integer has at most eight groups. -/
def writeVarint (value : ℕ) : Except Thrown (List UInt8) :=
  if maxSafeInteger < value then .error (.error "Invalid protobuf integer.")
  else .ok (varint value)

/-- `Unsigned` or `Bytes`. -/
def writeField (f : Field) : Except Thrown (List UInt8) := do
  let key ← writeVarint (f.number * 8 + f.payload.wireType)
  match f.payload with
  | .varint value => do
      let value ← writeVarint value
      return key ++ value
  | .bytes value => do
      let length ← writeVarint value.length
      return key ++ (length ++ value)

/-- The bytes start with a key and a number, or a length and as many bytes, that denote
this field; then the rest follows. -/
inductive DenotesField (bytes : List UInt8) : Field → List UInt8 → Prop
  | varint {after rest : List UInt8} {key value : ℕ} (hkey : denoted bytes = some (key, after))
      (hnumber : 0 < key / 8) (hwire : key % 8 = 0) (hvalue : denoted after = some (value, rest)) :
      DenotesField bytes ⟨key / 8, .varint value⟩ rest
  | bytes {after rest : List UInt8} {key length : ℕ} (hkey : denoted bytes = some (key, after))
      (hnumber : 0 < key / 8) (hwire : key % 8 = 2) (hlength : denoted after = some (length, rest))
      (hfits : length ≤ rest.length) :
      DenotesField bytes ⟨key / 8, .bytes (rest.take length)⟩ (rest.drop length)

inductive Denotes : List UInt8 → List Field → Prop
  | nil : Denotes [] []
  | cons {bytes rest : List UInt8} {f : Field} {fs : List Field}
      (hfield : DenotesField bytes f rest) (hrest : Denotes rest fs) : Denotes bytes (f :: fs)

variable {bytes rest : List UInt8} {v n m : ℕ} {fs : List Field} {f : Field}
  {parts : List (List UInt8)}

theorem writeVarint_eq_ok (h : writeVarint v = .ok bytes) :
    v ≤ maxSafeInteger ∧ bytes = varint v := by
  obtain ⟨hv, h⟩ := else_of_ok h
  exact ⟨Nat.le_of_not_lt hv, (Except.ok.inj h).symm⟩

theorem writeField_eq_ok (h : writeField f = .ok bytes) :
    f.number * 8 + f.payload.wireType ≤ maxSafeInteger ∧ SafePayload f.payload ∧
      bytes = f.encode := by
  obtain ⟨_, payload⟩ := f
  obtain ⟨_, hkey, h⟩ := bind_eq_ok h
  obtain ⟨hsafe, rfl⟩ := writeVarint_eq_ok hkey
  refine ⟨hsafe, ?_⟩
  cases payload with
  | varint value =>
    obtain ⟨_, hvalue, h⟩ := bind_eq_ok h
    obtain ⟨hsafe, rfl⟩ := writeVarint_eq_ok hvalue
    exact ⟨hsafe, (Except.ok.inj h).symm⟩
  | bytes =>
    obtain ⟨_, hlength, h⟩ := bind_eq_ok h
    obtain ⟨hsafe, rfl⟩ := writeVarint_eq_ok hlength
    exact ⟨hsafe, (Except.ok.inj h).symm⟩

theorem writeField_encode (hkey : f.number * 8 + f.payload.wireType ≤ maxSafeInteger)
    (hsafe : SafePayload f.payload) : writeField f = .ok f.encode := by
  have hwrite : ∀ {v}, v ≤ maxSafeInteger → writeVarint v = .ok (varint v) :=
    fun h => if_neg (Nat.not_lt.mpr h)
  obtain ⟨_, payload⟩ := f
  rw [writeField, hwrite hkey]
  cases payload with
  | varint =>
    dsimp only
    rw [hwrite hsafe]
    rfl
  | bytes =>
    dsimp only
    rw [hwrite hsafe]
    rfl

theorem flatten_writeField (h : List.Forall₂ (fun f part => writeField f = .ok part) fs parts) :
    parts.flatten = encode fs := by
  induction h with
  | nil => rfl
  | cons hpart _ ih =>
    obtain ⟨-, -, rfl⟩ := writeField_eq_ok hpart
    rw [List.flatten_cons, ih]
    rfl

theorem wireFields_writeField (hpositive : ∀ f ∈ fs, 0 < f.number)
    (h : fs.mapM writeField = .ok parts) : wireFields parts.flatten = .ok fs := by
  rw [flatten_writeField (mapM_eq_ok h)]
  refine readFields_encode (fun f hf rest => ?_) (length_le_encode fs)
  obtain ⟨_, -, hpart⟩ := exists_mem_of_mapM h hf
  obtain ⟨hkey, hsafe, -⟩ := writeField_eq_ok hpart
  exact readField_encode (hpositive f hf) hkey hsafe rest

theorem readGroups_denoted {result multiplier : ℕ}
    (h : readGroups n result multiplier bytes = .ok (v, rest)) :
    ∃ w, denoted bytes = some (w, rest) ∧ v = result + w * multiplier := by
  induction n generalizing result multiplier bytes with
  | zero => cases h
  | succ n ih =>
    cases bytes with
    | nil => cases h
    | cons byte =>
      obtain ⟨-, h⟩ := else_of_ok h
      rw [denoted]
      by_cases hlast : byte.toNat < 128
      · rw [if_pos hlast] at h ⊢
        obtain ⟨rfl, rfl⟩ := Prod.mk.inj (Except.ok.inj h)
        exact ⟨byte.toNat, rfl, by rw [Nat.mod_eq_of_lt hlast]⟩
      · rw [if_neg hlast] at h ⊢
        obtain ⟨w, hw, rfl⟩ := ih h
        refine ⟨byte.toNat % 128 + 128 * w, by rw [hw]; rfl, ?_⟩
        ring

theorem readVarint_denoted (h : readVarint bytes = .ok (v, rest)) :
    denoted bytes = some (v, rest) := by
  obtain ⟨_, hw, rfl⟩ := readGroups_denoted h
  rw [hw, Nat.zero_add, Nat.mul_one]

theorem denoted_length (h : denoted bytes = some (v, rest)) : rest.length < bytes.length := by
  induction bytes generalizing v with
  | nil => cases h
  | cons byte bytes ih =>
    rw [denoted] at h
    split at h
    · cases h
      exact Nat.lt_succ_self _
    · obtain ⟨⟨_, _⟩, hw, h⟩ := Option.map_eq_some_iff.mp h
      cases h
      exact (ih hw).trans (Nat.lt_succ_self _)

theorem readField_denotes (h : readField bytes = .ok (f, rest)) : DenotesField bytes f rest := by
  obtain ⟨⟨key, after⟩, hkey, h⟩ := bind_eq_ok h
  obtain ⟨hnumber, h⟩ := else_of_ok h
  obtain ⟨⟨payload, rest'⟩, hpayload, h⟩ := bind_eq_ok h
  cases h
  have hpositive : 0 < key / 8 := by omega
  rw [readPayload] at hpayload
  split at hpayload
  · next hwire =>
    obtain ⟨⟨_, _⟩, hvalue, h⟩ := bind_eq_ok hpayload
    cases h
    exact .varint (readVarint_denoted hkey) hpositive hwire (readVarint_denoted hvalue)
  · obtain ⟨hwire, hpayload⟩ := then_of_ok hpayload
    obtain ⟨⟨_, _⟩, hlength, h⟩ := bind_eq_ok hpayload
    obtain ⟨hfits, h⟩ := then_of_ok h
    cases h
    exact .bytes (readVarint_denoted hkey) hpositive hwire (readVarint_denoted hlength) hfits

theorem DenotesField.length (h : DenotesField bytes f rest) : rest.length < bytes.length := by
  cases h with
  | varint hkey _ _ hvalue => exact (denoted_length hvalue).trans (denoted_length hkey)
  | bytes hkey _ _ hlength =>
    rw [List.length_drop]
    exact (Nat.sub_le _ _).trans_lt ((denoted_length hlength).trans (denoted_length hkey))

theorem readFields_denotes (h : readFields n bytes = .ok fs) : Denotes bytes fs := by
  induction n generalizing bytes fs with
  | zero =>
    cases bytes with
    | nil => cases h; exact .nil
    | cons => cases h
  | succ n ih =>
    cases bytes with
    | nil => cases h; exact .nil
    | cons =>
      obtain ⟨⟨_, _⟩, hfield, h⟩ := bind_eq_ok h
      obtain ⟨_, hothers, h⟩ := bind_eq_ok h
      cases h
      exact .cons (readField_denotes hfield) (ih hothers)

/-- The bound on the turns is never reached. -/
theorem readFields_fuel (hn : bytes.length ≤ n) (hm : bytes.length ≤ m) :
    readFields n bytes = readFields m bytes := by
  induction n generalizing bytes m with
  | zero =>
    obtain rfl := List.eq_nil_of_length_eq_zero (Nat.le_zero.mp hn)
    rw [readFields, readFields]
  | succ n ih =>
    cases bytes with
    | nil => rw [readFields, readFields]
    | cons byte bytes =>
      obtain ⟨m, rfl⟩ := Nat.exists_eq_succ_of_ne_zero (Nat.ne_of_gt ((Nat.succ_pos _).trans_le hm))
      rw [readFields, readFields]
      cases hfield : readField (byte :: bytes) with
      | error => rfl
      | ok result =>
        obtain ⟨f, rest⟩ := result
        have hlength : rest.length < bytes.length + 1 := (readField_denotes hfield).length
        rw [List.length_cons] at hn hm
        rw [ok_bind, ok_bind]
        dsimp only
        rw [ih (by omega) (show rest.length ≤ m by omega)]

/-- `Fields` returns the fields that were written, for every list of positive numbers; each
turn of its loop leaves fewer bytes, so it ends, and what it returns is what the bytes denote. -/
theorem fields_read_exactly :
    (∀ fs parts, (∀ f ∈ fs, 0 < f.number) → fs.mapM writeField = .ok parts →
        wireFields parts.flatten = .ok fs) ∧
      (∀ f : Field, f.number * 8 + f.payload.wireType ≤ maxSafeInteger →
        SafePayload f.payload → writeField f = .ok f.encode) ∧
      (∀ byte bytes, wireFields (byte :: bytes) = do
        let (field, rest) ← readField (byte :: bytes)
        let others ← wireFields rest
        return field :: others) ∧
      (∀ bytes f rest, readField bytes = .ok (f, rest) → rest.length < bytes.length) ∧
      ∀ bytes fs, wireFields bytes = .ok fs → Denotes bytes fs := by
  refine ⟨fun fs parts => wireFields_writeField, fun f => writeField_encode, ?_,
    fun bytes f rest h => (readField_denotes h).length, fun bytes fs => readFields_denotes⟩
  intro byte bytes
  rw [wireFields, List.length_cons, readFields]
  cases hfield : readField (byte :: bytes) with
  | error => rfl
  | ok result =>
    obtain ⟨_, rest⟩ := result
    have hlength : rest.length < bytes.length + 1 := (readField_denotes hfield).length
    rw [ok_bind, ok_bind]
    dsimp only
    rw [wireFields, readFields_fuel (Nat.le_of_lt_succ hlength) le_rfl]

end FileBelt.Collaboration
