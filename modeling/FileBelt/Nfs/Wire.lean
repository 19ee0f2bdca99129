import FileBelt.Support.MachineInt
import FileBelt.Support.Protobuf

/-!
# The protobuf writer and reader of the file system module

The module writes requests into a buffer of fixed capacity and reads replies with a
cursor.  A write that does not fit makes the whole packet fail.  The cursor refuses
overlong varints and field numbers that decrease.
-/

namespace FileBelt.Nfs

open Support.Protobuf

/-- `struct filebelt_pb_buffer`; a failed buffer is `none`. -/
structure PbBuffer where
  data : List Byte
  capacity : ℕ

def append (buffer : PbBuffer) (value : List Byte) : Option PbBuffer :=
  if buffer.capacity - buffer.data.length < value.length then none
  else some { buffer with data := buffer.data ++ value }

/-- The loop of `put_varint`, at most `n` more bytes. -/
def putVarintLoop : ℕ → ℕ → List Byte
  | 0, _ => []
  | n + 1, value =>
    let byte := value % 128
    let value := value / 128
    if value ≠ 0 then UInt8.ofNat (byte + 128) :: putVarintLoop n value
    else [UInt8.ofNat byte]

def putVarint (buffer : PbBuffer) (value : ℕ) : Option PbBuffer :=
  append buffer (putVarintLoop 10 value)

def putKey (buffer : PbBuffer) (field wireType : ℕ) : Option PbBuffer :=
  if field = 0 ∨ 0x1fffffff < field ∨ (wireType ≠ 0 ∧ wireType ≠ 2) then none
  else putVarint buffer (field * 8 + wireType)

def filebeltPbInit (capacity : ℕ) : PbBuffer where
  data := []
  capacity := capacity

def filebeltPbUint64 (buffer : PbBuffer) (field value : ℕ) : Option PbBuffer := do
  let buffer ← putKey buffer field 0
  putVarint buffer value

def filebeltPbBytes (buffer : PbBuffer) (field : ℕ) (value : List Byte) : Option PbBuffer := do
  if 0xffffffff < value.length then none
  else
    let buffer ← putKey buffer field 2
    let buffer ← putVarint buffer value.length
    if value.length = 0 then some buffer else append buffer value

/-- `strlen` of a string is the length of its bytes before the terminator. -/
def filebeltPbString (buffer : PbBuffer) (field : ℕ) (value : List Byte) : Option PbBuffer :=
  filebeltPbBytes buffer field value

theorem putVarintLoop_eq (n value : ℕ) : putVarintLoop n value = varintGroups n value := by
  induction n generalizing value with
  | zero => rfl
  | succ n ih =>
    rw [putVarintLoop, varintGroups]
    by_cases hsmall : value < 128
    · rw [if_neg (by omega), if_pos hsmall, Nat.mod_eq_of_lt hsmall]
    · rw [if_pos (by omega), if_neg hsmall, ih]

theorem putVarint_eq (buffer : PbBuffer) (value : ℕ) :
    putVarint buffer value = append buffer (varint value) := by
  rw [putVarint, putVarintLoop_eq]
  rfl

theorem append_append (buffer : PbBuffer) (a b : List Byte) :
    (append buffer a).bind (fun buffer => append buffer b) = append buffer (a ++ b) := by
  unfold append
  by_cases ha : buffer.capacity - buffer.data.length < a.length
  · rw [if_pos ha, if_pos (by rw [List.length_append]; omega)]
    rfl
  · rw [if_neg ha, Option.bind_some]
    rw [List.length_append, List.length_append]
    by_cases hb : buffer.capacity - (buffer.data.length + a.length) < b.length
    · rw [if_pos hb, if_pos (by omega)]
    · rw [if_neg hb, if_neg (by omega), List.append_assoc]

variable {field n wireType v previous : ℕ} {value encoded b : List Byte} {buffer buffer' : PbBuffer}
  {fs gs acc : List Field} {σ : Type} {slots : List Slot}

theorem putKey_eq (buffer : PbBuffer) (hlow : 0 < field) (hhigh : field < 2 ^ 29)
    (htype : wireType = 0 ∨ wireType = 2) :
    putKey buffer field wireType = append buffer (varint (field * 8 + wireType)) := by
  rw [putKey, if_neg (by omega), putVarint_eq]

theorem filebeltPbUint64_eq (buffer : PbBuffer) (hlow : 0 < field)
    (hhigh : field < 2 ^ 29) (value : ℕ) :
    filebeltPbUint64 buffer field value = append buffer (Field.encode ⟨field, .varint value⟩) := by
  rw [filebeltPbUint64, putKey_eq buffer hlow hhigh (.inl rfl)]
  simp only [putVarint_eq]
  exact append_append _ _ _

theorem filebeltPbBytes_eq (buffer : PbBuffer) (hlow : 0 < field)
    (hhigh : field < 2 ^ 29) (hvalue : value.length < 2 ^ 32) :
    filebeltPbBytes buffer field value = append buffer (Field.encode ⟨field, .bytes value⟩) := by
  have hlast : ∀ buffer : PbBuffer,
      (if value.length = 0 then some buffer else append buffer value) = append buffer value := by
    intro buffer
    split
    · next hnil =>
      rw [List.length_eq_zero_iff.mp hnil]
      simp [append]
    · rfl
  rw [filebeltPbBytes, if_neg (by omega), putKey_eq buffer hlow hhigh (.inr rfl)]
  simp only [hlast]
  change (append _ _).bind (fun _ => (putVarint _ _).bind _) = _
  simp only [putVarint_eq, append_append]
  rfl

theorem append_eq_some (h : buffer.data.length + value.length ≤ buffer.capacity) :
    append buffer value = some { buffer with data := buffer.data ++ value } :=
  if_neg (by omega)

theorem append_data (h : append buffer value = some buffer') :
    buffer'.data = buffer.data ++ value := by
  obtain ⟨-, h⟩ := Option.ite_none_left_eq_some.mp h
  rw [← Option.some.inj h]

theorem append_length (h : append buffer value = some buffer')
    (hbuffer : buffer.data.length ≤ buffer.capacity) : buffer'.data.length ≤ buffer.capacity := by
  obtain ⟨hcond, h⟩ := Option.ite_none_left_eq_some.mp h
  rw [← Option.some.inj h]
  rw [List.length_append]
  omega

/-- The writer of a field of either kind. -/
def putField (buffer : PbBuffer) (f : Field) : Option PbBuffer :=
  match f.payload with
  | .varint value => filebeltPbUint64 buffer f.number value
  | .bytes value => filebeltPbBytes buffer f.number value

/-- The payload has a length of 32 bits. -/
def Short : Payload → Prop
  | .varint _ => True
  | .bytes b => b.length < 2 ^ 32

/-- A field that the writer can write. -/
structure Writable (f : Field) : Prop where
  valid : f.Valid
  short : Short f.payload

theorem writable_varint (hv : v < 2 ^ 64) (hlow : 0 < n := by decide)
    (hhigh : n < 2 ^ 29 := by decide) : Writable ⟨n, .varint v⟩ :=
  ⟨⟨hlow, hhigh, hv⟩, trivial⟩

theorem writable_bytes (hb : b.length < 2 ^ 32) (hlow : 0 < n := by decide)
    (hhigh : n < 2 ^ 29 := by decide) : Writable ⟨n, .bytes b⟩ :=
  ⟨⟨hlow, hhigh, show b.length < 2 ^ 64 by omega⟩, hb⟩

theorem putField_eq (buffer : PbBuffer) {f : Field} (h : Writable f) :
    putField buffer f = append buffer f.encode := by
  obtain ⟨_, payload⟩ := f
  cases payload with
  | varint value =>
    exact filebeltPbUint64_eq buffer h.valid.positive h.valid.bounded value
  | bytes =>
    exact filebeltPbBytes_eq buffer h.valid.positive h.valid.bounded h.short

theorem foldlM_putField (h : ∀ f ∈ fs, Writable f) (buffer : PbBuffer) :
    fs.foldlM putField buffer = append buffer (encode fs) := by
  induction fs generalizing buffer with
  | nil => simp [append, encode]
  | cons f fs ih =>
    have hrest : ∀ buffer, fs.foldlM putField buffer =
        append buffer (encode fs) :=
      ih (List.forall_mem_cons.mp h).2
    rw [List.foldlM_cons, putField_eq buffer (h f List.mem_cons_self)]
    simp only [hrest]
    exact append_append _ _ _

/-- `filebelt_pb_next` keeps 32 bits of the field number. -/
def cursorReader : Reader where
  strict := true
  number := fun n => if n % 2 ^ 32 = 0 then none else some (n % 2 ^ 32)

/-- The loop over the fields of a message; it fails when a field cannot be read
or `step` refuses it. -/
def filebeltPbScan {σ : Type} (step : σ → Field → Option σ) (s : σ)
    (encoded : List Byte) : Option σ :=
  (read cursorReader (ordered step) (0, s) encoded).map Prod.snd

theorem cursorReader_agrees : cursorReader.Agrees := by
  intro n hlow hhigh
  have hmod : n % 2 ^ 32 = n := Nat.mod_eq_of_lt (by omega)
  rw [cursorReader]
  dsimp only
  rw [hmod, if_neg (by omega)]

variable (step : σ → Field → Option σ)

/-- The cursor reads the fields of a written message in order. -/
theorem filebeltPbScan_fields (s : σ) (hsorted : fs.Pairwise fun f g => f.number ≤ g.number)
    (hvalid : ∀ f ∈ fs, f.Valid) : filebeltPbScan step s (encode fs) = fs.foldlM step s := by
  rw [filebeltPbScan, read_encode cursorReader_agrees hvalid]
  exact foldlM_ordered (fun _ _ => Nat.zero_le _) hsorted s

theorem filebeltPbScan_encode (s : σ) (hnumbers : slots.map Prod.fst = List.range' 1 n)
    (hn : n < 2 ^ 28) (hfit : ∀ slot ∈ slots, Fit slot.2) :
    filebeltPbScan step s (encode (fields slots)) = (fields slots).foldlM step s := by
  refine filebeltPbScan_fields step s (fields_sorted ?_) (fields_valid hnumbers hn hfit)
  rw [hnumbers]
  exact List.pairwise_lt_range'

theorem filebeltPbScan_message (s : σ) (hnumbers : slots.map Prod.fst = List.range' 1 n)
    (hn : n < 2 ^ 28) (hscalars : ∀ slot ∈ slots, Scalars slot.2)
    (hlength : (encode (fields slots)).length < 2 ^ 64) :
    filebeltPbScan step s (encode (fields slots)) = (fields slots).foldlM step s :=
  filebeltPbScan_encode step s hnumbers hn fun slot hslot =>
    fit_of_length hlength hslot (hscalars slot hslot)

/-- The fields that `filebelt_pb_next` returns up to the end of the data. -/
def filebeltPbFields (encoded : List Byte) : Option (List Field) :=
  filebeltPbScan (fun fs f => some (fs ++ [f])) [] encoded

/-- Every key carries a field number that `put_key` accepts. -/
def KeysFit (encoded : List Byte) : Prop :=
  (read exactReader (fun _ _ => some ()) () encoded).isSome

theorem foldlM_ordered_fields
    (h : (fs.foldlM (ordered fun fs f => some (fs ++ [f])) (previous, acc)).map Prod.snd =
      some gs) :
    gs = acc ++ fs ∧ fs.Pairwise (fun f g => f.number ≤ g.number) ∧
      ∀ f ∈ fs, previous ≤ f.number := by
  induction fs generalizing previous acc with
  | nil => exact ⟨by simpa using h.symm, .nil, by simp⟩
  | cons f fs ih =>
    rw [List.foldlM_cons, ordered] at h
    by_cases hlow : f.number < previous
    · rw [if_pos hlow] at h
      cases h
    rw [if_neg hlow] at h
    obtain ⟨hgs, hsorted, hafter⟩ := ih h
    have hprevious : previous ≤ f.number := Nat.le_of_not_lt hlow
    refine ⟨by simpa using hgs, List.pairwise_cons.mpr ⟨hafter, hsorted⟩, ?_⟩
    exact List.forall_mem_cons.mpr ⟨hprevious, fun g hg => Nat.le_trans hprevious (hafter g hg)⟩

theorem filebeltPbFields_spec (h : filebeltPbFields encoded = some fs) :
    (∀ f ∈ fs, f.payload.Fits) ∧ fs.Pairwise fun f g => f.number ≤ g.number := by
  obtain ⟨_, hread, rfl⟩ := Option.map_eq_some_iff.mp h
  obtain ⟨_, gs, -, hfold, hfits, -⟩ := scan_strict rfl hread
  obtain ⟨hfs, hsorted, -⟩ := foldlM_ordered_fields (congrArg (Option.map Prod.snd) hfold)
  rw [hfs]
  exact ⟨hfits, hsorted⟩

theorem keysFit_iff : KeysFit encoded ↔ ∃ gs, encoded = encode gs ∧ ∀ f ∈ gs, f.Valid := by
  constructor
  · intro hkeys
    obtain ⟨_, hread⟩ := Option.isSome_iff_exists.mp hkeys
    obtain ⟨ws, _, rfl, -, -, hws⟩ := scan_strict rfl hread
    refine ⟨ws, rfl, fun w hw => ?_⟩
    obtain ⟨hnumber, hfits⟩ := hws w hw
    obtain ⟨_, hnumber⟩ := Option.isSome_iff_exists.mp hnumber
    obtain ⟨⟨hlow, hhigh⟩, -⟩ := Option.ite_none_right_eq_some.mp hnumber
    exact ⟨hlow, hhigh, hfits⟩
  · rintro ⟨gs, rfl, hvalid⟩
    have hfold : ∀ fs : List Field, fs.foldlM (fun _ _ => some ()) () = some () := by
      intro fs
      induction fs with
      | nil => rfl
      | cons _ _ ih => exact ih
    rw [KeysFit, read_encode exactReader_agrees hvalid, hfold]
    rfl

theorem filebeltPbFields_encode (hvalid : ∀ f ∈ gs, f.Valid) :
    filebeltPbFields (encode gs) = some fs ↔
      gs.Pairwise (fun f g => f.number ≤ g.number) ∧ gs = fs := by
  constructor
  · intro h
    rw [filebeltPbFields, filebeltPbScan, read_encode cursorReader_agrees hvalid] at h
    obtain ⟨hfs, hsorted, -⟩ := foldlM_ordered_fields h
    exact ⟨hsorted, hfs.symm⟩
  · rintro ⟨hsorted, rfl⟩
    rw [filebeltPbFields, filebeltPbScan_fields _ _ hsorted hvalid]
    exact foldlM_collect gs []

theorem KeysFit.encode_eq (hkeys : KeysFit encoded)
    (h : filebeltPbFields encoded = some fs) : encoded = encode fs ∧ ∀ f ∈ fs, f.Valid := by
  obtain ⟨gs, rfl, hvalid⟩ := keysFit_iff.mp hkeys
  obtain ⟨-, rfl⟩ := (filebeltPbFields_encode hvalid).mp h
  exact ⟨rfl, hvalid⟩

/-- The writer writes only fields with numbers and lengths that it accepts. -/
theorem writable_of_putField {f : Field} (hfits : f.payload.Fits)
    (h : putField buffer f = some buffer') : Writable f := by
  have hkey : ∀ {wireType : ℕ} {buffer : PbBuffer}, putKey buffer f.number wireType ≠ none →
      0 < f.number ∧ f.number < 2 ^ 29 := by
    intro wireType buffer hput
    by_contra hrange
    exact hput (if_pos (by omega))
  obtain ⟨number, payload⟩ := f
  cases payload with
  | varint =>
    obtain ⟨_, hput, -⟩ := Option.bind_eq_some_iff.mp h
    have hrange := hkey (Option.ne_none_iff_exists'.mpr ⟨_, hput⟩)
    exact ⟨⟨hrange.1, hrange.2, hfits⟩, trivial⟩
  | bytes b =>
    obtain ⟨hshort, h⟩ := Option.ite_none_left_eq_some.mp h
    obtain ⟨_, hput, -⟩ := Option.bind_eq_some_iff.mp h
    have hrange := hkey (Option.ne_none_iff_exists'.mpr ⟨_, hput⟩)
    exact ⟨⟨hrange.1, hrange.2, hfits⟩, show b.length < 2 ^ 32 by omega⟩

theorem writable_of_foldlM_putField (hfits : ∀ f ∈ fs, f.payload.Fits)
    (h : fs.foldlM putField buffer = some buffer') : ∀ f ∈ fs, Writable f := by
  induction fs generalizing buffer with
  | nil => simp
  | cons f fs ih =>
    obtain ⟨_, hput, h⟩ := Option.bind_eq_some_iff.mp h
    obtain ⟨hf, hfs⟩ := List.forall_mem_cons.mp hfits
    exact List.forall_mem_cons.mpr ⟨writable_of_putField hf hput, ih hfs h⟩

theorem data_of_foldlM_putField {capacity : ℕ} (hwritable : ∀ f ∈ fs, Writable f)
    (h : fs.foldlM putField (filebeltPbInit capacity) = some buffer) : buffer.data = encode fs := by
  rw [foldlM_putField hwritable] at h
  exact append_data h

/-- The fields of a message are in order.  Writing them gives the data back if and only if its
keys carry numbers that can be written and its payloads have lengths of 32 bits; of two data
with the same fields and keys of the one such, the other is the same if and only if its keys
are such.  Fields that were written are read back if and only if they are in order. -/
theorem filebeltPbFields_exact (encoded : List Byte) (fs : List Field)
    (h : filebeltPbFields encoded = some fs) :
    fs.Pairwise (fun f g => f.number ≤ g.number) ∧
    ((∀ capacity, encoded.length ≤ capacity → ∃ buffer,
      fs.foldlM putField (filebeltPbInit capacity) = some buffer ∧ buffer.data = encoded) ↔
        KeysFit encoded ∧ ∀ f ∈ fs, Short f.payload) ∧
    (KeysFit encoded → ∀ other, filebeltPbFields other = some fs →
      (other = encoded ↔ KeysFit other)) ∧
    ∀ gs capacity buffer, (∀ f ∈ gs, f.payload.Fits) →
      gs.foldlM putField (filebeltPbInit capacity) = some buffer →
        (filebeltPbFields buffer.data = some gs ↔
          gs.Pairwise fun f g => f.number ≤ g.number) := by
  obtain ⟨hfits, hsorted⟩ := filebeltPbFields_spec h
  refine ⟨hsorted, ⟨?_, ?_⟩, ?_, ?_⟩
  · intro hwritten
    obtain ⟨buffer, hbuffer, rfl⟩ := hwritten _ le_rfl
    have hwritable := writable_of_foldlM_putField hfits hbuffer
    rw [data_of_foldlM_putField hwritable hbuffer]
    exact ⟨keysFit_iff.mpr ⟨fs, rfl, fun f hf => (hwritable f hf).valid⟩,
      fun f hf => (hwritable f hf).short⟩
  · rintro ⟨hkeys, hshort⟩ capacity hcapacity
    obtain ⟨rfl, hvalid⟩ := hkeys.encode_eq h
    rw [foldlM_putField fun f hf => ⟨hvalid f hf, hshort f hf⟩]
    exact ⟨_, append_eq_some (by simpa [filebeltPbInit] using hcapacity), rfl⟩
  · intro hkeys other hother
    constructor
    · rintro rfl
      exact hkeys
    · intro hfit
      rw [(hfit.encode_eq hother).1, (hkeys.encode_eq h).1]
  · intro gs capacity buffer hgs hbuffer
    have hwritable := writable_of_foldlM_putField hgs hbuffer
    rw [data_of_foldlM_putField hwritable hbuffer,
      filebeltPbFields_encode fun f hf => (hwritable f hf).valid]
    exact and_iff_left rfl

/-- Field 1 with the value 5. -/
theorem filebeltPbFields_one_field :
    filebeltPbFields [0x08, 0x05] = some [⟨1, .varint 5⟩] ∧
      ∃ buffer, [⟨1, .varint 5⟩].foldlM putField (filebeltPbInit 2) = some buffer ∧
        buffer.data = [0x08, 0x05] := by
  have hfields : filebeltPbFields [0x08, 0x05] = some [⟨1, .varint 5⟩] := by decide +kernel
  have hkeys : KeysFit [0x08, 0x05] := by
    unfold KeysFit
    decide +kernel
  exact ⟨hfields, (filebeltPbFields_exact _ _ hfields).2.1.mpr ⟨hkeys, by simp [Short]⟩ 2 le_rfl⟩

/-- The key of field number 2 ^ 32 + 1 is read as the one of field 1, which is written with
one byte; and two fields that are written against their order are not read. -/
theorem filebeltPbFields_long_key :
    (filebeltPbFields [0x88, 0x80, 0x80, 0x80, 0x80, 0x01, 0x05] = some [⟨1, .varint 5⟩] ∧
      filebeltPbFields [0x08, 0x05] = some [⟨1, .varint 5⟩] ∧
      ([⟨1, .varint 5⟩].foldlM putField (filebeltPbInit 16)).map PbBuffer.data =
        some [0x08, 0x05]) ∧
    ([⟨2, .varint 1⟩, ⟨1, .varint 2⟩].foldlM putField (filebeltPbInit 16)).map PbBuffer.data =
        some [0x10, 0x01, 0x08, 0x02] ∧
      filebeltPbFields [0x10, 0x01, 0x08, 0x02] = none := by
  decide +kernel

end FileBelt.Nfs
