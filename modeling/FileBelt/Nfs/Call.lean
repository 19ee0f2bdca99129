import FileBelt.Nfs.Wire

/-!
# Calls from the file system module to the bridge

The module captures the identity, session and position of a request and packs it with
the encoded operation.  The bridge decodes the call exactly: the decoded message must
encode to the same bytes.
-/

namespace FileBelt.Nfs

open Support Support.Protobuf

/-! ## The request context -/

/-- `struct filebelt_rpcsec_gss_identity`, the strings without terminator. -/
structure RpcsecGssIdentity where
  (principal contextBinding sourceAddress : List Byte)
  expiresAtUnixSeconds : ℕ

/-- A numeric address as the server prints it. -/
structure AddressText where
  text : List Byte
  nonempty : text ≠ []
  ascii : ∀ b ∈ text, b < 0x80
  bounded : text.length < 46

/-- The security context of a request: `privacy` says that it is established
with Kerberos and encryption. -/
structure GssContext where
  privacy : Bool
  cname : List Byte
  endtime : ℕ
  prf : Option (List Byte)
  callerAddress : Option AddressText
  endtimeBound : endtime < 2 ^ 64

def realmByte (b : Byte) : Bool :=
  (0x41 ≤ b && b ≤ 0x5A) || (0x30 ≤ b && b ≤ 0x39) || b == 0x2E || b == 0x2D

def alphanumeric (b : Byte) : Bool :=
  (0x41 ≤ b && b ≤ 0x5A) || (0x61 ≤ b && b ≤ 0x7A) || (0x30 ≤ b && b ≤ 0x39)

/-- A byte before the separator, which is none itself. -/
def componentByte (b : Byte) : Bool := 0x20 < b && b < 0x7F && b != 0x2F && b != 0x5C && b != 0x40

/-- One component, `@` and a realm. -/
def filebeltPrincipalIsCanonical (value : List Byte) : Bool :=
  let component := value.takeWhile (· != 0x40)
  let realm := (value.dropWhile (· != 0x40)).drop 1
  value.length < 513 && !component.isEmpty && component.all componentByte &&
    realm.all realmByte && realm.head?.any alphanumeric &&
    realm.getLast?.any alphanumeric

def nfsReqFilebeltRpcsecGssIdentity (gd : GssContext) : Option RpcsecGssIdentity := do
  if ¬gd.privacy ∨ gd.endtime = 0 ∨ ¬filebeltPrincipalIsCanonical gd.cname then
    none
  else
    let prf ← gd.prf
    if prf.length ≠ 32 then none
    else
      let address ← gd.callerAddress
      some
        { principal := gd.cname
          contextBinding := prf
          sourceAddress := address.text
          expiresAtUnixSeconds := gd.endtime }

/-- The parts of a compound that the module reads. -/
structure Compound where
  minorVersion : ℕ
  request : GssContext
  (sequence slotid oppos clientid : ℕ)
  sessionId : List Byte
  sequenceBound : sequence < 2 ^ 32
  sessionIdLength : sessionId.length = 16

/-- `struct filebelt_fsal_request_context`, the strings without terminator. -/
structure RequestContext where
  (principal gssBinding sourceAddress : List Byte)
  contextExpiresAtUnixSeconds : ℕ
  clientId : List Byte
  nfsSessionId : List Byte
  (slotId sequenceId operationIndex : ℕ)
  deriving DecidableEq, Repr

def hexDigit (n : ℕ) : Byte := UInt8.ofNat (if n < 10 then 0x30 + n else 0x61 + (n - 10))

def hexEncode (raw : List Byte) : List Byte :=
  raw.flatMap fun b => [hexDigit (b.toNat / 16), hexDigit (b.toNat % 16)]

/-- The last `n` hexadecimal digits of a number, as `printf` pads them. -/
def hexPadded : ℕ → ℕ → List Byte
  | 0, _ => []
  | n + 1, v => hexPadded n (v / 16) ++ [hexDigit (v % 16)]

theorem forall_mem_hexPadded {P : Byte → Prop} (h : ∀ d < 16, P (hexDigit d)) {n v : ℕ} :
    ∀ b ∈ hexPadded n v, P b := by
  induction n generalizing v with
  | zero => exact List.forall_mem_nil _
  | succ n ih =>
    exact List.forall_mem_append.mpr
      ⟨ih, List.forall_mem_singleton.mpr (h _ (Nat.mod_lt v (by decide)))⟩

def filebeltFsalCaptureRequest (compound : Compound) : Option RequestContext := do
  if compound.minorVersion < 1 ∨ compound.sequence = 0 ∨
      1023 < compound.slotid ∨ 63 < compound.oppos then none
  else
    let identity ← nfsReqFilebeltRpcsecGssIdentity compound.request
    some
      { principal := identity.principal
        gssBinding := identity.contextBinding
        sourceAddress := identity.sourceAddress
        contextExpiresAtUnixSeconds := identity.expiresAtUnixSeconds
        clientId := hexPadded 16 compound.clientid
        nfsSessionId := hexEncode compound.sessionId
        slotId := compound.slotid
        sequenceId := compound.sequence
        operationIndex := compound.oppos }

/-! ## The packet -/

def wireFormat : ℕ := 1

def maxFrameBytes : ℕ := 1114112

def encodeAuthentication (context : RequestContext)
    (authentication : PbBuffer) : Option PbBuffer := do
  let b ← filebeltPbString authentication 1 context.principal
  let b ← filebeltPbBytes b 2 context.gssBinding
  let b ← filebeltPbString b 3 context.sourceAddress
  let b ← filebeltPbUint64 b 4 context.contextExpiresAtUnixSeconds
  let b ← filebeltPbString b 5 context.clientId
  let b ← filebeltPbString b 6 context.nfsSessionId
  let b ← filebeltPbUint64 b 7 context.slotId
  let b ← filebeltPbUint64 b 8 context.sequenceId
  filebeltPbUint64 b 9 context.operationIndex

/-- The length of a frame, most significant byte first. -/
def lengthPrefix (n : ℕ) : List Byte :=
  [UInt8.ofNat (n / 2 ^ 24), UInt8.ofNat (n / 2 ^ 16), UInt8.ofNat (n / 2 ^ 8), UInt8.ofNat n]

/-- The packet that `filebelt_bridge_call` sends. -/
def filebeltBridgePacket (context : RequestContext) (operationTag : ℕ)
    (operation : List Byte) : Option (List Byte) := do
  if operation.length = 0 ∨ maxFrameBytes < operation.length then none
  else
    let authentication ← encodeAuthentication context (filebeltPbInit 1024)
    let request := filebeltPbInit maxFrameBytes
    let request ← filebeltPbUint64 request 1 wireFormat
    let request ← filebeltPbBytes request 2 authentication.data
    let request ← filebeltPbUint64 request 3 operationTag
    let request ← filebeltPbBytes request 4 operation
    some (lengthPrefix request.data.length ++ request.data)

/-! ## The bridge's messages -/

structure FsalAuthentication where
  (kerberosPrincipal gssBindingDigest sourceAddress : List Byte)
  contextExpiresAtUnixSeconds : ℤ
  clientId : List Byte
  nfsSessionId : List Byte
  (slotId sequenceId operationIndex : ℕ)
  deriving DecidableEq, Repr

def FsalAuthentication.default : FsalAuthentication := ⟨[], [], [], 0, [], [], 0, 0, 0⟩

variable (a : FsalAuthentication)

def FsalAuthentication.slots : List Slot :=
  [(1, blob a.kerberosPrincipal), (2, blob a.gssBindingDigest),
    (3, blob a.sourceAddress), (4, uint (asU64 a.contextExpiresAtUnixSeconds)),
    (5, blob a.clientId), (6, blob a.nfsSessionId), (7, uint a.slotId),
    (8, uint a.sequenceId), (9, uint a.operationIndex)]

def FsalAuthentication.encodeToVec : List Byte := encode (fields a.slots)

def mergeString {σ : Type} (value : List Byte) (s : σ) : Option σ :=
  if utf8Valid value then some s else none

/-- The last value counts, another wire type is refused, an unknown field is skipped. -/
def FsalAuthentication.merge (f : Field) : Option FsalAuthentication :=
  match f.number, f.payload with
  | 1, .bytes b => mergeString b { a with kerberosPrincipal := b }
  | 2, .bytes b => some { a with gssBindingDigest := b }
  | 3, .bytes b => mergeString b { a with sourceAddress := b }
  | 4, .varint v => some { a with contextExpiresAtUnixSeconds := asI64 v }
  | 5, .bytes b => mergeString b { a with clientId := b }
  | 6, .bytes b => mergeString b { a with nfsSessionId := b }
  | 7, .varint v => some { a with slotId := v % 2 ^ 32 }
  | 8, .varint v => some { a with sequenceId := v }
  | 9, .varint v => some { a with operationIndex := v % 2 ^ 32 }
  | n, _ => if n ≤ 9 then none else some a

/-- Keys of generated decoders have 32 bits. -/
def messageReader : Reader where
  strict := false
  number := fun n => if 0 < n ∧ n < 2 ^ 29 then some n else none

structure FsalCall where
  format : ℕ
  authentication : Option FsalAuthentication
  operationTag : ℕ
  operation : List Byte
  deriving DecidableEq, Repr

def FsalCall.default : FsalCall := ⟨0, none, 0, []⟩

def FsalCall.slots (call : FsalCall) : List Slot :=
  [(1, uint call.format),
    (2, message (call.authentication.map FsalAuthentication.encodeToVec)),
    (3, uint call.operationTag), (4, blob call.operation)]

def FsalCall.encodeToVec (call : FsalCall) : List Byte := encode (fields call.slots)

def FsalCall.merge (call : FsalCall) (f : Field) : Option FsalCall :=
  match f.number, f.payload with
  | 1, .varint v => some { call with format := v % 2 ^ 32 }
  | 2, .bytes b => do
      let authentication ← read messageReader FsalAuthentication.merge
        (call.authentication.getD .default) b
      some { call with authentication := some authentication }
  | 3, .varint v => some { call with operationTag := v % 2 ^ 32 }
  | 4, .bytes b => some { call with operation := b }
  | n, _ => if n ≤ 4 then none else some call

def FsalCall.decode (encoded : List Byte) : Option FsalCall :=
  read messageReader FsalCall.merge .default encoded

/-- `decode_exact::<FsalCall>`. -/
def FsalCall.decodeExact (encoded : List Byte) : Option FsalCall := do
  let call ← FsalCall.decode encoded
  if call.encodeToVec ≠ encoded then none else some call

def decodeFrame : List Byte → Option (List Byte)
  | a :: b :: c :: d :: rest =>
    let length := ((a.toNat * 256 + b.toNat) * 256 + c.toNat) * 256 + d.toNat
    if maxFrameBytes < length ∨ rest.length ≠ length then none else some rest
  | _ => none

/-- What the bridge makes of a packet. -/
def receiveCall (packet : List Byte) : Option FsalCall := do
  let encoded ← decodeFrame packet
  FsalCall.decodeExact encoded

/-! ## Captured contexts -/

/-- A captured string: nonempty, of seven-bit characters and bounded. -/
structure Captured (bound : ℕ) (text : List Byte) : Prop where
  nonempty : text ≠ []
  ascii : ∀ b ∈ text, b < 0x80
  bounded : text.length < bound

/-- What a captured context satisfies. -/
structure RequestContext.Accepted (context : RequestContext) : Prop where
  principal : Captured 513 context.principal
  gssBinding : context.gssBinding.length = 32
  sourceAddress : Captured 46 context.sourceAddress
  expiryPositive : context.contextExpiresAtUnixSeconds ≠ 0
  expiryBound : context.contextExpiresAtUnixSeconds < 2 ^ 64
  clientId : Captured 17 context.clientId
  nfsSessionId : Captured 33 context.nfsSessionId
  slotId : context.slotId ≤ 1023
  sequencePositive : context.sequenceId ≠ 0
  sequenceBound : context.sequenceId < 2 ^ 32
  operationIndex : context.operationIndex ≤ 63

variable {operation value raw payload : List Byte} {operationTag n v : ℕ} {a : FsalAuthentication}
  {context : RequestContext} {compound : Compound} {b : Byte}

theorem hexDigit_ascii (h : n < 16) : hexDigit n < 0x80 := by
  rw [hexDigit, UInt8.lt_iff_toNat_lt, toNat_ofNat_lt (by split <;> omega)]
  change _ < 128
  split <;> omega

theorem hexEncode_ascii : ∀ b ∈ hexEncode raw, b < 0x80 := by
  intro b hb
  obtain ⟨x, -, hb⟩ := List.mem_flatMap.mp hb
  have hx := x.toNat_lt
  rw [List.mem_cons, List.mem_singleton] at hb
  rcases hb with rfl | rfl
  · exact hexDigit_ascii (by omega)
  · exact hexDigit_ascii (by omega)

theorem hexEncode_length (raw : List Byte) : (hexEncode raw).length = raw.length * 2 := by
  induction raw with
  | nil => rfl
  | cons x raw ih =>
    have hcons : hexEncode (x :: raw) =
        [hexDigit (x.toNat / 16), hexDigit (x.toNat % 16)] ++ hexEncode raw :=
      rfl
    rw [hcons, List.length_append]
    simp only [List.length_cons, List.length_nil]
    omega

theorem hexPadded_ascii : ∀ b ∈ hexPadded n v, b < 0x80 :=
  forall_mem_hexPadded fun _ => hexDigit_ascii

theorem hexPadded_length (n v : ℕ) : (hexPadded n v).length = n := by
  induction n generalizing v with
  | zero => rfl
  | succ n ih => rw [hexPadded, List.length_append, ih, List.length_singleton]

theorem componentByte_ascii (h : componentByte b) : b < 0x80 := by
  simp only [componentByte, Bool.and_eq_true, decide_eq_true_eq] at h
  exact UInt8.lt_trans h.1.1.1.2 (by decide)

theorem realmByte_ascii (h : realmByte b) : b < 0x80 := by
  simp only [realmByte, Bool.or_eq_true, Bool.and_eq_true, decide_eq_true_eq, beq_iff_eq] at h
  rcases h with ((⟨-, h⟩ | ⟨-, h⟩) | rfl) | rfl
  · exact UInt8.lt_of_le_of_lt h (by decide)
  · exact UInt8.lt_of_le_of_lt h (by decide)
  · decide
  · decide

theorem captured_principal (h : filebeltPrincipalIsCanonical value) : Captured 513 value := by
  simp only [filebeltPrincipalIsCanonical, Bool.and_eq_true, decide_eq_true_eq,
    List.all_eq_true] at h
  obtain ⟨⟨⟨⟨⟨hbound, hcomponent⟩, hbytes⟩, hrealm⟩, -⟩, -⟩ := h
  refine ⟨?_, ?_, hbound⟩
  · rintro rfl
    cases hcomponent
  · intro b hb
    rw [← List.takeWhile_append_dropWhile (l := value), List.mem_append] at hb
    rcases hb with hb | hb
    · exact componentByte_ascii (hbytes b hb)
    · -- the separator or a byte of the realm
      cases hdrop : value.dropWhile (· != 0x40) with
      | nil =>
        rw [hdrop] at hb
        cases hb
      | cons =>
        rw [hdrop] at hb hrealm
        rcases List.mem_cons.mp hb with rfl | hb
        · have hstop := List.head?_dropWhile_not (· != 0x40) value
          simp only [hdrop] at hstop
          simp at hstop
          rw [hstop]
          decide
        · exact realmByte_ascii (hrealm b hb)

theorem capture_accepted (h : filebeltFsalCaptureRequest compound = some context) :
    context.Accepted := by
  unfold filebeltFsalCaptureRequest at h
  split at h
  · cases h
  next hranges =>
  obtain ⟨identity, hidentity, h⟩ := Option.bind_eq_some_iff.mp h
  unfold nfsReqFilebeltRpcsecGssIdentity at hidentity
  split at hidentity
  · cases hidentity
  next hcontext =>
  obtain ⟨prf, hprf, hidentity⟩ := Option.bind_eq_some_iff.mp hidentity
  split at hidentity
  · cases hidentity
  next hlength =>
  obtain ⟨address, -, hidentity⟩ := Option.bind_eq_some_iff.mp hidentity
  rw [← Option.some.inj hidentity] at h
  rw [← Option.some.inj h]
  simp only [not_or, not_not, Nat.not_lt] at hranges hcontext hlength
  have hsession := hexEncode_length compound.sessionId
  rw [compound.sessionIdLength] at hsession
  constructor
  · exact captured_principal hcontext.2.2
  · exact hlength
  · exact ⟨address.nonempty, address.ascii, address.bounded⟩
  · exact hcontext.2.1
  · exact compound.request.endtimeBound
  · refine ⟨?_, hexPadded_ascii, ?_⟩
    · intro hnil
      have hlen := hexPadded_length 16 compound.clientid
      rw [show hexPadded 16 compound.clientid = [] from hnil] at hlen
      cases hlen
    · rw [hexPadded_length]
      decide
  · refine ⟨?_, hexEncode_ascii, ?_⟩
    · intro hnil
      rw [show hexEncode compound.sessionId = [] from hnil] at hsession
      cases hsession
    · dsimp only
      omega
  · exact hranges.2.2.1
  · exact hranges.2.1
  · exact compound.sequenceBound
  · exact hranges.2.2.2

/-! ## Decoding what was encoded -/

theorem messageReader_agrees : messageReader.Agrees := fun _ hlow hhigh => if_pos ⟨hlow, hhigh⟩

/-- A string of the bridge's messages. -/
structure TextValid (text : List Byte) : Prop where
  utf8 : utf8Valid text
  bounded : text.length < 2 ^ 64

/-- A value of the Rust type. -/
structure FsalAuthentication.Valid (a : FsalAuthentication) : Prop where
  kerberosPrincipal : TextValid a.kerberosPrincipal
  gssBindingDigest : a.gssBindingDigest.length < 2 ^ 64
  sourceAddress : TextValid a.sourceAddress
  expiryLow : -((2 ^ 63 : ℕ) : ℤ) ≤ a.contextExpiresAtUnixSeconds
  expiryHigh : a.contextExpiresAtUnixSeconds < ((2 ^ 63 : ℕ) : ℤ)
  clientId : TextValid a.clientId
  nfsSessionId : TextValid a.nfsSessionId
  slotId : a.slotId < 2 ^ 32
  sequenceId : a.sequenceId < 2 ^ 64
  operationIndex : a.operationIndex < 2 ^ 32

theorem mergeString_eq {σ : Type} (h : TextValid value) (s : σ) : mergeString value s = some s :=
  if_pos h.utf8

theorem FsalAuthentication.slots_fit (h : a.Valid) : ∀ slot ∈ a.slots, Fit slot.2 := by
  have hslot := h.slotId
  have hindex := h.operationIndex
  have hexpiry := asU64_lt h.expiryLow h.expiryHigh
  simp only [slots, List.forall_mem_cons]
  exact ⟨fit_blob h.kerberosPrincipal.bounded, fit_blob h.gssBindingDigest,
    fit_blob h.sourceAddress.bounded, fit_uint hexpiry, fit_blob h.clientId.bounded,
    fit_blob h.nfsSessionId.bounded, fit_uint (by omega), fit_uint h.sequenceId,
    fit_uint (by omega), List.forall_mem_nil _⟩

theorem FsalAuthentication.read_encodeToVec (h : a.Valid) :
    read messageReader FsalAuthentication.merge .default a.encodeToVec = some a := by
  have hexpiry : asI64 (asU64 a.contextExpiresAtUnixSeconds) =
      a.contextExpiresAtUnixSeconds := asI64_asU64 h.expiryLow h.expiryHigh
  have hslot : a.slotId % 2 ^ 32 = a.slotId := Nat.mod_eq_of_lt h.slotId
  have hindex : a.operationIndex % 2 ^ 32 = a.operationIndex := Nat.mod_eq_of_lt h.operationIndex
  rw [encodeToVec, read_encode messageReader_agrees
    (fields_valid (n := 9) rfl (by decide) (slots_fit h))]
  refine foldlM_blob (fun a b => { a with kerberosPrincipal := b })
    (h := fun _ => mergeString_eq h.kerberosPrincipal _) ?_
  refine foldlM_blob (fun a b => { a with gssBindingDigest := b }) ?_
  refine foldlM_blob (fun a b => { a with sourceAddress := b })
    (h := fun _ => mergeString_eq h.sourceAddress _) ?_
  refine foldlM_uint (fun a v => { a with contextExpiresAtUnixSeconds := asI64 v }) ?_
  refine foldlM_blob (fun a b => { a with clientId := b })
    (h := fun _ => mergeString_eq h.clientId _) ?_
  refine foldlM_blob (fun a b => { a with nfsSessionId := b })
    (h := fun _ => mergeString_eq h.nfsSessionId _) ?_
  refine foldlM_uint (fun a v => { a with slotId := v % 2 ^ 32 }) ?_
  refine foldlM_uint (fun a v => { a with sequenceId := v }) ?_
  refine foldlM_uint (fun a v => { a with operationIndex := v % 2 ^ 32 }) ?_
  dsimp only
  rw [hexpiry, hslot, hindex]
  rfl

/-- A value of the Rust type. -/
structure FsalCall.Valid (call : FsalCall) : Prop where
  format : call.format < 2 ^ 32
  authentication : ∀ a, call.authentication = some a → a.Valid ∧ a.encodeToVec.length < 2 ^ 64
  operationTag : call.operationTag < 2 ^ 32
  operation : call.operation.length < 2 ^ 64

theorem FsalCall.decode_encodeToVec {call : FsalCall} (h : call.Valid) :
    FsalCall.decode call.encodeToVec = some call := by
  have hformat := h.format
  have htag := h.operationTag
  have hfit : ∀ slot ∈ call.slots, Fit slot.2 := by
    simp only [slots, List.forall_mem_cons]
    refine ⟨fit_uint (by omega), fit_message ?_, fit_uint (by omega), fit_blob h.operation,
      List.forall_mem_nil _⟩
    intro b hb
    obtain ⟨a, ha, rfl⟩ := Option.map_eq_some_iff.mp hb
    exact (h.authentication a ha).2
  rw [decode, encodeToVec, read_encode messageReader_agrees
    (fields_valid (n := 4) rfl (by decide) hfit)]
  have hformat' : call.format % 2 ^ 32 = call.format := Nat.mod_eq_of_lt hformat
  have htag' : call.operationTag % 2 ^ 32 = call.operationTag := Nat.mod_eq_of_lt htag
  have hread := fun a ha =>
    FsalAuthentication.read_encodeToVec (h.authentication a ha).1
  obtain ⟨format, authentication, _, operation⟩ := call
  refine foldlM_uint (fun call v => { call with format := v % 2 ^ 32 }) ?_
  rw [hformat']
  have hmessage : ((message (authentication.map
      FsalAuthentication.encodeToVec)).map (Protobuf.Field.mk 2)).foldlM FsalCall.merge
        ⟨format, none, 0, []⟩ = some ⟨format, authentication, 0, []⟩ := by
    cases authentication with
    | none => rfl
    | some a =>
      change ((read messageReader FsalAuthentication.merge .default
        a.encodeToVec).bind _).bind _ = _
      rw [hread a rfl]
      rfl
  refine Eq.trans (foldlM_fields_cons _) ?_
  refine Eq.trans (congrArg (Option.bind · _) hmessage) ?_
  refine foldlM_uint (fun call v => { call with operationTag := v % 2 ^ 32 }) ?_
  rw [htag']
  refine foldlM_blob (fun call b => { call with operation := b }) ?_
  rfl

theorem FsalCall.decodeExact_encodeToVec {call : FsalCall} (h : call.Valid) :
    FsalCall.decodeExact call.encodeToVec = some call := by
  rw [decodeExact, decode_encodeToVec h]
  change (if _ then _ else _) = _
  rw [if_neg (not_not.mpr rfl)]

/-! ## The packet as a message -/

def authenticationFields (context : RequestContext) : List Field :=
  [⟨1, .bytes context.principal⟩, ⟨2, .bytes context.gssBinding⟩,
    ⟨3, .bytes context.sourceAddress⟩,
    ⟨4, .varint context.contextExpiresAtUnixSeconds⟩,
    ⟨5, .bytes context.clientId⟩, ⟨6, .bytes context.nfsSessionId⟩,
    ⟨7, .varint context.slotId⟩, ⟨8, .varint context.sequenceId⟩,
    ⟨9, .varint context.operationIndex⟩]

def callFields (authentication : List Byte) (operationTag : ℕ)
    (operation : List Byte) : List Field :=
  [⟨1, .varint wireFormat⟩, ⟨2, .bytes authentication⟩,
    ⟨3, .varint operationTag⟩, ⟨4, .bytes operation⟩]

theorem encodeAuthentication_eq_foldlM (context : RequestContext) (buffer : PbBuffer) :
    encodeAuthentication context buffer =
      (authenticationFields context).foldlM putField buffer := by
  simp [encodeAuthentication, authenticationFields, putField, filebeltPbString]

section

variable {context : RequestContext} (h : context.Accepted)
include h

theorem authenticationFields_bounded : (∀ f ∈ authenticationFields context, Writable f) ∧
    (encode (authenticationFields context)).length ≤ 1024 := by
  have hprincipal := h.principal.bounded
  have hbinding := h.gssBinding
  have haddress := h.sourceAddress.bounded
  have hclient := h.clientId.bounded
  have hsession := h.nfsSessionId.bounded
  have hslot := h.slotId
  have hsequence := h.sequenceBound
  have hindex := h.operationIndex
  constructor
  · simp only [authenticationFields, List.forall_mem_cons]
    exact ⟨writable_bytes (by omega), writable_bytes (by omega), writable_bytes (by omega),
      writable_varint h.expiryBound, writable_bytes (by omega), writable_bytes (by omega),
      writable_varint (by omega), writable_varint (by omega), writable_varint (by omega),
      List.forall_mem_nil _⟩
  refine Nat.le_trans (encode_length_le _) ?_
  simp only [authenticationFields, Protobuf.room, Payload.size]
  omega

theorem encodeAuthentication_eq : encodeAuthentication context (filebeltPbInit 1024) =
      some ⟨encode (authenticationFields context), 1024⟩ := by
  rw [encodeAuthentication_eq_foldlM, foldlM_putField (authenticationFields_bounded h).1]
  refine append_eq_some ?_
  have hlength := (authenticationFields_bounded h).2
  simp only [filebeltPbInit, List.length_nil]
  omega

end

/-! ## Calls between the two sides -/

/-- The authentication that a context stands for. -/
def RequestContext.authentication (context : RequestContext) : FsalAuthentication where
  kerberosPrincipal := context.principal
  gssBindingDigest := context.gssBinding
  sourceAddress := context.sourceAddress
  contextExpiresAtUnixSeconds := context.contextExpiresAtUnixSeconds
  clientId := context.clientId
  nfsSessionId := context.nfsSessionId
  slotId := context.slotId
  sequenceId := context.sequenceId
  operationIndex := context.operationIndex

/-- What the bridge reads of it: the expiry is a signed number there. -/
def RequestContext.received (context : RequestContext) : FsalAuthentication :=
  { context.authentication with
    contextExpiresAtUnixSeconds := asI64 context.contextExpiresAtUnixSeconds }

/-- The call of an operation, with the fields that the module packs. -/
def FsalCall.of (authentication : FsalAuthentication) (operationTag : ℕ)
    (operation : List Byte) : FsalCall where
  format := wireFormat
  authentication := some authentication
  operationTag := operationTag
  operation := operation

def RequestContext.call (context : RequestContext) (operationTag : ℕ)
    (operation : List Byte) : FsalCall :=
  .of context.authentication operationTag operation

/-- The tags that `decode_operation` knows. -/
def operationSupported (tag : ℕ) : Bool :=
  (21 ≤ tag && tag ≤ 35) || (42 ≤ tag && tag ≤ 58) || tag == 61

section

variable {context : RequestContext} (h : context.Accepted)
include h

/-- Both sides write the same fields when none has its default. -/
theorem fields_received : fields context.received.slots = authenticationFields context ↔
    context.slotId ≠ 0 ∧ context.operationIndex ≠ 0 := by
  have hbinding : context.gssBinding ≠ [] := by
    intro hnil
    have hlength := h.gssBinding
    rw [hnil] at hlength
    cases hlength
  by_cases hslot : context.slotId = 0 <;> by_cases hindex : context.operationIndex = 0 <;>
    simp [RequestContext.received, RequestContext.authentication, FsalAuthentication.slots,
      fields, blob, uint, authenticationFields, asU64_asI64 h.expiryBound, h.principal.nonempty,
      h.sourceAddress.nonempty, h.clientId.nonempty, h.nfsSessionId.nonempty,
      h.expiryPositive, h.sequencePositive, hbinding, hslot, hindex]

theorem encodeToVec_authentication :
    context.authentication.encodeToVec = context.received.encodeToVec := by
  have hexpiry : asU64 (context.contextExpiresAtUnixSeconds : ℤ) =
      asU64 (asI64 context.contextExpiresAtUnixSeconds) := by
    rw [asU64_asI64 h.expiryBound, asU64, if_pos (Int.natCast_nonneg _), Int.toNat_natCast]
  rw [FsalAuthentication.encodeToVec, FsalAuthentication.encodeToVec, FsalAuthentication.slots,
    FsalAuthentication.slots]
  dsimp only [RequestContext.received, RequestContext.authentication]
  rw [hexpiry]

theorem received_valid : context.received.Valid := by
  have hslot := h.slotId
  have hsequence := h.sequenceBound
  have hindex := h.operationIndex
  have hexpiry := h.expiryBound
  have htext : ∀ {bound : ℕ} {text : List Byte}, Captured bound text →
      bound < 2 ^ 64 → TextValid text := by
    intro bound text hcaptured hbound
    have hlength := hcaptured.bounded
    exact ⟨utf8Valid_of_ascii hcaptured.ascii, by omega⟩
  constructor
  · exact htext h.principal (by decide)
  · change context.gssBinding.length < _
    rw [h.gssBinding]
    decide
  · exact htext h.sourceAddress (by decide)
  · change _ ≤ asI64 _
    unfold asI64
    split <;> omega
  · change asI64 _ < _
    unfold asI64
    split <;> omega
  · exact htext h.clientId (by decide)
  · exact htext h.nfsSessionId (by decide)
  · change context.slotId < _
    omega
  · change context.sequenceId < _
    omega
  · change context.operationIndex < _
    omega

omit h in
theorem callFields_writable {authentication : List Byte}
    (hauthentication : authentication.length < 2 ^ 32) (htag : operationTag < 2 ^ 32)
    (hop : operation.length < 2 ^ 32) :
    ∀ f ∈ callFields authentication operationTag operation, Writable f := by
  simp only [callFields, List.forall_mem_cons]
  exact ⟨writable_varint (by decide), writable_bytes hauthentication, writable_varint (by omega),
    writable_bytes hop, List.forall_mem_nil _⟩

theorem filebeltBridgePacket_eq (htag : operationTag < 2 ^ 32) (hop : operation ≠ [])
    (hlength : operation.length ≤ maxFrameBytes) :
    filebeltBridgePacket context operationTag operation = (append (filebeltPbInit maxFrameBytes)
        (encode (callFields (encode (authenticationFields context)) operationTag
          operation))).map fun request => lengthPrefix request.data.length ++ request.data := by
  have hframe : maxFrameBytes < 2 ^ 32 := by decide
  have hauthentication := (authenticationFields_bounded h).2
  have hnonempty : operation.length ≠ 0 := by
    rw [Ne, List.length_eq_zero_iff]
    exact hop
  rw [filebeltBridgePacket, if_neg (by omega), encodeAuthentication_eq h,
    ← foldlM_putField (callFields_writable (by omega) htag (by omega))]
  simp only [callFields, putField, List.foldlM_cons, List.foldlM_nil, Option.bind_eq_bind,
    Option.bind_some, Option.pure_def, Option.bind_fun_some, Option.map_eq_bind, Option.bind_assoc]
  rfl

end

theorem decodeFrame_lengthPrefix (h : payload.length ≤ maxFrameBytes) :
    decodeFrame (lengthPrefix payload.length ++ payload) = some payload := by
  have hframe : maxFrameBytes < 2 ^ 32 := by decide
  have hlength : (((UInt8.ofNat (payload.length / 2 ^ 24)).toNat * 256 +
      (UInt8.ofNat (payload.length / 2 ^ 16)).toNat) * 256 +
      (UInt8.ofNat (payload.length / 2 ^ 8)).toNat) * 256 +
      (UInt8.ofNat payload.length).toNat = payload.length := by
    simp only [UInt8.toNat_ofNat']
    omega
  simp only [lengthPrefix, List.cons_append, List.nil_append, decodeFrame]
  rw [if_neg (by omega)]

theorem capture_position (h : filebeltFsalCaptureRequest compound = some context) :
    context.slotId = compound.slotid ∧ context.operationIndex = compound.oppos ∧
      context.contextExpiresAtUnixSeconds = compound.request.endtime := by
  obtain ⟨-, h⟩ := Option.ite_none_left_eq_some.mp h
  obtain ⟨_, hidentity, h⟩ := Option.bind_eq_some_iff.mp h
  obtain ⟨-, hidentity⟩ := Option.ite_none_left_eq_some.mp hidentity
  obtain ⟨_, -, hidentity⟩ := Option.bind_eq_some_iff.mp hidentity
  obtain ⟨-, hidentity⟩ := Option.ite_none_left_eq_some.mp hidentity
  obtain ⟨_, -, hidentity⟩ := Option.bind_eq_some_iff.mp hidentity
  rw [← Option.some.inj h, ← Option.some.inj hidentity]
  exact ⟨rfl, rfl, rfl⟩

theorem callFields_length (h : context.Accepted) (operationTag : ℕ) (operation : List Byte) :
    (encode (callFields (encode (authenticationFields context)) operationTag
      operation)).length ≤ operation.length + 2048 := by
  have hauthentication := (authenticationFields_bounded h).2
  refine Nat.le_trans (encode_length_le _) ?_
  simp only [callFields, Protobuf.room, Payload.size]
  omega

theorem encodeToVec_of (htag : operationTag ≠ 0) (hop : operation ≠ []) :
    (FsalCall.of a operationTag operation).encodeToVec =
      encode (callFields a.encodeToVec operationTag operation) := by
  simp [FsalCall.encodeToVec, FsalCall.slots, FsalCall.of, fields, uint, blob, message, callFields,
    wireFormat, htag, hop]

/-- A message in a frame has fields that can be written. -/
theorem callFields_valid {authentication : List Byte} (hlength : (encode (callFields authentication
      operationTag operation)).length ≤ maxFrameBytes) (htag : operationTag < 2 ^ 32) :
    ∀ f ∈ callFields authentication operationTag operation, f.Valid := by
  have hframe : maxFrameBytes < 2 ^ 32 := by decide
  have hbytes : ∀ {n : ℕ} {b : List Byte},
      ⟨n, .bytes b⟩ ∈ callFields authentication operationTag operation → b.length < 2 ^ 32 :=
    fun hmem => Nat.lt_of_le_of_lt (Nat.le_trans (length_le_of_mem hmem) hlength) hframe
  exact fun f hf => (callFields_writable (hbytes (n := 2) (by simp [callFields])) htag
    (hbytes (n := 4) (by simp [callFields])) f hf).valid

section

variable (h : context.Accepted) (htag : 0 < operationTag ∧ operationTag < 2 ^ 32)
  (hop : operation ≠ [])
  (hlength : (encode (callFields (encode (authenticationFields context)) operationTag
    operation)).length ≤ maxFrameBytes)
include h htag hop hlength

/-- Bytes that encode the call again have the fields of the call. -/
theorem position_of_decodeExact
    (hdecoded : FsalCall.decodeExact (encode (callFields (encode (authenticationFields context))
      operationTag operation)) = some (context.call operationTag operation)) :
    context.slotId ≠ 0 ∧ context.operationIndex ≠ 0 := by
  obtain ⟨_, -, hcheck⟩ := Option.bind_eq_some_iff.mp hdecoded
  obtain ⟨hsame, hcall⟩ := Option.ite_none_left_eq_some.mp hcheck
  rw [Option.some.inj hcall, not_not, RequestContext.call,
    encodeToVec_of (Nat.pos_iff_ne_zero.mp htag.1) hop, encodeToVec_authentication h] at hsame
  have hfields := encode_injective (callFields_valid (hsame ▸ hlength) htag.2)
    (callFields_valid hlength htag.2) hsame
  simp only [callFields, List.cons.injEq, Field.mk.injEq, Payload.bytes.injEq, true_and,
    and_true] at hfields
  refine (fields_received h).mp (encode_injective ?_ ?_ hfields)
  · exact fields_valid (n := 9) rfl (by decide) (FsalAuthentication.slots_fit (received_valid h))
  · exact fun f hf => ((authenticationFields_bounded h).1 f hf).valid

theorem decodeExact_callFields (hslot : context.slotId ≠ 0) (hindex : context.operationIndex ≠ 0) :
    FsalCall.decodeExact (encode (callFields (encode (authenticationFields context))
      operationTag operation)) = some (.of context.received operationTag operation) := by
  have hauthentication : context.received.encodeToVec = encode (authenticationFields context) := by
    rw [FsalAuthentication.encodeToVec, (fields_received h).mpr ⟨hslot, hindex⟩]
  rw [← hauthentication, ← encodeToVec_of (Nat.pos_iff_ne_zero.mp htag.1) hop]
  refine FsalCall.decodeExact_encodeToVec ⟨show wireFormat < 2 ^ 32 by decide, ?_, htag.2, ?_⟩
  · intro a ha
    rw [← Option.some.inj ha, hauthentication]
    exact ⟨received_valid h, Nat.lt_of_le_of_lt (authenticationFields_bounded h).2 (by decide)⟩
  · have hvalid := callFields_valid hlength htag.2 ⟨4, .bytes operation⟩ (by simp [callFields])
    exact hvalid.fits

end

theorem received_eq_authentication (h : context.Accepted) :
    context.received = context.authentication ↔
      context.contextExpiresAtUnixSeconds < 2 ^ 63 := by
  have hbound := h.expiryBound
  simp only [RequestContext.received, RequestContext.authentication, FsalAuthentication.mk.injEq,
    true_and, and_true, asI64]
  split <;> omega

/-- Of a captured request every nonempty operation that leaves room for the authentication is
packed; and the bridge decodes the packet into the call that the request stands for if and
only if its slot and its index are not zero and its expiry is a signed number. -/
theorem bridge_call_decoded_iff {compound : Compound} {context : RequestContext}
    (hcapture : filebeltFsalCaptureRequest compound = some context)
    {operationTag : ℕ} (htag : operationSupported operationTag)
    (operation : List Byte) :
    (operation ≠ [] → operation.length + 2048 ≤ maxFrameBytes →
      (filebeltBridgePacket context operationTag operation).isSome) ∧
    ∀ packet, filebeltBridgePacket context operationTag operation = some packet →
      (receiveCall packet = some (context.call operationTag operation) ↔
        compound.slotid ≠ 0 ∧ compound.oppos ≠ 0 ∧ compound.request.endtime < 2 ^ 63) := by
  have h := capture_accepted hcapture
  obtain ⟨hslotId, hoperationIndex, hexpiry⟩ := capture_position hcapture
  have hrange : 0 < operationTag ∧ operationTag < 2 ^ 32 := by
    simp only [operationSupported, Bool.or_eq_true, Bool.and_eq_true,
      decide_eq_true_eq, beq_iff_eq] at htag
    omega
  constructor
  · intro hop hroom
    have hlength := callFields_length h operationTag operation
    rw [filebeltBridgePacket_eq h hrange.2 hop (by omega), append_eq_some]
    · rfl
    · simp only [filebeltPbInit, List.length_nil]
      omega
  · intro packet hpacket
    have hrefused : ¬(operation.length = 0 ∨ maxFrameBytes < operation.length) := by
      intro hbad
      rw [filebeltBridgePacket, if_pos hbad] at hpacket
      cases hpacket
    have hop : operation ≠ [] := by
      rintro rfl
      exact hrefused (.inl rfl)
    rw [filebeltBridgePacket_eq h hrange.2 hop (by omega)] at hpacket
    obtain ⟨request, happend, rfl⟩ := Option.map_eq_some_iff.mp hpacket
    have hfits : request.data.length ≤ maxFrameBytes := append_length happend (Nat.zero_le _)
    rw [receiveCall, decodeFrame_lengthPrefix hfits, Option.bind_eq_bind, Option.bind_some]
    rw [append_data happend, filebeltPbInit, List.nil_append] at hfits ⊢
    rw [← hslotId, ← hoperationIndex, ← hexpiry, ← received_eq_authentication h]
    constructor
    · intro hdecoded
      obtain ⟨hslot, hindex⟩ := position_of_decodeExact h hrange hop hfits hdecoded
      rw [decodeExact_callFields h hrange hop hfits hslot hindex] at hdecoded
      exact ⟨hslot, hindex, Option.some.inj (FsalCall.mk.inj (Option.some.inj hdecoded)).2.1⟩
    · rintro ⟨hslot, hindex, hreceived⟩
      rw [decodeExact_callFields h hrange hop hfits hslot hindex, hreceived]
      rfl

/-- A user looks a name up, at one position of a session. -/
def lookupCompound (slotid oppos : ℕ) : Compound where
  minorVersion := 1
  request :=
    { privacy := true
      cname := [97, 108, 105, 99, 101, 64, 69, 88, 65, 77, 80, 76, 69, 46, 67, 79, 77]
      endtime := 2000000000
      prf := some (List.replicate 32 7)
      callerAddress := some
        { text := [49, 57, 50, 46, 48, 46, 50, 46, 55]
          nonempty := by decide
          ascii := by decide +kernel
          bounded := by decide }
      endtimeBound := by omega }
  sequence := 2
  slotid := slotid
  oppos := oppos
  clientid := 1
  sessionId := List.replicate 16 1
  sequenceBound := by decide
  sessionIdLength := by decide

def lookupContext (slotid oppos : ℕ) : RequestContext where
  principal := [97, 108, 105, 99, 101, 64, 69, 88, 65, 77, 80, 76, 69, 46, 67, 79, 77]
  gssBinding := List.replicate 32 7
  sourceAddress := [49, 57, 50, 46, 48, 46, 50, 46, 55]
  contextExpiresAtUnixSeconds := 2000000000
  clientId := List.replicate 15 48 ++ [49]
  nfsSessionId := (List.replicate 16 [48, 49]).flatten
  slotId := slotid
  sequenceId := 2
  operationIndex := oppos

/-- A lookup in a directory with a handle of one byte. -/
def lookupOperation : List Byte := [10, 1, 5]

/-- Over slot one the bridge gets the call. -/
theorem bridge_call_decoded_lookup :
    ∃ packet, filebeltBridgePacket (lookupContext 1 3) 53 lookupOperation =
        some packet ∧
      receiveCall packet = some ((lookupContext 1 3).call 53 lookupOperation) := by
  have hcapture : filebeltFsalCaptureRequest (lookupCompound 1 3) =
      some (lookupContext 1 3) := by decide +kernel
  obtain ⟨hbuilt, hdecoded⟩ := bridge_call_decoded_iff hcapture
    (show operationSupported 53 = true by decide) lookupOperation
  obtain ⟨packet, hpacket⟩ := Option.isSome_iff_exists.mp (hbuilt (by decide) (by decide))
  exact ⟨packet, hpacket, (hdecoded packet hpacket).mpr ⟨by decide, by decide, by decide⟩⟩

/-- Over slot zero, and at index zero, the bridge refuses the packet. -/
theorem bridge_call_refused :
    (filebeltFsalCaptureRequest (lookupCompound 0 3) =
        some (lookupContext 0 3) ∧
      (filebeltBridgePacket (lookupContext 0 3) 53 lookupOperation).isSome =
        true ∧
      (filebeltBridgePacket (lookupContext 0 3) 53 lookupOperation).bind
        receiveCall = none) ∧
    filebeltFsalCaptureRequest (lookupCompound 1 0) =
        some (lookupContext 1 0) ∧
      (filebeltBridgePacket (lookupContext 1 0) 53 lookupOperation).isSome =
        true ∧
      (filebeltBridgePacket (lookupContext 1 0) 53 lookupOperation).bind
        receiveCall = none := by
  decide +kernel

end FileBelt.Nfs
