import FileBelt.Domain.Errors
import FileBelt.Nfs.Uuid
import FileBelt.Support.Encoding

/-!
# Opaque NFS file handles

A handle holds the generation of its key, the scope it was issued for and a tag
over both.  `validate_handle` selects the key by its generation, checks the tag and
reads the scope back.  The keyed hash is a parameter.
-/

namespace FileBelt.Vfs

open Support.Encoding

/-- A byte array of fixed length. -/
abbrev Bytes (n : ℕ) := { bytes : List UInt8 // bytes.length = n }

def Bytes.fromSlice (n : ℕ) (bytes : List UInt8) : Option (Bytes n) :=
  if h : bytes.length = n then some ⟨bytes, h⟩ else none

/-- All bytes are zero. -/
def Bytes.isNil {n : ℕ} (bytes : Bytes n) : Bool := bytes.1.all (· == 0)

/-- Keyed BLAKE3. -/
abbrev KeyedHash := Bytes 32 → List UInt8 → Bytes 32

/-- What a handle stands for. -/
structure NfsHandleScope where
  tenantId : Bytes 16
  exportId : UInt64
  nodeId : Bytes 16
  (exportGeneration nodeGeneration restoreGeneration : UInt64)
  deriving DecidableEq

/-- A key with its generation. -/
structure NfsHandleKey where
  generation : UInt32
  material : Bytes 32
  deriving DecidableEq

/-- The current key and the one before it, as `parse_keyring` accepts them. -/
structure NfsHandleKeyring where
  current : NfsHandleKey
  previous : Option NfsHandleKey
  current_ne_zero : current.generation ≠ 0
  previous_ne_zero : ∀ key ∈ previous, key.generation ≠ 0
  previous_lt : ∀ key ∈ previous, key.generation < current.generation
  material_ne : ∀ key ∈ previous, key.material ≠ current.material

/-- The keys that handles are accepted under. -/
def NfsHandleKeyring.keys (keyring : NfsHandleKeyring) : List NfsHandleKey :=
  keyring.current :: keyring.previous.toList

/-- A stale handle names a key that is gone. -/
inductive NfsHandleError
  | malformed | stale
  deriving DecidableEq, Repr

/-- `FORMAT`. -/
def handleFormat : UInt8 := 2

def bodyBytes : ℕ := 69

def handleBytes : ℕ := 101

variable {bytes handle : List UInt8} {generation generation' : UInt32} {n : ℕ}

section

variable (keyed : KeyedHash)

/-- The keyed digest of a handle body under its domain. -/
def tag (key : Bytes 32) (body : List UInt8) : Bytes 32 :=
  keyed key (Nfs.ascii "filebelt.nfs.filehandle.v2" ++ 0 :: body)

/-- The authenticated part of a handle. -/
def handleBody (scope : NfsHandleScope) (generation : UInt32) : List UInt8 :=
  [handleFormat] ++ (beBytes 4 generation.toNat ++ (scope.tenantId.1 ++
    (beBytes 8 scope.exportId.toNat ++ (scope.nodeId.1 ++ (beBytes 8 scope.exportGeneration.toNat ++
        (beBytes 8 scope.nodeGeneration.toNat ++ beBytes 8 scope.restoreGeneration.toNat))))))

/-- The body followed by its tag. -/
def issueHandle (scope : NfsHandleScope) (key : NfsHandleKey) : List UInt8 :=
  handleBody scope key.generation ++ (tag keyed key.material (handleBody scope key.generation)).1

def u32FromBeBytes (bytes : List UInt8) : UInt32 := UInt32.ofNat (ofBeBytes bytes)

def u64FromBeBytes (bytes : List UInt8) : UInt64 := UInt64.ofNat (ofBeBytes bytes)

/-- The key of a generation. -/
def NfsHandleKeyring.select (keyring : NfsHandleKeyring) (generation : UInt32) :
    Except NfsHandleError NfsHandleKey :=
  if generation = keyring.current.generation then .ok keyring.current
  else
    okOr (keyring.previous.filter fun candidate =>
      candidate.generation = generation) .stale

/-- A scope with an identifier or a generation that nothing has. -/
def NfsHandleScope.isVoid (scope : NfsHandleScope) : Bool :=
  scope.tenantId.isNil || scope.nodeId.isNil || scope.exportId == 0 ||
    scope.exportGeneration == 0 || scope.nodeGeneration == 0 ||
    scope.restoreGeneration == 0

/-- The scope that the slices of a handle spell. -/
def readScope (handle : List UInt8) : Option NfsHandleScope := do
  let tenantId ← Bytes.fromSlice 16 (slice handle 5 21)
  let nodeId ← Bytes.fromSlice 16 (slice handle 29 45)
  return {
    tenantId := tenantId
    exportId := u64FromBeBytes (slice handle 21 29)
    nodeId := nodeId
    exportGeneration := u64FromBeBytes (slice handle 45 53)
    nodeGeneration := u64FromBeBytes (slice handle 53 61)
    restoreGeneration := u64FromBeBytes (slice handle 61 69) }

/-- The scope of a handle with a good tag. -/
def validateHandle (handle : List UInt8) (keyring : NfsHandleKeyring) :
    Except NfsHandleError NfsHandleScope :=
  if handle.length ≠ handleBytes ∨ handle.head? ≠ some handleFormat then
    .error .malformed
  else do
    let key ← keyring.select (u32FromBeBytes (slice handle 1 5))
    if (tag keyed key.material (slice handle 0 bodyBytes)).1 ≠
        slice handle bodyBytes handleBytes then
      .error .malformed
    else do
      let scope ← okOr (readScope handle) .malformed
      if scope.isVoid then .error .stale else return scope

end

/-! ## The layout -/

section

variable {scope : NfsHandleScope} {generation : UInt32}

@[simp]
theorem length_handleBody (scope : NfsHandleScope) (generation : UInt32) :
    (handleBody scope generation).length = bodyBytes := by
  simp only [handleBody, List.length_append, length_beBytes, scope.tenantId.2, scope.nodeId.2]
  rfl

theorem u64FromBeBytes_beBytes (n : UInt64) : u64FromBeBytes (beBytes 8 n.toNat) = n := by
  rw [u64FromBeBytes, ofBeBytes_beBytes n.toNat_lt]
  exact UInt64.ofNat_toNat

theorem u32FromBeBytes_beBytes (n : UInt32) : u32FromBeBytes (beBytes 4 n.toNat) = n := by
  rw [u32FromBeBytes, ofBeBytes_beBytes n.toNat_lt]
  exact UInt32.ofNat_toNat

theorem Bytes.fromSlice_val (bytes : Bytes n) : Bytes.fromSlice n bytes.1 = some bytes :=
  dif_pos bytes.2

theorem slices_handleBody (scope : NfsHandleScope) (generation : UInt32) (rest : List UInt8) :
    slice (handleBody scope generation ++ rest) 1 5 = beBytes 4 generation.toNat ∧
      readScope (handleBody scope generation ++ rest) = some scope := by
  have htenant := scope.tenantId.2
  have hnode := scope.nodeId.2
  simp only [readScope, handleBody, List.append_assoc, slice_append,
    slice_append_self, List.length_singleton, length_beBytes, htenant, hnode,
    Nat.reduceLeDiff, Nat.reduceSub, Bytes.fromSlice_val, u64FromBeBytes_beBytes]
  exact ⟨trivial, rfl⟩

theorem beBytes_u64FromBeBytes (h : bytes.length = 8) :
    beBytes 8 (u64FromBeBytes bytes).toNat = bytes := by
  have hlt := ofBeBytes_lt bytes
  rw [h] at hlt
  rw [u64FromBeBytes, UInt64.toNat_ofNat_of_lt' hlt, ← h]
  exact beBytes_ofBeBytes bytes

theorem beBytes_u32FromBeBytes (h : bytes.length = 4) :
    beBytes 4 (u32FromBeBytes bytes).toNat = bytes := by
  have hlt := ofBeBytes_lt bytes
  rw [h] at hlt
  rw [u32FromBeBytes, UInt32.toNat_ofNat_of_lt' hlt, ← h]
  exact beBytes_ofBeBytes bytes

theorem Bytes.val_fromSlice {result : Bytes n} (h : Bytes.fromSlice n bytes = some result) :
    result.1 = bytes := by
  rw [Bytes.fromSlice] at h
  split at h
  · cases h
    rfl
  · cases h

/-- A handle begins with the body of the scope and the generation that are read
from it. -/
theorem handleBody_readScope (hlength : handle.length = handleBytes)
    (hformat : handle.head? = some handleFormat) (hscope : readScope handle = some scope) :
    handleBody scope (u32FromBeBytes (slice handle 1 5)) = slice handle 0 bodyBytes := by
  have hwidth : ∀ {start stop}, stop ≤ 101 → (slice handle start stop).length = stop - start :=
    fun hstop => length_slice (hlength ▸ hstop)
  obtain ⟨_, htenant, hscope⟩ := Option.bind_eq_some_iff.mp hscope
  obtain ⟨_, hnode, hscope⟩ := Option.bind_eq_some_iff.mp hscope
  obtain rfl := Option.some.inj hscope
  have hfirst : [handleFormat] = slice handle 0 1 := by
    cases handle with
    | nil => cases hformat
    | cons =>
      obtain rfl := Option.some.inj hformat
      rfl
  rw [handleBody, hfirst, beBytes_u32FromBeBytes (hwidth (by decide)),
    Bytes.val_fromSlice htenant, Bytes.val_fromSlice hnode,
    beBytes_u64FromBeBytes (hwidth (by decide)),
    beBytes_u64FromBeBytes (hwidth (by decide)),
    beBytes_u64FromBeBytes (hwidth (by decide)),
    beBytes_u64FromBeBytes (hwidth (by decide))]
  simp (disch := decide) only [slice_append_slice]
  rfl

end

variable {keyed : KeyedHash} {keyring : NfsHandleKeyring} {key : NfsHandleKey}
  {scope scope' : NfsHandleScope} {handle : List UInt8}

theorem select_of_mem (h : key ∈ keyring.keys) : keyring.select key.generation = .ok key := by
  rw [NfsHandleKeyring.select]
  rcases List.mem_cons.mp h with rfl | hprevious
  · rw [if_pos rfl]
  · have hprevious := Option.mem_toList.mp hprevious
    have hne : key.generation ≠ keyring.current.generation :=
      UInt32.ne_of_lt (keyring.previous_lt key hprevious)
    rw [if_neg hne, hprevious, Option.filter_some, if_pos (by simp)]
    rfl

theorem mem_of_select (h : keyring.select generation = .ok key) :
    key ∈ keyring.keys ∧ key.generation = generation := by
  rw [NfsHandleKeyring.select] at h
  split at h
  · next hcurrent =>
    obtain rfl := Except.ok.inj h
    exact ⟨List.mem_cons_self, hcurrent.symm⟩
  · obtain ⟨hprevious, hgeneration⟩ := Option.filter_eq_some_iff.mp (okOr_eq_ok h)
    exact ⟨List.mem_cons_of_mem _ (Option.mem_toList.mpr hprevious), of_decide_eq_true hgeneration⟩

theorem select_of_not_mem (h : generation ∉ keyring.keys.map NfsHandleKey.generation) :
    keyring.select generation = .error .stale := by
  cases hselect : keyring.select generation with
  | ok found =>
    obtain ⟨hfound, hgeneration⟩ := mem_of_select hselect
    exact absurd (List.mem_map.mpr ⟨found, hfound, hgeneration⟩) h
  | error =>
    rw [NfsHandleKeyring.select] at hselect
    split at hselect
    · cases hselect
    · cases hfilter : keyring.previous.filter
          (fun candidate => candidate.generation = generation) with
      | none =>
        rw [hfilter] at hselect
        exact hselect.symm
      | some found =>
        rw [hfilter] at hselect
        cases hselect

theorem slices_issueHandle (scope : NfsHandleScope) (key : NfsHandleKey) :
    slice (issueHandle keyed scope key) 0 bodyBytes = handleBody scope key.generation ∧
      slice (issueHandle keyed scope key) bodyBytes handleBytes =
        (tag keyed key.material (handleBody scope key.generation)).1 := by
  have hbody := length_handleBody scope key.generation
  constructor
  · exact slice_append_self hbody _
  · rw [issueHandle, slice_append hbody.le, hbody]
    exact slice_self (tag keyed key.material (handleBody scope key.generation)).2

/-- A handle that a key has issued is read back as far as the ring allows. -/
theorem validateHandle_issueHandle (scope : NfsHandleScope) (key : NfsHandleKey) :
    validateHandle keyed (issueHandle keyed scope key) keyring = (do
        let found ← keyring.select key.generation
        if (tag keyed found.material (handleBody scope key.generation)).1 ≠
            (tag keyed key.material (handleBody scope key.generation)).1 then
          .error .malformed
        else if scope.isVoid then .error .stale
        else return scope) := by
  have hbody := length_handleBody scope key.generation
  have htag := (tag keyed key.material (handleBody scope key.generation)).2
  have hlength : (issueHandle keyed scope key).length = handleBytes := by
    rw [issueHandle, List.length_append, hbody, htag]
    rfl
  have hformat : (issueHandle keyed scope key).head? = some handleFormat := rfl
  obtain ⟨hgeneration, hscope⟩ := slices_handleBody scope key.generation
    (tag keyed key.material (handleBody scope key.generation)).1
  obtain ⟨hfirst, hlast⟩ := @slices_issueHandle keyed scope key
  rw [validateHandle, if_neg (by rw [hlength, hformat]; simp), hfirst, hlast]
  rw [issueHandle, hgeneration, hscope, u32FromBeBytes_beBytes]
  rfl

theorem validateHandle_eq_ok (h : validateHandle keyed handle keyring = .ok scope) :
    ∃ key ∈ keyring.keys, handle = issueHandle keyed scope key ∧ scope.isVoid = false := by
  rw [validateHandle] at h
  split at h
  · cases h
  next hshape =>
  rw [not_or, not_not, not_not] at hshape
  obtain ⟨hlength, hformat⟩ := hshape
  obtain ⟨key, hselect, h⟩ := bind_eq_ok h
  obtain ⟨hmem, hgeneration⟩ := mem_of_select hselect
  split at h
  · cases h
  next htag =>
  obtain ⟨_, hread, h⟩ := bind_eq_ok h
  split at h
  · cases h
  next hvoid =>
  obtain rfl := Except.ok.inj h
  have hbody := handleBody_readScope hlength hformat (okOr_eq_ok hread)
  refine ⟨key, hmem, ?_, Bool.eq_false_of_not_eq_true hvoid⟩
  rw [issueHandle, hgeneration, hbody, not_not.mp htag,
    slice_append_slice handle (by decide) (by decide)]
  exact (slice_self hlength).symm

theorem handleBody_inj (h : handleBody scope generation = handleBody scope' generation') :
    scope = scope' ∧ generation = generation' := by
  obtain ⟨hgeneration, hscope⟩ := slices_handleBody scope generation []
  obtain ⟨hgeneration', hscope'⟩ := slices_handleBody scope' generation' []
  rw [h] at hgeneration hscope
  constructor
  · exact Option.some.inj (hscope.symm.trans hscope')
  · rw [← u32FromBeBytes_beBytes generation, ← hgeneration, hgeneration', u32FromBeBytes_beBytes]

/-- A handle with the tag of a key of the ring has a body that was issued with it. -/
def Unforgeable (keyed : KeyedHash) (issued : Set (NfsHandleKey × NfsHandleScope))
    (keyring : NfsHandleKeyring) (handle : List UInt8) : Prop :=
  ∀ key ∈ keyring.keys,
    slice handle bodyBytes handleBytes = (tag keyed key.material (slice handle 0 bodyBytes)).1 →
    ∃ signer scope, (signer, scope) ∈ issued ∧ signer.material = key.material ∧
      handleBody scope signer.generation = slice handle 0 bodyBytes

theorem issued_of_validateHandle {issued : Set (NfsHandleKey × NfsHandleScope)}
    (hunforgeable : Unforgeable keyed issued keyring handle)
    (h : validateHandle keyed handle keyring = .ok scope) :
    ∃ key ∈ keyring.keys, (key, scope) ∈ issued ∧ handle = issueHandle keyed scope key := by
  obtain ⟨key, hkey, rfl, -⟩ := validateHandle_eq_ok h
  obtain ⟨hbody, htag⟩ := slices_issueHandle scope key
  have htag' : slice (issueHandle keyed scope key) bodyBytes handleBytes = (tag keyed key.material
        (slice (issueHandle keyed scope key) 0 bodyBytes)).1 := by
    rw [htag, hbody]
  obtain ⟨signer, _, hissued, hmaterial, hsigned⟩ := hunforgeable key hkey htag'
  rw [hbody] at hsigned
  obtain ⟨rfl, hgeneration⟩ := handleBody_inj hsigned
  have hsigner : signer = key := by
    cases signer
    cases hgeneration
    cases hmaterial
    rfl
  rw [hsigner] at hissued
  exact ⟨key, hkey, hissued, rfl⟩

/-- For every ring of keys: a handle that one of its keys issues is read back as
the scope it was issued for, unless that scope is void; a handle that is accepted
was issued by one of its keys for the scope that is returned; a handle of a key
whose generation is not in the ring is stale; and what only a key outside the ring
has issued is not accepted. -/
theorem handles_are_those_of_the_ring (keyed : KeyedHash)
    (keyring : NfsHandleKeyring) :
    (∀ key ∈ keyring.keys, ∀ scope, scope.isVoid = false →
      validateHandle keyed (issueHandle keyed scope key) keyring = .ok scope) ∧
    (∀ issued handle scope, Unforgeable keyed issued keyring handle →
      validateHandle keyed handle keyring = .ok scope →
      ∃ key ∈ keyring.keys, (key, scope) ∈ issued ∧
        handle = issueHandle keyed scope key) ∧
    (∀ key scope, key.generation ∉ keyring.keys.map NfsHandleKey.generation →
      validateHandle keyed (issueHandle keyed scope key) keyring =
        .error .stale) ∧
    ∀ issued key scope, Unforgeable keyed issued keyring (issueHandle keyed scope key) →
      (∀ retained ∈ keyring.keys, (retained, scope) ∉ issued) →
      ∀ read, validateHandle keyed (issueHandle keyed scope key) keyring ≠
        .ok read := by
  refine ⟨?_, fun _ _ _ => issued_of_validateHandle, ?_, ?_⟩
  · intro key hkey scope hscope
    rw [validateHandle_issueHandle, select_of_mem hkey, ok_bind, if_neg (not_not.mpr rfl), hscope]
    rfl
  · intro key scope hremoved
    rw [validateHandle_issueHandle, select_of_not_mem hremoved]
    rfl
  · intro issued key scope hunforgeable hnever read hread
    obtain ⟨retained, hretained, hissued, heq⟩ := issued_of_validateHandle hunforgeable hread
    have hbodies : handleBody scope key.generation = handleBody read retained.generation := by
      rw [← (slices_issueHandle scope key).1, heq, (slices_issueHandle read retained).1]
    obtain ⟨rfl, -⟩ := handleBody_inj hbodies
    exact hnever retained hretained hissued

/-! ## A rotation -/

def olderKey : NfsHandleKey := ⟨2, ⟨List.replicate 32 2, rfl⟩⟩

/-- The key of generation two has become the previous one. -/
def rotatedRing : NfsHandleKeyring where
  current := ⟨3, ⟨List.replicate 32 3, rfl⟩⟩
  previous := some olderKey
  current_ne_zero := by decide
  previous_ne_zero := by
    rintro key ⟨⟩
    decide
  previous_lt := by
    rintro key ⟨⟩
    decide
  material_ne := by
    rintro key ⟨⟩
    decide

def sampleScope (exportId : UInt64) : NfsHandleScope where
  tenantId := ⟨List.replicate 16 1, rfl⟩
  exportId := exportId
  nodeId := ⟨List.replicate 16 4, rfl⟩
  exportGeneration := 3
  nodeGeneration := 5
  restoreGeneration := 7

theorem older_handle_is_read_back :
    validateHandle (fun key _ => key)
      (issueHandle (fun key _ => key) (sampleScope 17) olderKey) rotatedRing =
        .ok (sampleScope 17) :=
  (handles_are_those_of_the_ring (fun key _ => key) rotatedRing).1 olderKey
    (by decide) (sampleScope 17) (by decide)

/-- A handle for the export zero is stale as soon as it is issued. -/
theorem void_handle_is_stale :
    validateHandle (fun key _ => key)
      (issueHandle (fun key _ => key) (sampleScope 0) olderKey) rotatedRing = .error .stale := by
  rw [validateHandle_issueHandle]
  rfl

end FileBelt.Vfs
