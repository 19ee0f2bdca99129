import FileBelt.Vfs.FileHandle
import FileBelt.Write.Extents

/-!
# Export manifests

The VFS and the bridge each hash the manifest of exports, and the bridge compares
what the file-system module reports as installed with what it asked for.  The hash
is a parameter; a length that does not fit a `u32` is a panic, which has no value.
-/

namespace FileBelt

open Support.Encoding

structure NfsExportManifestEntry where
  exportId : UInt64
  driveId : List UInt8
  exportPath : List UInt8
  generation : UInt64
  rootHandle : List UInt8
  readOnly : Bool
  deriving DecidableEq

/-- The arguments of `manifest_digest`. -/
structure ExportManifest where
  tenantId : Vfs.Bytes 16
  featureGeneration : UInt64
  exportGeneration : UInt64
  exports : List NfsExportManifestEntry
  deriving DecidableEq

structure NfsAppliedExport where
  exportId : UInt64
  generation : UInt64
  rootHandleDigest : List UInt8
  deriving DecidableEq

structure GatewayReconcileRequest where
  featureGeneration : UInt64
  exportGeneration : UInt64
  manifestDigest : List UInt8
  appliedExports : List NfsAppliedExport

def u32TryFrom (n : ℕ) : Option ℕ := if n < 2 ^ 32 then some n else none

/-! ## The encoder of the VFS -/

variable {manifest' : ExportManifest}

namespace Vfs

def hashLengthPrefixed (hasher value : List UInt8) : Option (List UInt8) := do
  let length ← u32TryFrom value.length
  return hasher ++ beBytes 4 length ++ value

def hashExport (hasher : List UInt8) (entry : NfsExportManifestEntry) : Option (List UInt8) := do
  let hasher := hasher ++ beBytes 8 entry.exportId.toNat
  let hasher ← hashLengthPrefixed hasher entry.driveId
  let hasher := hasher ++ beBytes 8 entry.generation.toNat
  let hasher := hasher ++ [if entry.readOnly then 1 else 0]
  let hasher ← hashLengthPrefixed hasher entry.exportPath
  hashLengthPrefixed hasher entry.rootHandle

/-- What `manifest_digest` hashes. -/
def manifestInput (manifest : ExportManifest) : Option (List UInt8) := do
  let hasher := Nfs.ascii "filebelt.nfs.export-manifest.v1" ++ [0]
  let hasher := hasher ++ manifest.tenantId.1
  let hasher := hasher ++ beBytes 8 manifest.featureGeneration.toNat
  let hasher := hasher ++ beBytes 8 manifest.exportGeneration.toNat
  let count ← u32TryFrom manifest.exports.length
  let hasher := hasher ++ beBytes 4 count
  manifest.exports.foldlM hashExport hasher

/-- What `root_handle_digest` hashes. -/
def rootHandleInput (handle : List UInt8) : Option (List UInt8) :=
  hashLengthPrefixed (Nfs.ascii "filebelt.nfs.root-handle.v1" ++ [0]) handle

variable (blake3 : List UInt8 → Write.Digest)

def manifestDigest (manifest : ExportManifest) : Option Write.Digest :=
  (manifestInput manifest).map blake3

def rootHandleDigest (handle : List UInt8) : Option Write.Digest :=
  (rootHandleInput handle).map blake3

/-- The closure of `any` in `nfs_gateway_reconcile`. -/
def entryDiffers (applied : NfsAppliedExport) (expected : NfsExportManifestEntry) : Option Bool :=
  if applied.exportId ≠ expected.exportId ∨ applied.generation ≠ expected.generation then some true
  else
    (rootHandleDigest blake3 expected.rootHandle).map fun digest =>
      applied.rootHandleDigest ≠ digest.toList

/-- `any` over the pairs, up to the first that differs. -/
def anyDiffers : List (NfsAppliedExport × NfsExportManifestEntry) → Option Bool
  | [] => some false
  | (applied, expected) :: pairs => do
      if ← entryDiffers blake3 applied expected then return true
      else anyDiffers pairs

/-- Whether `nfs_gateway_reconcile` answers `vfs.nfs_manifest_stale` before it
reaches the database. -/
def manifestStale (manifest : ExportManifest) (request : GatewayReconcileRequest) :
    Option Bool := do
  let expectedDigest ← manifestDigest blake3 manifest
  if request.featureGeneration ≠ manifest.featureGeneration ∨
      request.exportGeneration ≠ manifest.exportGeneration ∨
      request.manifestDigest ≠ expectedDigest.toList ∨
      request.appliedExports.length ≠ manifest.exports.length then return true
  else anyDiffers blake3 (request.appliedExports.zip manifest.exports)

end Vfs

/-! ## The encoder of the bridge -/

namespace Nfs

def hashLengthPrefixed (hasher value : List UInt8) : Option (List UInt8) := do
  let length ← u32TryFrom value.length
  let hasher := hasher ++ beBytes 4 length
  return hasher ++ value

def hashExport (hasher : List UInt8) (entry : NfsExportManifestEntry) : Option (List UInt8) := do
  let hasher := hasher ++ beBytes 8 entry.exportId.toNat
  let hasher ← hashLengthPrefixed hasher entry.driveId
  let hasher := hasher ++ beBytes 8 entry.generation.toNat
  let hasher := hasher ++ [if entry.readOnly then 1 else 0]
  let hasher ← hashLengthPrefixed hasher entry.exportPath
  hashLengthPrefixed hasher entry.rootHandle

/-- What `manifest_digest` hashes. -/
def manifestInput (manifest : ExportManifest) : Option (List UInt8) := do
  let hasher := ascii "filebelt.nfs.export-manifest.v1" ++ [0]
  let hasher := hasher ++ manifest.tenantId.1
  let hasher := hasher ++ beBytes 8 manifest.featureGeneration.toNat
  let hasher := hasher ++ beBytes 8 manifest.exportGeneration.toNat
  let count ← u32TryFrom manifest.exports.length
  let hasher := hasher ++ beBytes 4 count
  manifest.exports.foldlM hashExport hasher

/-- What `root_handle_digest` hashes. -/
def rootHandleInput (handle : List UInt8) : Option (List UInt8) :=
  hashLengthPrefixed (ascii "filebelt.nfs.root-handle.v1" ++ [0]) handle

variable (blake3 : List UInt8 → Write.Digest)

def manifestDigest (manifest : ExportManifest) : Option Write.Digest :=
  (manifestInput manifest).map blake3

def rootHandleDigest (handle : List UInt8) : Option Write.Digest :=
  (rootHandleInput handle).map blake3

/-- The closure of `all` in `applied_matches`. -/
def entryMatches (expected : NfsExportManifestEntry) (actual : NfsAppliedExport) : Option Bool :=
  if expected.exportId = actual.exportId ∧ expected.generation = actual.generation then
    (rootHandleDigest blake3 expected.rootHandle).map fun digest =>
      digest.toList = actual.rootHandleDigest
  else some false

/-- `all` over the pairs, up to the first that does not match. -/
def allMatch : List (NfsExportManifestEntry × NfsAppliedExport) → Option Bool
  | [] => some true
  | (expected, actual) :: pairs => do
      if ← entryMatches blake3 expected actual then allMatch pairs
      else return false

def appliedMatches (exports : List NfsExportManifestEntry)
    (applied : List NfsAppliedExport) : Option Bool :=
  if exports.length = applied.length then allMatch blake3 (exports.zip applied)
  else some false

structure ControlAppliedExport where
  exportId : UInt64
  generation : UInt64
  rootHandle : List UInt8
  deriving DecidableEq

/-- What the bridge keeps of an export that is reported as installed. -/
def readBack (reported : ControlAppliedExport) : Option NfsAppliedExport := do
  let digest ← rootHandleDigest blake3 reported.rootHandle
  return ⟨reported.exportId, reported.generation, digest.toList⟩

inductive ControlError
  | unavailable | rejected
  deriving DecidableEq

/-- `ApplyManifestResponse`; its first three fields are compared with the request
in `acknowledged`. -/
structure ApplyManifestResponse where
  acknowledged : Bool
  exports : List ControlAppliedExport

/-- `apply_and_read_back`, given the outcome of the exchange. -/
def applyAndReadBack (manifest : ExportManifest)
    (exchange : Except ControlError ApplyManifestResponse) :
    Option (Except ControlError (Write.Digest × List NfsAppliedExport)) := do
  let digest ← manifestDigest blake3 manifest
  match exchange with
  | .error error => return .error error
  | .ok response =>
    let applied ← response.exports.mapM (readBack blake3)
    if !response.acknowledged then return .error .rejected
    else if ← appliedMatches blake3 manifest.exports applied then
      return .ok (digest, applied)
    else return .error .rejected

/-- The request that `apply_offer` sends. -/
def reconcileRequest (manifest : ExportManifest) (digest : Write.Digest)
    (applied : List NfsAppliedExport) : GatewayReconcileRequest where
  featureGeneration := manifest.featureGeneration
  exportGeneration := manifest.exportGeneration
  manifestDigest := digest.toList
  appliedExports := applied

variable {exchange : Except ControlError ApplyManifestResponse}

end Nfs

/-! ## The byte strings -/

theorem u32TryFrom_eq_some {n length : ℕ} (h : u32TryFrom n = some length) :
    n < 256 ^ 4 ∧ length = n := by
  rw [u32TryFrom] at h
  split at h
  · next hlt => exact ⟨hlt, (Option.some.inj h).symm⟩
  · cases h

/-- The fields of an entry whose length is hashed as a `u32`. -/
structure NfsExportManifestEntry.Bounded (entry : NfsExportManifestEntry) : Prop where
  driveId : entry.driveId.length < 256 ^ 4
  exportPath : entry.exportPath.length < 256 ^ 4
  rootHandle : entry.rootHandle.length < 256 ^ 4

def NfsExportManifestEntry.code (entry : NfsExportManifestEntry) : List UInt8 :=
  beBytes 8 entry.exportId.toNat ++ (lengthPrefixed 4 entry.driveId ++
    (beBytes 8 entry.generation.toNat ++ ([if entry.readOnly then 1 else 0] ++
      (lengthPrefixed 4 entry.exportPath ++ lengthPrefixed 4 entry.rootHandle))))

theorem unambiguous_u64 : Unambiguous (fun _ => True) fun n : UInt64 => beBytes 8 n.toNat := by
  intro n m s t _ _ h
  obtain ⟨hn, hst⟩ := unambiguous_beBytes 8 n.toNat_lt m.toNat_lt h
  exact ⟨UInt64.toNat_inj.mp hn, hst⟩

theorem unambiguous_flag :
    Unambiguous (fun _ => True) fun flag : Bool => [if flag then (1 : UInt8) else 0] := by
  apply unambiguous_of_length 1
  · intro _ _
    rfl
  · intro a b _ _ h
    revert a b
    decide

/-- An entry is determined by its bytes, whatever follows them. -/
theorem unambiguous_entry :
    Unambiguous NfsExportManifestEntry.Bounded NfsExportManifestEntry.code := by
  rintro ⟨id, drive, path, generation, handle, flag⟩
    ⟨id', drive', path', generation', handle', flag'⟩ s t ha hb h
  simp only [NfsExportManifestEntry.code, List.append_assoc] at h
  obtain ⟨hid, h⟩ := unambiguous_u64 trivial trivial h
  obtain ⟨hdrive, h⟩ := unambiguous_lengthPrefixed 4 ha.driveId hb.driveId h
  obtain ⟨hgeneration, h⟩ := unambiguous_u64 trivial trivial h
  obtain ⟨hflag, h⟩ := unambiguous_flag trivial trivial h
  obtain ⟨hpath, h⟩ := unambiguous_lengthPrefixed 4 ha.exportPath hb.exportPath h
  obtain ⟨hhandle, h⟩ := unambiguous_lengthPrefixed 4 ha.rootHandle hb.rootHandle h
  dsimp only at hdrive hpath hhandle
  rw [hid, hdrive, hgeneration, hflag, hpath, hhandle]
  exact ⟨rfl, h⟩

namespace Vfs

variable {hasher result : List UInt8}

theorem hashLengthPrefixed_eq_some {value : List UInt8}
    (h : hashLengthPrefixed hasher value = some result) :
    value.length < 256 ^ 4 ∧ result = hasher ++ lengthPrefixed 4 value := by
  obtain ⟨length, hlength, h⟩ := Option.bind_eq_some_iff.mp h
  obtain ⟨hlt, rfl⟩ := u32TryFrom_eq_some hlength
  refine ⟨hlt, (Option.some.inj h).symm.trans ?_⟩
  rw [lengthPrefixed, List.append_assoc]

theorem hashExport_eq_some {entry : NfsExportManifestEntry}
    (h : hashExport hasher entry = some result) :
    entry.Bounded ∧ result = hasher ++ entry.code := by
  obtain ⟨behindDrive, h₁, h⟩ := Option.bind_eq_some_iff.mp h
  obtain ⟨behindPath, h₂, h₃⟩ := Option.bind_eq_some_iff.mp h
  obtain ⟨hdrive, rfl⟩ := hashLengthPrefixed_eq_some h₁
  obtain ⟨hpath, rfl⟩ := hashLengthPrefixed_eq_some h₂
  obtain ⟨hhandle, rfl⟩ := hashLengthPrefixed_eq_some h₃
  refine ⟨⟨hdrive, hpath, hhandle⟩, ?_⟩
  simp only [NfsExportManifestEntry.code, List.append_assoc]

theorem foldlM_hashExport_eq_some {entries : List NfsExportManifestEntry}
    (h : entries.foldlM hashExport hasher = some result) : (∀ entry ∈ entries, entry.Bounded) ∧
      result = hasher ++ entries.flatMap NfsExportManifestEntry.code := by
  induction entries generalizing hasher with
  | nil =>
    refine ⟨fun _ h => absurd h List.not_mem_nil, ?_⟩
    rw [List.flatMap_nil, List.append_nil]
    exact (Option.some.inj h).symm
  | cons entry entries ih =>
    obtain ⟨behind, hentry, h⟩ := Option.bind_eq_some_iff.mp h
    obtain ⟨hbounded, rfl⟩ := hashExport_eq_some hentry
    obtain ⟨hrest, rfl⟩ := ih h
    refine ⟨List.forall_mem_cons.mpr ⟨hbounded, hrest⟩, ?_⟩
    rw [List.flatMap_cons, List.append_assoc]

theorem manifestInput_inj {manifest : ExportManifest} {bytes : List UInt8}
    (h : manifestInput manifest = some bytes)
    (h' : manifestInput manifest' = some bytes) : manifest = manifest' := by
  obtain ⟨count, hcount, h⟩ := Option.bind_eq_some_iff.mp h
  obtain ⟨count', hcount', h'⟩ := Option.bind_eq_some_iff.mp h'
  obtain ⟨hlt, rfl⟩ := u32TryFrom_eq_some hcount
  obtain ⟨hlt', rfl⟩ := u32TryFrom_eq_some hcount'
  obtain ⟨hbounded, rfl⟩ := foldlM_hashExport_eq_some h
  obtain ⟨hbounded', heq⟩ := foldlM_hashExport_eq_some h'
  cases manifest with
  | mk tenant feature generation exports =>
  cases manifest' with
  | mk tenant' feature' generation' exports' =>
  simp only [List.append_assoc, List.append_cancel_left_eq] at heq
  have htenants : tenant.1.length = tenant'.1.length := tenant.2.trans tenant'.2.symm
  obtain ⟨htenant, heq⟩ := List.append_inj heq htenants
  obtain ⟨hfeature, heq⟩ := unambiguous_u64 trivial trivial heq
  obtain ⟨hgeneration, heq⟩ := unambiguous_u64 trivial trivial heq
  obtain ⟨hlength, heq⟩ := unambiguous_beBytes 4 hlt hlt' heq
  have heq : exports.flatMap NfsExportManifestEntry.code ++ [] =
      exports'.flatMap NfsExportManifestEntry.code ++ [] := congrArg (· ++ []) heq
  obtain ⟨hexports, -⟩ := unambiguous_entry.flatMap hbounded hbounded' hlength heq
  dsimp only at hexports
  rw [Subtype.ext htenant, hfeature, hgeneration, hexports]

end Vfs

namespace Nfs

theorem hashExport_eq_vfs : hashExport = Vfs.hashExport := rfl

theorem manifestInput_eq_vfs (manifest : ExportManifest) :
    manifestInput manifest = Vfs.manifestInput manifest := by
  rw [manifestInput, hashExport_eq_vfs, Vfs.manifestInput]

/-! ## The comparisons -/

/-- What the file-system module reports of an entry that it has installed. -/
def installed (entry : NfsExportManifestEntry) : ControlAppliedExport :=
  ⟨entry.exportId, entry.generation, entry.rootHandle⟩

section

variable {blake3 : List UInt8 → Write.Digest} {inputs : Set (List UInt8)}
  {digest : Write.Digest} {expected : NfsExportManifestEntry}
  {actual : NfsAppliedExport} {exports : List NfsExportManifestEntry}
  {applied : List NfsAppliedExport} {manifest : ExportManifest}

/-- Strings with one digest, where no two of them collide. -/
theorem input_of_digest (hblake3 : Set.InjOn blake3 inputs) {input input' : Option (List UInt8)}
    (hinput : ∀ bytes ∈ input, bytes ∈ inputs) (hinput' : ∀ bytes ∈ input', bytes ∈ inputs)
    (h : input.map blake3 = some digest) (h' : input'.map blake3 = some digest) :
    ∃ bytes, input = some bytes ∧ input' = some bytes := by
  obtain ⟨bytes, hbytes, rfl⟩ := Option.map_eq_some_iff.mp h
  obtain ⟨bytes', hbytes', heq⟩ := Option.map_eq_some_iff.mp h'
  obtain rfl := hblake3 (hinput' bytes' hbytes') (hinput bytes hbytes) heq
  exact ⟨bytes', hbytes, hbytes'⟩

theorem rootHandleInput_inj {handle handle' bytes : List UInt8}
    (h : rootHandleInput handle = some bytes)
    (h' : rootHandleInput handle' = some bytes) : handle = handle' := by
  obtain ⟨hlt, rfl⟩ := Vfs.hashLengthPrefixed_eq_some h
  obtain ⟨hlt', heq⟩ := Vfs.hashLengthPrefixed_eq_some h'
  have hcodes : lengthPrefixed 4 handle ++ [] = lengthPrefixed 4 handle' ++ [] :=
    congrArg (· ++ []) (List.append_cancel_left heq)
  exact (unambiguous_lengthPrefixed 4 hlt hlt' hcodes).1

theorem entryMatches_eq_true : entryMatches blake3 expected actual = some true ↔
      expected.exportId = actual.exportId ∧ expected.generation = actual.generation ∧
        ∃ digest, rootHandleDigest blake3 expected.rootHandle = some digest ∧
          digest.toList = actual.rootHandleDigest := by
  rw [entryMatches]
  by_cases hkeys : expected.exportId = actual.exportId ∧ expected.generation = actual.generation
  · simp [hkeys.1, hkeys.2]
  · rw [if_neg hkeys]
    constructor
    · intro h
      cases h
    · rintro ⟨hid, hgeneration, -⟩
      exact absurd ⟨hid, hgeneration⟩ hkeys

theorem entryMatches_readBack (hblake3 : Set.InjOn blake3 inputs) {reported : ControlAppliedExport}
    (hexpected : ∀ bytes ∈ rootHandleInput expected.rootHandle, bytes ∈ inputs)
    (hreported : ∀ bytes ∈ rootHandleInput reported.rootHandle, bytes ∈ inputs)
    (h : readBack blake3 reported = some actual) :
    entryMatches blake3 expected actual = some true ↔ installed expected = reported := by
  obtain ⟨digest, hdigest, hactual⟩ := Option.bind_eq_some_iff.mp h
  obtain rfl := Option.some.inj hactual
  rw [entryMatches_eq_true]
  constructor
  · rintro ⟨hid, hgeneration, digest', hdigest', heq⟩
    obtain rfl := Vector.toList_inj.mp heq
    obtain ⟨bytes, hbytes, hbytes'⟩ := input_of_digest hblake3 hexpected hreported hdigest' hdigest
    rw [installed, hid, hgeneration, rootHandleInput_inj hbytes hbytes']
  · rintro rfl
    exact ⟨rfl, rfl, digest, hdigest, rfl⟩

theorem allMatch_cons {pairs : List (NfsExportManifestEntry × NfsAppliedExport)} :
    allMatch blake3 ((expected, actual) :: pairs) = some true ↔
      entryMatches blake3 expected actual = some true ∧ allMatch blake3 pairs = some true := by
  rw [allMatch]
  rcases entryMatches blake3 expected actual with _ | _ | _ <;> simp

theorem appliedMatches_cons :
    appliedMatches blake3 (expected :: exports) (actual :: applied) = some true ↔
      entryMatches blake3 expected actual = some true ∧
        appliedMatches blake3 exports applied = some true := by
  rw [appliedMatches, appliedMatches, List.length_cons, List.length_cons, List.zip_cons_cons]
  by_cases hlength : exports.length = applied.length
  · rw [if_pos (congrArg (· + 1) hlength), if_pos hlength, allMatch_cons]
  · rw [if_neg (fun h => hlength (Nat.succ.inj h)), if_neg hlength]
    simp

theorem appliedMatches_readBack (hblake3 : Set.InjOn blake3 inputs)
    {reported : List ControlAppliedExport}
    (hexports : ∀ entry ∈ exports, ∀ bytes ∈ rootHandleInput entry.rootHandle, bytes ∈ inputs)
    (hreported : ∀ entry ∈ reported, ∀ bytes ∈ rootHandleInput entry.rootHandle, bytes ∈ inputs)
    (h : reported.mapM (readBack blake3) = some applied) :
    appliedMatches blake3 exports applied = some true ↔ exports.map installed = reported := by
  induction reported generalizing exports applied with
  | nil =>
    obtain rfl := Option.some.inj h
    cases exports with
    | nil => simp [appliedMatches, allMatch]
    | cons => simp [appliedMatches]
  | cons first reported ih =>
    rw [List.mapM_cons] at h
    obtain ⟨actual, hactual, h⟩ := Option.bind_eq_some_iff.mp h
    obtain ⟨rest, hrest, h⟩ := Option.bind_eq_some_iff.mp h
    obtain rfl := Option.some.inj h
    cases exports with
    | nil => simp [appliedMatches]
    | cons =>
      obtain ⟨hexpected, hexports⟩ := List.forall_mem_cons.mp hexports
      obtain ⟨hfirst, hreported⟩ := List.forall_mem_cons.mp hreported
      rw [appliedMatches_cons, ih hexports hreported hrest, List.map_cons,
        List.cons.injEq, entryMatches_readBack hblake3 hexpected hfirst hactual]

/-! ## The reconciliation -/

theorem entryDiffers_eq_false : Vfs.entryDiffers blake3 actual expected = some false ↔
      entryMatches blake3 expected actual = some true := by
  rw [entryMatches_eq_true, Vfs.entryDiffers]
  by_cases hkeys : actual.exportId ≠ expected.exportId ∨ actual.generation ≠ expected.generation
  · rw [if_pos hkeys]
    constructor
    · intro h
      cases h
    · rintro ⟨hid, hgeneration, -⟩
      rcases hkeys with hkeys | hkeys
      · exact absurd hid.symm hkeys
      · exact absurd hgeneration.symm hkeys
  · rw [if_neg hkeys, Option.map_eq_some_iff]
    rw [not_or, not_not, not_not] at hkeys
    constructor
    · rintro ⟨digest, hdigest, hsame⟩
      have hsame := not_not.mp (of_decide_eq_false hsame)
      exact ⟨hkeys.1.symm, hkeys.2.symm, digest, hdigest, hsame.symm⟩
    · rintro ⟨-, -, digest, hdigest, hsame⟩
      exact ⟨digest, hdigest, decide_eq_false (not_not.mpr hsame.symm)⟩

theorem anyDiffers_eq_false : Vfs.anyDiffers blake3 (applied.zip exports) = some false ↔
      allMatch blake3 (exports.zip applied) = some true := by
  induction exports generalizing applied with
  | nil =>
    rw [List.zip_nil_right, List.zip_nil_left, allMatch, Vfs.anyDiffers]
    simp
  | cons expected exports ih =>
    cases applied with
    | nil =>
      rw [List.zip_nil_right, List.zip_nil_left, allMatch, Vfs.anyDiffers]
      simp
    | cons actual =>
      rw [List.zip_cons_cons, List.zip_cons_cons, allMatch_cons,
        ← entryDiffers_eq_false, ← ih, Vfs.anyDiffers]
      rcases Vfs.entryDiffers blake3 actual expected with _ | _ | _ <;> simp

/-- What the VFS has compared when it does not call a manifest stale. -/
theorem manifestStale_eq_false {request : GatewayReconcileRequest} :
    Vfs.manifestStale blake3 manifest request = some false ↔
      request.featureGeneration = manifest.featureGeneration ∧
        request.exportGeneration = manifest.exportGeneration ∧
        (∃ digest, Vfs.manifestDigest blake3 manifest = some digest ∧
          request.manifestDigest = digest.toList) ∧
        appliedMatches blake3 manifest.exports request.appliedExports = some true := by
  rw [Vfs.manifestStale, appliedMatches]
  cases Vfs.manifestDigest blake3 manifest with
  | none => simp
  | some digest =>
    by_cases hlength : manifest.exports.length = request.appliedExports.length
    · rw [if_pos hlength, ← anyDiffers_eq_false]
      by_cases hfeature : request.featureGeneration = manifest.featureGeneration
      · by_cases hgeneration : request.exportGeneration = manifest.exportGeneration
        · by_cases hdigest : request.manifestDigest = digest.toList
          · simp [hfeature, hgeneration, hdigest, hlength]
          · simp [hdigest]
        · simp [hgeneration]
      · simp [hfeature]
    · simp [hlength, Ne.symm hlength]

variable {exchange : Except ControlError ApplyManifestResponse}

/-- What the bridge has checked when it returns the digest and the exports. -/
theorem applyAndReadBack_eq_ok
    (h : applyAndReadBack blake3 manifest exchange = some (.ok (digest, applied))) :
    manifestDigest blake3 manifest = some digest ∧
      appliedMatches blake3 manifest.exports applied = some true := by
  obtain ⟨digest', hdigest, h⟩ := Option.bind_eq_some_iff.mp h
  cases exchange with
  | error => cases h
  | ok response =>
    obtain ⟨read, hread, h⟩ := Option.bind_eq_some_iff.mp h
    cases hacknowledged : response.acknowledged with
    | false =>
      rw [hacknowledged] at h
      cases h
    | true =>
      rw [hacknowledged] at h
      obtain ⟨verdict, hmatches, h⟩ := Option.bind_eq_some_iff.mp h
      cases verdict with
      | false => cases h
      | true =>
        obtain ⟨rfl, rfl⟩ := Prod.mk.inj (Except.ok.inj (Option.some.inj h))
        exact ⟨hdigest, hmatches⟩

/-- The VFS acknowledges exactly the manifest that it would offer now. -/
theorem manifestStale_reconcileRequest (hblake3 : Set.InjOn blake3 inputs)
    (hinput : ∀ bytes ∈ Vfs.manifestInput manifest, bytes ∈ inputs)
    (hinput' : ∀ bytes ∈ manifestInput manifest', bytes ∈ inputs)
    (h : applyAndReadBack blake3 manifest' exchange = some (.ok (digest, applied))) :
    Vfs.manifestStale blake3 manifest (reconcileRequest manifest' digest applied) = some false ↔
      manifest = manifest' := by
  obtain ⟨hdigest, hmatches⟩ := applyAndReadBack_eq_ok h
  rw [manifestStale_eq_false]
  constructor
  · rintro ⟨-, -, ⟨digest', hdigest', heq⟩, -⟩
    obtain rfl := Vector.toList_inj.mp heq
    obtain ⟨bytes, hbytes, hbytes'⟩ := input_of_digest hblake3 hinput hinput' hdigest' hdigest
    exact Vfs.manifestInput_inj hbytes hbytes'
  · rintro rfl
    exact ⟨rfl, rfl, ⟨digest, hdigest, rfl⟩, hmatches⟩

end

/-- A manifest is determined by the byte string that the VFS hashes, and the bridge
hashes the same one.  Where no two of the hashed strings collide, `applied_matches`
holds exactly when the identifiers, the generations and the root handles of the
exports are those that are reported, and the VFS acknowledges a reconciliation
exactly when its manifest is the one that the bridge has applied. -/
theorem manifests_agree (blake3 : List UInt8 → Write.Digest)
    (inputs : Set (List UInt8)) (hblake3 : Set.InjOn blake3 inputs) :
    (∀ manifest manifest' bytes, Vfs.manifestInput manifest = some bytes →
      Vfs.manifestInput manifest' = some bytes → manifest = manifest') ∧
    (∀ manifest, manifestInput manifest = Vfs.manifestInput manifest) ∧
    (∀ exports reported applied,
      (∀ entry ∈ exports, ∀ bytes ∈ rootHandleInput entry.rootHandle,
        bytes ∈ inputs) →
      (∀ entry ∈ reported, ∀ bytes ∈ rootHandleInput entry.rootHandle,
        bytes ∈ inputs) →
      reported.mapM (readBack blake3) = some applied →
      (appliedMatches blake3 exports applied = some true ↔
        exports.map installed = reported)) ∧
    ∀ manifest manifest' exchange digest applied,
      (∀ bytes ∈ Vfs.manifestInput manifest, bytes ∈ inputs) →
      (∀ bytes ∈ manifestInput manifest', bytes ∈ inputs) →
      applyAndReadBack blake3 manifest' exchange = some (.ok (digest, applied)) →
      (Vfs.manifestStale blake3 manifest (reconcileRequest manifest' digest applied) =
          some false ↔
        manifest = manifest') := by
  refine ⟨fun _ _ _ => Vfs.manifestInput_inj, manifestInput_eq_vfs, ?_, ?_⟩
  · intro exports reported applied hexports hreported h
    exact appliedMatches_readBack hblake3 hexports hreported h
  · intro manifest manifest' exchange digest applied hinput hinput' h
    exact manifestStale_reconcileRequest hblake3 hinput hinput' h

/-! ## Two manifests of one export -/

def pathManifest (path : List UInt8) : ExportManifest where
  tenantId := (Vfs.sampleScope 1).tenantId
  featureGeneration := 1
  exportGeneration := 1
  exports := [⟨1, ascii "drive", path, 1, [7], false⟩]

/-- The last 32 bytes stand for a hash. -/
def lastBytes (bytes : List UInt8) : Write.Digest :=
  Vector.ofFn fun i : Fin 32 => bytes.reverse.getD i 0

/-- The strings that are hashed for the two manifests and their root handle. -/
def hashedStrings : List (List UInt8) :=
  (manifestInput (pathManifest (ascii "/a"))).toList ++
    ((manifestInput (pathManifest (ascii "/b"))).toList ++ (rootHandleInput [7]).toList)

theorem hashedStrings_injOn :
    ∀ x ∈ hashedStrings, ∀ y ∈ hashedStrings, lastBytes x = lastBytes y → x = y := by
  decide +kernel

def installedReport : ApplyManifestResponse where
  acknowledged := true
  exports := (pathManifest (ascii "/a")).exports.map installed

/-- What the bridge reads back of the export. -/
def appliedExport : NfsAppliedExport := ⟨1, 1, (lastBytes ((rootHandleInput [7]).getD [])).toList⟩

/-- What the bridge has applied is stale once the path of the export is another. -/
theorem other_path_is_stale :
    Vfs.manifestStale lastBytes (pathManifest (ascii "/b"))
      (reconcileRequest (pathManifest (ascii "/a"))
        (lastBytes ((manifestInput (pathManifest (ascii "/a"))).getD []))
        [appliedExport]) ≠ some false := by
  have hinputs : Set.InjOn lastBytes { bytes | bytes ∈ hashedStrings } :=
    fun x hx y hy => hashedStrings_injOn x hx y hy
  have happlied : applyAndReadBack lastBytes (pathManifest (ascii "/a")) (.ok installedReport) =
        some (.ok (lastBytes ((manifestInput (pathManifest (ascii "/a"))).getD []),
          [appliedExport])) := by
    decide +kernel
  have hstale := (manifests_agree lastBytes _ hinputs).2.2.2
    (pathManifest (ascii "/b")) (pathManifest (ascii "/a")) _ _ _
    (by decide +kernel) (by decide +kernel) happlied
  rw [Ne, hstale]
  decide

theorem other_path_matches :
    (∀ x ∈ hashedStrings, ∀ y ∈ hashedStrings, lastBytes x = lastBytes y → x = y) ∧
      pathManifest (ascii "/a") ≠ pathManifest (ascii "/b") ∧
      ((pathManifest (ascii "/b")).exports.map installed).mapM (readBack lastBytes) =
        some [appliedExport] ∧
      appliedMatches lastBytes (pathManifest (ascii "/a")).exports [appliedExport] = some true := by
  refine ⟨hashedStrings_injOn, ?_, ?_, ?_⟩
  · decide
  · decide +kernel
  · decide +kernel

end Nfs

end FileBelt
