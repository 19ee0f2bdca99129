import FileBelt.Support.Chunks
import FileBelt.Upload.Geometry

/-!
# Agreement of the components on upload geometry

The components agree for every validated configuration and every admissible size,
except where the threshold for whole objects is below the chunk size and the file lies
between the two: the API then plans a chunked upload of one part, which the database
refuses.
-/

namespace FileBelt.Upload

open Support

/-- The part sizes and ranges computed from one upload row by the API and by
the worker. -/
structure PartsAgree (size : ℕ) (upload : UploadRecord) : Prop where
  agree : ∀ (part partSize : ℕ),
    apiPartSize upload part = .ok partSize ↔ expectedPartSize upload part = .ok partSize
  sizes : ∃ sizes : List ℕ, (sizes.length : ℤ) = upload.partCount ∧
    (∀ (part : ℕ) (hpart : part < sizes.length),
      expectedPartSize upload part = .ok sizes[part]) ∧
    (∀ partSize ∈ sizes, size ≠ 0 → 0 < partSize) ∧
    (∀ partSize ∈ sizes, partSize < 2 ^ 31) ∧ sizes.sum = size
  range : ∀ (part partSize : ℕ), expectedPartSize upload part = .ok partSize →
    ∃ range, uploadCapabilityRange upload part = .ok range ∧
      ∀ rangeStart rangeEnd,
        rangeRefused partSize rangeStart rangeEnd = false ↔ (rangeStart, rangeEnd) = range

/-- Bodies of the expected lengths and ranges give rows that pass the manifest check. -/
def ManifestAccepts (allocation : UploadAllocation) : Prop :=
  ∀ (hash : List UInt8 → Vector UInt8 32) (bodies : ℕ → List UInt8),
    (∀ part : ℕ, part < allocation.upload.partCount →
      expectedPartSize allocation.upload part = .ok (bodies part).length) →
    ∃ rows, List.Forall₂ (fun part row => ∃ range,
        uploadCapabilityRange allocation.upload part.partNumber.toNat = .ok range ∧
        uploadPart hash allocation.upload part range (bodies part.partNumber.toNat) = .ok row)
        allocation.parts rows ∧
      validateManifest allocation.upload allocation.payload rows = .ok ()

/-- All components accept an upload of `size` bytes and agree on its parts. -/
def GeometryAgrees (limits : LimitConfig) (size : ℕ) : Prop :=
  ∃ plan, planUpload limits size = .ok plan ∧
    ∀ ids, ∃ allocation, allocateUpload ids plan = .ok allocation ∧
      PartsAgree size allocation.upload ∧ ManifestAccepts allocation

/-! ## Validated limits and the plan -/

variable {part size : ℕ} {limits : LimitConfig}

/-- What the geometry needs of the limits validation. -/
theorem validateLimits_bounds (h : validateLimits limits = .ok ()) :
    limits.wholeThresholdBytes ≤ 1073741824 ∧
      1048576 ≤ limits.chunkSizeBytes ∧ limits.chunkSizeBytes ≤ 268435456 ∧
      1 ≤ limits.maxParts ∧ limits.maxParts ≤ 1048576 ∧ limits.maxFileBytes ≤ 70368744177664 ∧
      limits.maxFileBytes ≤ limits.maxParts * limits.chunkSizeBytes := by
  unfold validateLimits at h
  split_ifs at h with hthreshold hchunk hparts hfile hcapacity
  rw [not_or, not_not] at hchunk
  have hmul : limits.chunkSizeBytes * limits.maxParts < 2 ^ 64 := by
    calc limits.chunkSizeBytes * limits.maxParts
        ≤ 268435456 * 1048576 := Nat.mul_le_mul hchunk.1.2 hparts.2
      _ < 2 ^ 64 := by decide
  rw [checkedMul_eq_some hmul] at hcapacity
  simp only [Option.all_some, decide_eq_true_eq, not_lt] at hcapacity
  refine ⟨not_lt.mp hthreshold, hchunk.1.1, hchunk.1.2, hparts.1, hparts.2, hfile.2, ?_⟩
  rw [Nat.mul_comm]
  exact hcapacity

theorem validateLimits_default : validateLimits LimitConfig.default = .ok () := by
  decide +kernel

section

variable {size chunkSize wholeThreshold : ℕ}

theorem uploadLayoutAndPartCount_whole (h : size ≤ wholeThreshold) :
    uploadLayoutAndPartCount size chunkSize wholeThreshold = .ok (.whole, 1) :=
  if_pos h

theorem uploadLayoutAndPartCount_chunked (h : wholeThreshold < size) (hchunk : 0 < chunkSize)
    (htotal : size + chunkSize < 2 ^ 64) (hcount : chunkCount chunkSize size < 2 ^ 31) :
    uploadLayoutAndPartCount size chunkSize wholeThreshold =
      .ok (.chunked, (chunkCount chunkSize size : ℤ)) := by
  have hpos : 0 < chunkCount chunkSize size := by
    rw [lt_chunkCount_iff hchunk]
    omega
  have hparts : max ((size + (chunkSize - 1)) / chunkSize) 1 =
      chunkCount chunkSize size :=
    max_eq_left hpos
  unfold uploadLayoutAndPartCount
  rw [if_neg (not_le.mpr h), checkedSub_eq_some hchunk]
  simp only [okOr_some, ok_bind]
  rw [checkedAdd_eq_some (by omega)]
  simp only [okOr_some, ok_bind]
  rw [hparts, toI32_eq_some hcount]
  simp only [okOr_some, ok_bind]

end

/-- Part count of an admissible upload. -/
def plannedParts (limits : LimitConfig) (size : ℕ) : ℕ :=
  if size ≤ limits.wholeThresholdBytes then 1
  else chunkCount limits.chunkSizeBytes size

def admissiblePlan (limits : LimitConfig) (size : ℕ) : UploadPlan where
  declaredSize := size
  chunkSize := limits.chunkSizeBytes
  partCount := plannedParts limits size
  layout := if size ≤ limits.wholeThresholdBytes then .whole else .chunked

theorem planUpload_eq (hlimits : validateLimits limits = .ok ())
    (hsize : size ≤ limits.maxFileBytes) :
    planUpload limits size = .ok (admissiblePlan limits size) := by
  obtain ⟨-, hchunkLow, hchunk, hpartsLow, hparts, hfile, hcapacity⟩ :=
    validateLimits_bounds hlimits
  have hchunkPos : 0 < limits.chunkSizeBytes := by omega
  have hcount : chunkCount limits.chunkSizeBytes size ≤ limits.maxParts :=
    (chunkCount_le_iff hchunkPos).mpr (le_trans hsize hcapacity)
  unfold planUpload
  rw [if_neg (not_lt.mpr hsize), toI32_eq_some (by omega)]
  simp only [okOr_some, ok_bind, Int.toNat_natCast]
  by_cases hwhole : size ≤ limits.wholeThresholdBytes
  · rw [uploadLayoutAndPartCount_whole hwhole]
    have hone : toUnsigned 1 = some 1 := toUnsigned_natCast 1
    simp only [ok_bind, hone, okOr_some]
    rw [if_neg (by omega), toI64_eq_some (by omega)]
    simp [admissiblePlan, plannedParts, hwhole]
  · rw [uploadLayoutAndPartCount_chunked (not_le.mp hwhole) hchunkPos (by omega) (by omega)]
    simp only [ok_bind, toUnsigned_natCast, okOr_some]
    rw [if_neg (by omega), toI64_eq_some (by omega)]
    simp [admissiblePlan, plannedParts, hwhole]

/-! ## Part sizes -/

/-- The columns hold `size`, `chunk` and `count`, which is one or the number of chunks. -/
structure PartGeometry (size chunk count : ℕ) (upload : UploadRecord) : Prop where
  declared : upload.declaredSizeBytes = size
  chunkSize : upload.chunkSizeBytes = chunk
  partCount : upload.partCount = count
  chunk_pos : 0 < chunk
  count_pos : 0 < count
  fits : size + chunk < 2 ^ 64
  count_eq : count = 1 ∨ count = chunkCount chunk size

/-- Size of a part: the whole file, or one of its chunks. -/
def partLength (size chunk count part : ℕ) : ℕ :=
  if count = 1 then size else chunkLength chunk size part

/-- The range the worker demands is the one the API signs. -/
theorem rangeRefused_eq_false_iff {partSize rangeStart rangeEnd : ℕ} :
    rangeRefused partSize rangeStart rangeEnd = false ↔
      (rangeStart, rangeEnd) = (0, partSize - 1) := by
  simp only [rangeRefused, decide_eq_false_iff_not, Prod.mk.injEq]
  omega

section

variable {size chunk count : ℕ} {upload : UploadRecord} (h : PartGeometry size chunk count upload)
include h

theorem PartGeometry.offset_lt (hpart : part < count)
    (hcount : count ≠ 1) : part * chunk < size := by
  have hchunks := h.count_eq.resolve_left hcount
  rw [hchunks] at hpart
  exact (lt_chunkCount_iff h.chunk_pos).mp hpart

/-- The chain of cases both components go through, for a part in range. -/
theorem PartGeometry.partLength_eq (hpart : part < count) (hcount : count ≠ 1) :
    (part + 1 = count → partLength size chunk count part = size - part * chunk) ∧
      (part + 1 ≠ count → chunk ≤ size - part * chunk ∧
        partLength size chunk count part = chunk) := by
  have hchunks := h.count_eq.resolve_left hcount
  rw [partLength, if_neg hcount]
  constructor
  · intro hlast
    rw [hchunks] at hlast
    exact chunkLength_last h.chunk_pos hlast
  · intro hnotLast
    have hsucc : part + 1 < chunkCount chunk size := by omega
    have hfull := chunkLength_of_succ_lt h.chunk_pos hsucc
    refine ⟨?_, hfull⟩
    rw [chunkLength] at hfull
    omega

theorem apiPartSize_eq (part : ℕ) : apiPartSize upload part =
      if part < count then .ok (partLength size chunk count part) else .error .internal := by
  have hchunk := h.chunk_pos
  unfold apiPartSize uploadPartSize
  rw [h.declared, h.chunkSize, h.partCount]
  simp only [toUnsigned_natCast, okOr_some, ok_bind]
  by_cases hpart : part < count
  · rw [if_neg (by omega), if_pos hpart]
    by_cases hone : count = 1
    · rw [if_pos hone, partLength, if_pos hone]
    · have hoffset := h.offset_lt hpart hone
      have hfits := h.fits
      rw [checkedMul_eq_some (by omega)]
      simp only [okOr_some, ok_bind]
      rw [checkedSub_eq_some hoffset.le]
      simp only [okOr_some, ok_bind]
      obtain ⟨hlast, hfull⟩ := h.partLength_eq hpart hone
      split_ifs with hend hremaining
      · rw [hlast hend]
      · rw [(hfull hend).2]
      · exact absurd (hfull hend).1 hremaining
  · rw [if_pos (by omega), if_neg hpart]

theorem expectedPartSize_eq (part : ℕ) : expectedPartSize upload part =
      if part < count then .ok (partLength size chunk count part)
      else .error (.badRequest "invalid_part_number") := by
  unfold expectedPartSize
  rw [h.declared, h.chunkSize, h.partCount]
  by_cases hpart : part < count
  · rw [if_neg (by omega), if_pos hpart]
    simp only [toUnsigned_natCast, okOr_some, ok_bind]
    by_cases hone : count = 1
    · rw [if_pos (by omega), partLength, if_pos hone]
    · have hoffset := h.offset_lt hpart hone
      have hfits := h.fits
      rw [if_neg (by omega), checkedMul_comm, checkedMul_eq_some (by omega)]
      simp only [okOr_some, ok_bind]
      rw [checkedSub_eq_some hoffset.le]
      simp only [okOr_some, ok_bind]
      obtain ⟨hlast, hfull⟩ := h.partLength_eq hpart hone
      split_ifs with hend hremaining
      · rw [hlast (by omega)]
      · rw [(hfull (by omega)).2]
      · exact absurd (hfull (by omega)).1 hremaining
  · rw [if_pos (by omega), if_neg hpart]

theorem uploadCapabilityRange_eq (hpart : part < count) :
    uploadCapabilityRange upload part = .ok (0, partLength size chunk count part - 1) := by
  rw [uploadCapabilityRange, apiPartSize_eq h, if_pos hpart, ok_bind]

theorem PartGeometry.sum_partLength :
    ((List.range count).map (partLength size chunk count)).sum = size := by
  by_cases hone : count = 1
  · rw [hone]
    simp [partLength]
  · have hfun : partLength size chunk count = chunkLength chunk size := by
      funext part
      rw [partLength, if_neg hone]
    rw [hfun, h.count_eq.resolve_left hone]
    exact sum_chunkLength_chunkCount h.chunk_pos size

theorem PartGeometry.partLength_pos (hsize : size ≠ 0)
    (hpart : part < count) : 0 < partLength size chunk count part := by
  unfold partLength
  split_ifs with hone
  · exact Nat.pos_of_ne_zero hsize
  · rw [h.count_eq.resolve_left hone] at hpart
    exact chunkLength_pos h.chunk_pos hpart

theorem PartGeometry.partsAgree (hwhole : count = 1 → size < 2 ^ 31) (hchunk : chunk < 2 ^ 31) :
    PartsAgree size upload := by
  refine ⟨?_, ?_, ?_⟩
  · intro part partSize
    rw [apiPartSize_eq h, expectedPartSize_eq h]
    by_cases hpart : part < count
    · simp only [if_pos hpart, Except.ok.injEq]
    · simp [if_neg hpart]
  · refine ⟨(List.range count).map (partLength size chunk count), ?_, ?_, ?_, ?_, h.sum_partLength⟩
    · rw [List.length_map, List.length_range, h.partCount]
    · intro part hpart
      rw [List.length_map, List.length_range] at hpart
      rw [expectedPartSize_eq h, if_pos hpart, List.getElem_map, List.getElem_range]
    · intro partSize hmem hsize
      obtain ⟨part, hpart, rfl⟩ := List.mem_map.mp hmem
      exact h.partLength_pos hsize (List.mem_range.mp hpart)
    · intro partSize hmem
      obtain ⟨part, hpart, rfl⟩ := List.mem_map.mp hmem
      unfold partLength
      split_ifs with hone
      · exact hwhole hone
      · exact lt_of_le_of_lt (min_le_left _ _) hchunk
  · intro part partSize hexpected
    rw [expectedPartSize_eq h] at hexpected
    split_ifs at hexpected with hpart
    have hsize := Except.ok.inj hexpected
    refine ⟨_, uploadCapabilityRange_eq h hpart, ?_⟩
    intro rangeStart rangeEnd
    rw [hsize]
    exact rangeRefused_eq_false_iff

end

/-! ## Durable parts and the manifest -/

section

variable {size chunk count : ℕ} {upload : UploadRecord} {payload : PayloadRecord}
  (hash : List UInt8 → Vector UInt8 32) (bodies : ℕ → List UInt8)

/-- The row of a part after its body was received. -/
def durableRow (ids : UploadIds) (part : ℕ) : UploadPartRecord :=
  { ids.partRow part with
    state := .durable
    sizeBytes := (bodies part).length
    blake3 := some (hash (bodies part)).toList }

theorem uploadPart_eq (h : PartGeometry size chunk count upload) (ids : UploadIds)
    (hpart : part < count) (hbody : (bodies part).length = partLength size chunk count part)
    (hfits : partLength size chunk count part < 2 ^ 31) : uploadPart hash upload (ids.partRow part)
        (0, partLength size chunk count part - 1) (bodies part) =
      .ok (durableRow hash bodies ids part) := by
  have hrange := rangeRefused_eq_false_iff.mpr (rfl : (0, partLength size chunk count part - 1) = _)
  have hexpected : expectedPartSize upload (ids.partRow part).partNumber =
      .ok (partLength size chunk count part) := by
    rw [UploadIds.partRow, expectedPartSize_eq h, if_pos hpart]
  unfold uploadPart
  rw [hexpected]
  simp only [ok_bind]
  rw [hrange, if_neg Bool.false_ne_true, if_neg (not_not.mpr hbody),
    toI32_eq_some (by rw [hbody]; exact hfits)]
  simp only [okOr_some, ok_bind, durableRow]

/-- A received upload passes the manifest check if the layout matches the part count. -/
theorem validateManifest_durableRows (ids : UploadIds) (hids : upload.tenantId = payload.tenantId ∧
      upload.driveId = payload.driveId ∧ upload.backendId = payload.backendId ∧
      upload.payloadId = payload.payloadId ∧ upload.payloadLocator = payload.locator)
    (hcount : upload.partCount = count) (hlayout : layoutAccepted payload.layout count) :
    validateManifest upload payload
      ((List.range count).map (durableRow hash bodies ids)) = .ok () := by
  obtain ⟨htenant, hdrive, hbackend, hpayload, hlocator⟩ := hids
  have hunfinished : ¬((List.range count).map
      (durableRow hash bodies ids)).any partUnfinished := by
    simp [partUnfinished, durableRow]
  have hnumbers : ¬(((List.range count).map (durableRow hash bodies ids)).zipIdx.any fun entry =>
        toUnsigned entry.1.partNumber ≠ some entry.2) := by
    rw [List.any_eq_true]
    rintro ⟨⟨part, index⟩, hmem, hne⟩
    rw [List.mem_zipIdx_iff_getElem?, List.getElem?_map, Option.map_eq_some_iff] at hmem
    obtain ⟨number, hnumber, rfl⟩ := hmem
    obtain ⟨_, hindex⟩ := List.getElem?_eq_some_iff.mp hnumber
    rw [List.getElem_range] at hindex
    have hsame : number = index := hindex.symm
    simp [durableRow, UploadIds.partRow, hsame] at hne
  simp only [layoutAccepted, decide_eq_true_eq] at hlayout
  unfold validateManifest
  rw [hcount]
  simp only [toUnsigned_natCast, okOr_some, ok_bind, List.length_map, List.length_range]
  rw [if_neg]
  rintro (hne | hne | hne | hne | hne | hne | hne | hne | hne | hne)
  · exact hne htenant
  · exact hne hdrive
  · exact hne hbackend
  · exact hne hpayload
  · exact hne hlocator
  · exact hne rfl
  · exact hunfinished hne
  · exact hlayout (.inl ⟨hne.1, by omega⟩)
  · exact hlayout (.inr ⟨hne.1, by omega⟩)
  · exact hnumbers hne

end

/-! ## The agreement -/

section

variable {limits : LimitConfig} {size : ℕ} (hlimits : validateLimits limits = .ok ())
include hlimits

/-- Refused is a file above the threshold for whole objects that fits one chunk. -/
theorem layoutAccepted_admissiblePlan : layoutAccepted (admissiblePlan limits size).layout
        (admissiblePlan limits size).partCount ↔
      ¬(limits.wholeThresholdBytes < size ∧ size ≤ limits.chunkSizeBytes) := by
  obtain ⟨-, hchunkLow, -⟩ := validateLimits_bounds hlimits
  have hchunkPos : 0 < limits.chunkSizeBytes := by omega
  have hone : chunkCount limits.chunkSizeBytes size ≤ 1 ↔ size ≤ limits.chunkSizeBytes := by
    rw [chunkCount_le_iff hchunkPos, Nat.one_mul]
  by_cases hwhole : size ≤ limits.wholeThresholdBytes
  · simp only [layoutAccepted, admissiblePlan, plannedParts, if_pos hwhole,
      reduceCtorEq, false_and, or_false, decide_eq_true_eq]
    omega
  · simp only [layoutAccepted, admissiblePlan, plannedParts, if_neg hwhole,
      reduceCtorEq, false_and, false_or, true_and, decide_eq_true_eq]
    omega

theorem plannedParts_pos : 0 < plannedParts limits size := by
  obtain ⟨-, hchunkLow, -⟩ := validateLimits_bounds hlimits
  unfold plannedParts
  split_ifs with hwhole
  · exact Nat.one_pos
  · rw [lt_chunkCount_iff (by omega)]
    omega

theorem size_lt_of_plannedParts_eq_one (hone : plannedParts limits size = 1) : size < 2 ^ 31 := by
  obtain ⟨hthreshold, hchunkLow, hchunk, -⟩ := validateLimits_bounds hlimits
  unfold plannedParts at hone
  split_ifs at hone with hwhole
  · omega
  · have hle := (chunkCount_le_iff (by omega)).mp hone.le
    omega

variable (hsize : size ≤ limits.maxFileBytes)
include hsize

theorem partGeometry_of_admissiblePlan {upload : UploadRecord}
    (hdeclared : upload.declaredSizeBytes = size)
    (hchunk : upload.chunkSizeBytes = limits.chunkSizeBytes)
    (hcount : upload.partCount = plannedParts limits size) :
    PartGeometry size limits.chunkSizeBytes (plannedParts limits size) upload := by
  obtain ⟨-, hchunkLow, hchunkHigh, -, -, hfile, -⟩ := validateLimits_bounds hlimits
  refine ⟨hdeclared, hchunk, hcount, by omega, plannedParts_pos hlimits, by omega, ?_⟩
  unfold plannedParts
  split_ifs with hwhole
  · exact .inl rfl
  · exact .inr rfl

/-- Off the refused interval every component accepts the upload. -/
theorem geometryAgrees_of_accepted (haccepted : layoutAccepted (admissiblePlan limits size).layout
      (admissiblePlan limits size).partCount) : GeometryAgrees limits size := by
  obtain ⟨-, hchunkLow, hchunkHigh, -⟩ := validateLimits_bounds hlimits
  have hcountPos : 0 < plannedParts limits size := plannedParts_pos hlimits
  have hchecks : uploadSessionChecks (admissiblePlan limits size) := by
    have hchunkPos : (0 : ℤ) < limits.chunkSizeBytes := by omega
    have hcountPos' : (0 : ℤ) < plannedParts limits size := by omega
    exact decide_eq_true ⟨Int.natCast_nonneg size, hchunkPos, hcountPos'⟩
  refine ⟨_, planUpload_eq hlimits hsize, ?_⟩
  intro ids
  have hgeometry : PartGeometry size limits.chunkSizeBytes
      (plannedParts limits size) (ids.uploadRow (admissiblePlan limits size)) :=
    partGeometry_of_admissiblePlan hlimits hsize rfl rfl rfl
  have hparts := hgeometry.partsAgree (size_lt_of_plannedParts_eq_one hlimits) (by omega)
  refine ⟨_, by
    rw [allocateUpload, if_neg (not_not.mpr haccepted), if_neg (not_not.mpr hchecks)], hparts, ?_⟩
  intro hash bodies hbodies
  refine ⟨(List.range (plannedParts limits size)).map (durableRow hash bodies ids), ?_, ?_⟩
  · have hcount : (admissiblePlan limits size).partCount.toNat =
        plannedParts limits size := Int.toNat_natCast _
    simp only [hcount, List.forall₂_map_left_iff, List.forall₂_map_right_iff,
      List.forall₂_same, List.mem_range]
    intro part hpart
    have hbody := hbodies part (Int.ofNat_lt.mpr hpart)
    rw [expectedPartSize_eq hgeometry, if_pos hpart, Except.ok.injEq] at hbody
    refine ⟨_, uploadCapabilityRange_eq hgeometry hpart, ?_⟩
    obtain ⟨sizes, hlength, hsizes, -, hfits, -⟩ := hparts.sizes
    have hlt : part < sizes.length := by
      rw [Int.ofNat.inj hlength]
      exact hpart
    have hsame := hsizes part hlt
    rw [expectedPartSize_eq hgeometry, if_pos hpart, Except.ok.injEq] at hsame
    exact uploadPart_eq hash bodies hgeometry ids hpart hbody.symm
      (hsame ▸ hfits _ (List.getElem_mem hlt))
  · exact validateManifest_durableRows hash bodies ids ⟨rfl, rfl, rfl, rfl, rfl⟩ rfl haccepted

theorem accepted_of_geometryAgrees (h : GeometryAgrees limits size) :
    layoutAccepted (admissiblePlan limits size).layout
      (admissiblePlan limits size).partCount := by
  obtain ⟨_, hplan, hallocate⟩ := h
  rw [planUpload_eq hlimits hsize] at hplan
  obtain ⟨_, hallocation, -⟩ := hallocate ⟨0, 0, 0, 0, 0, 0, id⟩
  rw [← Except.ok.inj hplan] at hallocation
  by_contra hrefused
  rw [allocateUpload, if_pos hrefused] at hallocation
  cases hallocation

end

/-- The components agree on every upload that configuration and size limit
admit, exactly when the file is not above the threshold for whole objects
while fitting one chunk. -/
theorem geometryAgrees_iff
    (limits : LimitConfig) (size : ℕ)
    (hlimits : validateLimits limits = .ok ())
    (hsize : size ≤ limits.maxFileBytes) :
    GeometryAgrees limits size ↔
      ¬(limits.wholeThresholdBytes < size ∧ size ≤ limits.chunkSizeBytes) := by
  rw [← layoutAccepted_admissiblePlan hlimits]
  constructor
  · exact accepted_of_geometryAgrees hlimits hsize
  · exact geometryAgrees_of_accepted hlimits hsize

/-- With the default limits a file one byte above the threshold is uploaded in
three parts on which all components agree. -/
theorem geometryAgrees_default :
    validateLimits LimitConfig.default = .ok () ∧ GeometryAgrees LimitConfig.default 33554433 :=
  ⟨validateLimits_default, (geometryAgrees_iff LimitConfig.default 33554433 validateLimits_default
      (by decide)).mpr (by decide)⟩

/-- The smallest accepted threshold with the default chunk size. -/
def lowThresholdLimits : LimitConfig := { LimitConfig.default with wholeThresholdBytes := 0 }

/-- The validation accepts these limits, but a file of one byte is planned as
a chunked upload of one part and refused by the database. -/
theorem not_geometryAgrees_lowThreshold :
    validateLimits lowThresholdLimits = .ok () ∧
      1 ≤ lowThresholdLimits.maxFileBytes ∧
      ¬GeometryAgrees lowThresholdLimits 1 := by
  have hlimits : validateLimits lowThresholdLimits = .ok () := by
    decide +kernel
  refine ⟨hlimits, by decide, ?_⟩
  intro hagrees
  have haccepted := accepted_of_geometryAgrees hlimits (by decide) hagrees
  rw [layoutAccepted_admissiblePlan hlimits] at haccepted
  exact haccepted (by decide)

end FileBelt.Upload
