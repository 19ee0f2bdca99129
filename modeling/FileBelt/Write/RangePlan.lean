import FileBelt.Upload.GeometryAgreement
import FileBelt.Write.Session

/-!
# Plans of range operations

The VFS checks the storage record, computes the reservation, extends the chunk plan and
stores it.  A plan with every chunk full except the last is extended to such a plan, and
all three components accept it.
-/

namespace FileBelt.Write

open Support

/-- The limits that the VFS and the worker run with. -/
structure NfsRuntime where
  chunkSizeBytes : ℕ
  maxFileBytes : ℕ
  deriving DecidableEq, Repr

structure RangeSpec where
  operation : MountWriteRangeOperation
  rangeStart : ℤ
  rangeEnd : ℤ
  contentBlake3 : Option Digest
  deriving DecidableEq, Repr

/-- Why `execute_range` refuses to plan an operation. -/
inductive PlanError
  | fenceStale | invalid | planInvalid
  | planFailed (error : DatabaseError)
  deriving DecidableEq, Repr

/-- `execute_range` up to the stored plan, for an operation that is not
pending. -/
def planRange (runtime : NfsRuntime) (source : LocatorSource) (quota : DriveQuota)
    (session : WriteSession) (spec : RangeSpec) (operationId : Uuid) :
    Except PlanError (DriveQuota × WriteSession) :=
  if validateMountStorage session.storage runtime.chunkSizeBytes = false then
    .error .fenceStale
  else do
    let required ← okOr (requiredReservation session.storage spec.operation
      spec.rangeEnd runtime.maxFileBytes) .invalid
    let chunks ← okOr (buildMountChunkPlan source session.storage required
      runtime.chunkSizeBytes) .planInvalid
    (extendMountWriteChunks quota session
      { requiredReservationBytes := required
        operationId
        operation := spec.operation
        contentBlake3 := spec.contentBlake3
        rangeStart := spec.rangeStart
        rangeEnd := spec.rangeEnd
        chunks }).mapError PlanError.planFailed

/-! ## Greedy layouts -/

/-- Chunks numbered from `index` on that take as much of the remaining bytes as
they can. -/
def Laid {α : Type} (fields : ChunkFields α) (chunkSize : ℤ) : ℕ → ℤ → List α → Prop
  | _, remaining, [] => remaining = 0
  | index, remaining, chunk :: rest =>
    0 < remaining ∧ fields.number chunk = index ∧
      fields.size chunk = min remaining chunkSize ∧
      Laid fields chunkSize (index + 1) (remaining - fields.size chunk) rest

variable {chunk : MountWriteChunkPlan} {chunks : List MountWriteChunkPlan}
  {chunkSizeBytes index n : ℕ}

section

variable {α : Type} {fields : ChunkFields α} {chunkSize remaining represented : ℤ} {index : ℕ}
  {chunks : List α} (h : Laid fields chunkSize index remaining chunks)
include h

theorem Laid.length_le (hsize : 0 < chunkSize) (hn : remaining ≤ n * chunkSize) :
    chunks.length ≤ n := by
  induction chunks generalizing index remaining n with
  | nil => exact Nat.zero_le n
  | cons chunk rest ih =>
    obtain ⟨hpos, -, hchunk, hrest⟩ := h
    cases n with
    | zero =>
      omega
    | succ m =>
      rw [Int.natCast_succ, Int.add_mul] at hn
      refine Nat.succ_le_succ (ih hrest ?_)
      have hnonneg : 0 ≤ (m : ℤ) * chunkSize := Int.mul_nonneg (Int.natCast_nonneg m) hsize.le
      omega

theorem Laid.checkChunks_eq (hsize : 0 < chunkSize) {locators : List Uuid} {extra : ℕ → α → Bool}
    (hnodup : (chunks.map fields.locator).Nodup)
    (hfresh : ∀ chunk ∈ chunks, fields.locator chunk ∉ locators)
    (hnil : ∀ chunk ∈ chunks, fields.locator chunk ≠ nilUuid)
    (hextra : ∀ chunk ∈ chunks, ∀ i : ℕ, fields.number chunk = i → extra i chunk)
    (hrepresented : 0 ≤ represented) (hi64 : represented + remaining < ((2 ^ 63 : ℕ) : ℤ)) :
    checkChunks fields chunkSize extra index locators represented chunks =
      some (represented + remaining) := by
  induction chunks generalizing index remaining locators represented with
  | nil =>
    have hzero : remaining = 0 := h
    rw [checkChunks, hzero, Int.add_zero]
  | cons chunk rest ih =>
    obtain ⟨hpos, hnumber, hchunk, hrest⟩ := h
    have hfull : ¬(rest ≠ [] ∧ fields.size chunk ≠ chunkSize) := by
      rintro ⟨hne, hnot⟩
      cases rest with
      | nil => exact hne rfl
      | cons next tail =>
        have hmore := hrest.1
        omega
    have hguard : ¬(fields.number chunk ≠ index ∨ fields.size chunk ≤ 0 ∨
        chunkSize < fields.size chunk ∨
        (rest ≠ [] ∧ fields.size chunk ≠ chunkSize) ∨
        fields.locator chunk = nilUuid ∨ fields.locator chunk ∈ locators ∨
        extra index chunk = false) := by
      rintro (hne | hle | hlt | hnot | hisNil | hmem | hfalse)
      · exact hne hnumber
      · omega
      · omega
      · exact hfull hnot
      · exact hnil chunk List.mem_cons_self hisNil
      · exact hfresh chunk List.mem_cons_self hmem
      · rw [hextra chunk List.mem_cons_self index hnumber] at hfalse
        cases hfalse
    obtain ⟨hnew, hnodupRest⟩ := List.nodup_cons.mp hnodup
    rw [checkChunks, if_neg hguard, checkedAddI64_eq_some (by omega) (by omega), Option.bind_some,
      ih hrest hnodupRest ?_ ?_ ?_ (by omega) (by omega)]
    · congr 1
      omega
    · intro other hother hmem
      rcases List.mem_cons.mp hmem with heq | hmem
      · exact hnew (heq ▸ List.mem_map_of_mem hother)
      · exact hfresh other (List.mem_cons_of_mem _ hother) hmem
    · exact (List.forall_mem_cons.mp hnil).2
    · exact (List.forall_mem_cons.mp hextra).2

/-- Every chunk starts before the end of the bytes. -/
theorem Laid.offset_lt {chunk : α} (hchunk : chunk ∈ chunks) :
    (index : ℤ) ≤ fields.number chunk ∧ (fields.number chunk - index) * chunkSize < remaining := by
  induction chunks generalizing index remaining with
  | nil => cases hchunk
  | cons first rest ih =>
    obtain ⟨hpos, hnumber, hfirst, hrest⟩ := h
    rcases List.mem_cons.mp hchunk with rfl | hchunk
    · rw [hnumber, Int.sub_self, Int.zero_mul]
      exact ⟨le_rfl, hpos⟩
    · obtain ⟨hle, hlt⟩ := ih hrest hchunk
      rw [Int.natCast_succ] at hle hlt
      have hmul : (fields.number chunk - (index + 1)) * chunkSize =
          (fields.number chunk - index) * chunkSize - chunkSize := by
        rw [Int.sub_mul, Int.sub_mul, Int.add_mul]
        omega
      have hmore : 0 < remaining - fields.size first := by
        cases rest with
        | nil => cases hchunk
        | cons => exact hrest.1
      exact ⟨by omega, by omega⟩

end

theorem laid_cons {chunkSize total : ℤ} : Laid planFields chunkSize index total (chunk :: chunks) ↔
      0 < total ∧ chunk.chunkNumber = index ∧ chunk.sizeBytes = min total chunkSize ∧
        Laid planFields chunkSize (index + 1) (total - chunk.sizeBytes) chunks :=
  Iff.rfl

theorem plannedBytes_of_laid {chunkSize total : ℤ}
    (h : Laid planFields chunkSize index total chunks) (hsize : 0 < chunkSize) {acc : ℤ}
    (hacc : 0 ≤ acc) (hi64 : acc + total < ((2 ^ 63 : ℕ) : ℤ)) :
    chunks.foldlM (fun total chunk => checkedAddI64 total chunk.sizeBytes) acc =
      some (acc + total) := by
  induction chunks generalizing index total acc with
  | nil =>
    have hzero : total = 0 := h
    rw [hzero, Int.add_zero]
    rfl
  | cons chunk rest ih =>
    obtain ⟨hpos, -, hchunk, hrest⟩ := laid_cons.mp h
    rw [List.foldlM_cons, checkedAddI64_eq_some (by omega) (by omega)]
    change rest.foldlM _ (acc + chunk.sizeBytes) = _
    rw [ih hrest (by omega) (by omega)]
    congr 1
    omega

/-! ## Extending a plan -/

/-- The source and the dirty flag that the planner gives a chunk. -/
def Sourced (storage : MountWriteStorageRecord) (chunkSize : ℤ)
    (chunk : MountWriteChunkPlan) : Prop :=
  (chunk.sourcePayloadId, chunk.sourceChunkNumber) =
      expectedSource storage chunk.chunkNumber (chunk.chunkNumber * chunkSize) ∧
    chunk.dirty

/-- A chunk plan as the planner makes it. -/
structure WellPlanned (storage : MountWriteStorageRecord) (chunkSize total : ℤ)
    (chunks : List MountWriteChunkPlan) : Prop where
  laid : Laid planFields chunkSize 0 total chunks
  nodup : (chunks.map MountWriteChunkPlan.stagingLocator).Nodup
  notNil : ∀ chunk ∈ chunks, chunk.stagingLocator ≠ nilUuid
  sourced : ∀ chunk ∈ chunks, Sourced storage chunkSize chunk

section

variable {storage : MountWriteStorageRecord} {source : LocatorSource}
  {chunkSize remaining total required : ℤ} {index : ℕ} {chunks appended : List MountWriteChunkPlan}

/-- The appended chunks are laid out greedily, under new locators. -/
theorem newChunks_ok (source : LocatorSource) (storage : MountWriteStorageRecord)
    (locators : List Uuid) (hsize : 0 < chunkSize) (hnonneg : 0 ≤ remaining)
    (hi64 : 0 < remaining → (index : ℤ) * chunkSize + remaining < ((2 ^ 63 : ℕ) : ℤ)) :
    ∃ appended, newChunks source storage chunkSize index locators remaining = some appended ∧
      Laid planFields chunkSize index remaining appended ∧
      (appended.map MountWriteChunkPlan.stagingLocator).Nodup ∧
      (∀ chunk ∈ appended, chunk.stagingLocator ∉ locators) ∧
      (∀ chunk ∈ appended, chunk.stagingLocator ≠ nilUuid) ∧
      ∀ chunk ∈ appended, Sourced storage chunkSize chunk := by
  induction index, locators, remaining using newChunks.induct source chunkSize with
  | case1 index locators remaining hcond ih =>
    have hoffset : 0 ≤ (index : ℤ) * chunkSize := Int.mul_nonneg (Int.natCast_nonneg index) hsize.le
    have hnext : ((index + 1 : ℕ) : ℤ) * chunkSize = index * chunkSize + chunkSize := by
      rw [Int.natCast_succ, Int.add_mul, Int.one_mul]
    obtain ⟨rest, heq, hlaid, hnodup, hfresh, hnil, hsourced⟩ := ih (by omega) (by omega)
    rw [newChunks, dif_pos hcond, checkedMulI64_eq_some hoffset (by omega)]
    dsimp only
    rw [heq]
    refine ⟨_, rfl, ⟨hcond.1, rfl, rfl, hlaid⟩, ?_, ?_, ?_, ?_⟩
    · refine List.nodup_cons.mpr ⟨?_, hnodup⟩
      intro hmem
      obtain ⟨other, hother, hsame⟩ := List.mem_map.mp hmem
      exact hfresh other hother (hsame ▸ List.mem_cons_self)
    · exact List.forall_mem_cons.mpr ⟨source.next_notMem locators, fun chunk hchunk hmem =>
        hfresh chunk hchunk (List.mem_cons_of_mem _ hmem)⟩
    · exact List.forall_mem_cons.mpr ⟨source.next_ne_nil locators, hnil⟩
    · exact List.forall_mem_cons.mpr ⟨⟨rfl, rfl⟩, hsourced⟩
  | case2 index locators remaining hcond =>
    rw [newChunks, dif_neg hcond]
    have hzero : remaining = 0 := by omega
    exact ⟨[], rfl, hzero, List.nodup_nil, by simp, by simp, by simp⟩

theorem growTail_laid (h : Laid planFields chunkSize index total chunks) (hm : 0 ≤ remaining)
    (happended : Laid planFields chunkSize (index + chunks.length)
      (growTail chunkSize remaining chunks).2 appended) :
    Laid planFields chunkSize index (total + remaining)
      ((growTail chunkSize remaining chunks).1 ++ appended) := by
  fun_induction growTail chunkSize remaining chunks generalizing index total with
  | case1 =>
    have hzero : total = 0 := h
    rw [hzero, Int.zero_add]
    exact happended
  | case2 tail hgrow =>
    rename_i growth
    obtain ⟨hpos, hnumber, hsize, hall⟩ := laid_cons.mp h
    refine laid_cons.mpr ⟨by omega, hnumber, by dsimp only; omega, ?_⟩
    have heq : total + remaining - (tail.sizeBytes + growth) = remaining - growth := by omega
    rw [heq]
    exact happended
  | case3 tail hgrow =>
    obtain ⟨hpos, hnumber, hsize, hall⟩ := laid_cons.mp h
    change total - tail.sizeBytes = 0 at hall
    refine laid_cons.mpr ⟨by omega, hnumber, by omega, ?_⟩
    have heq : total + remaining - tail.sizeBytes = remaining := by omega
    rw [heq]
    exact happended
  | case4 chunk next rest grown =>
    rename_i ih
    obtain ⟨hpos, hnumber, hsize, hrest⟩ := laid_cons.mp h
    have hmore := hrest.1
    refine laid_cons.mpr ⟨by omega, hnumber, by omega, ?_⟩
    rw [add_sub_right_comm]
    refine ih hrest ?_
    rw [Nat.add_right_comm]
    exact happended

theorem growTail_forall {p : MountWriteChunkPlan → Prop}
    (hp : ∀ chunk size, p chunk → p { chunk with sizeBytes := size })
    (h : ∀ chunk ∈ chunks, p chunk) :
    ∀ chunk ∈ (growTail chunkSize remaining chunks).1, p chunk := by
  fun_induction growTail chunkSize remaining chunks with
  | case2 tail =>
    exact List.forall_mem_singleton.mpr (hp tail _ (h tail List.mem_cons_self))
  | case4 _ _ _ _ ih =>
    obtain ⟨hhead, hrest⟩ := List.forall_mem_cons.mp h
    exact List.forall_mem_cons.mpr ⟨hhead, ih hrest⟩
  | _ => exact h

theorem growTail_map_locator :
    (growTail chunkSize remaining chunks).1.map MountWriteChunkPlan.stagingLocator =
      chunks.map MountWriteChunkPlan.stagingLocator := by
  fun_induction growTail chunkSize remaining chunks with
  | case4 _ _ _ _ ih =>
    rw [List.map_cons, ih]
    rfl
  | _ => rfl

theorem growTail_length : (growTail chunkSize remaining chunks).1.length = chunks.length := by
  rw [← List.length_map MountWriteChunkPlan.stagingLocator, growTail_map_locator, List.length_map]

theorem growTail_remaining (hm : 0 ≤ remaining) : 0 ≤ (growTail chunkSize remaining chunks).2 := by
  fun_induction growTail chunkSize remaining chunks with
  | case2 tail hgrow growth =>
    omega
  | case4 _ _ _ _ ih => exact ih
  | _ => exact hm

theorem growTail_full (h : Laid planFields chunkSize index total chunks)
    (hleft : 0 < (growTail chunkSize remaining chunks).2) :
    chunks.length * chunkSize + (growTail chunkSize remaining chunks).2 = total + remaining := by
  fun_induction growTail chunkSize remaining chunks generalizing index total with
  | case1 =>
    have hzero : total = 0 := h
    rw [hzero, List.length_nil, Int.natCast_zero, Int.zero_mul]
  | case2 tail hgrow =>
    obtain ⟨hpos, -, hsize, hall⟩ := laid_cons.mp h
    dsimp only [List.length_singleton] at hleft ⊢
    omega
  | case3 tail hgrow =>
    obtain ⟨hpos, -, hsize, hall⟩ := laid_cons.mp h
    change total - tail.sizeBytes = 0 at hall
    dsimp only [List.length_singleton] at hleft ⊢
    omega
  | case4 chunk next rest grown =>
    rename_i ih
    obtain ⟨hpos, -, hsize, hrest⟩ := laid_cons.mp h
    have hmore := hrest.1
    have hthen : (next :: rest).length * chunkSize + grown.2 = _ := ih hrest hleft
    rw [List.length_cons, Int.natCast_succ, Int.add_mul]
    omega

theorem extendsRows_growTail :
    extendsRows chunks ((growTail chunkSize remaining chunks).1 ++ appended) := by
  fun_induction growTail chunkSize remaining chunks with
  | case1 => rfl
  | case2 tail hgrow growth =>
    simp [extendsRows]
    omega
  | case3 => simp [extendsRows]
  | case4 _ _ _ _ ih =>
    rw [List.cons_append, extendsRows, ih]
    simp

theorem WellPlanned.checkChunks_eq (h : WellPlanned storage chunkSize total chunks)
    (hsize : 0 < chunkSize) (hi64 : total < ((2 ^ 63 : ℕ) : ℤ)) :
    checkChunks planFields chunkSize (plannedSource storage chunkSize) 0 [] 0
      chunks = some total := by
  have hextra : ∀ chunk ∈ chunks, ∀ i : ℕ, planFields.number chunk = i →
      plannedSource storage chunkSize i chunk := by
    intro chunk hchunk i hi
    obtain ⟨hsource, hdirty⟩ := h.sourced chunk hchunk
    have hnumber : chunk.chunkNumber = i := hi
    obtain ⟨-, hlt⟩ := h.laid.offset_lt hchunk
    rw [hi, Int.natCast_zero, Int.sub_zero] at hlt
    have hoffset : 0 ≤ (i : ℤ) * chunkSize := Int.mul_nonneg (Int.natCast_nonneg i) hsize.le
    rw [plannedSource, checkedMulI64_eq_some hoffset (by omega)]
    dsimp only
    rw [hsource, hdirty, hnumber, beq_self_eq_true]
    rfl
  rw [h.laid.checkChunks_eq hsize h.nodup (fun _ _ => List.not_mem_nil) h.notNil
    hextra le_rfl (by omega), Int.zero_add]

theorem requiredChunkCount_ok (hsize : 0 < chunkSize) (hpos : 0 < required)
    (hcount : required ≤ maxMountChunks * chunkSize) :
    ∃ count, toUnsigned ((required + (chunkSize - 1)) / chunkSize) = some count ∧
      count ≤ maxMountChunks := by
  have hnonneg : 0 ≤ (required + (chunkSize - 1)) / chunkSize := Int.ediv_nonneg (by omega) hsize.le
  have hlt : (required + (chunkSize - 1)) / chunkSize < maxMountChunks + 1 := by
    rw [Int.ediv_lt_iff_lt_mul hsize, Int.add_mul]
    omega
  refine ⟨_, if_pos hnonneg, ?_⟩
  omega

theorem WellPlanned.exists_extended (source : LocatorSource)
    (h : WellPlanned storage chunkSize total chunks) (hsize : 0 < chunkSize)
    (hm : 0 ≤ remaining) (hi64 : total + remaining < ((2 ^ 63 : ℕ) : ℤ)) :
    ∃ appended, newChunks source storage chunkSize (growTail chunkSize remaining chunks).1.length
          ((growTail chunkSize remaining chunks).1.map MountWriteChunkPlan.stagingLocator)
          (growTail chunkSize remaining chunks).2 = some appended ∧
        WellPlanned storage chunkSize (total + remaining)
          ((growTail chunkSize remaining chunks).1 ++ appended) := by
  have hfits : 0 < (growTail chunkSize remaining chunks).2 →
      ((growTail chunkSize remaining chunks).1.length : ℤ) * chunkSize +
        (growTail chunkSize remaining chunks).2 < ((2 ^ 63 : ℕ) : ℤ) := by
    intro hleft
    rw [growTail_length, growTail_full h.laid hleft]
    exact hi64
  obtain ⟨appended, heq, hlaid, hnodup, hfresh, hnil, hsourced⟩ :=
    newChunks_ok source storage ((growTail chunkSize remaining chunks).1.map
      MountWriteChunkPlan.stagingLocator) hsize (growTail_remaining hm) hfits
  refine ⟨appended, heq, ?_, ?_, ?_, ?_⟩
  · rw [growTail_length] at hlaid
    refine growTail_laid h.laid hm ?_
    rw [Nat.zero_add]
    exact hlaid
  · rw [List.map_append, List.nodup_append]
    refine ⟨?_, hnodup, ?_⟩
    · rw [growTail_map_locator]
      exact h.nodup
    · intro locator hold other hnew heq
      obtain ⟨chunk, hchunk, rfl⟩ := List.mem_map.mp hnew
      exact hfresh chunk hchunk (heq ▸ hold)
  · exact List.forall_mem_append.mpr ⟨growTail_forall (fun _ _ hp => hp) h.notNil, hnil⟩
  · exact List.forall_mem_append.mpr ⟨growTail_forall (fun _ _ hp => hp) h.sourced, hsourced⟩

theorem buildMountChunkPlan_ok (source : LocatorSource)
    (h : WellPlanned storage chunkSizeBytes storage.reservedBytes storage.plannedChunks)
    (hsize : 0 < chunkSizeBytes) (hle : storage.reservedBytes ≤ required) (hpos : 0 < required)
    (hcount : required ≤ maxMountChunks * chunkSizeBytes)
    (hi64 : required + chunkSizeBytes < ((2 ^ 63 : ℕ) : ℤ)) :
    ∃ plan, buildMountChunkPlan source storage required chunkSizeBytes = some plan ∧
      WellPlanned storage chunkSizeBytes required plan ∧
      extendsRows storage.plannedChunks plan := by
  have hsize' : (0 : ℤ) < chunkSizeBytes := Int.natCast_pos.mpr hsize
  obtain ⟨count, hcountEq, hcountLe⟩ := requiredChunkCount_ok hsize' hpos hcount
  have hlength : storage.plannedChunks.length ≤ maxMountChunks :=
    h.laid.length_le hsize' (hle.trans hcount)
  have hchunkSize : (toI64 chunkSizeBytes).filter (fun value => decide (0 < value)) =
      some (chunkSizeBytes : ℤ) := by
    rw [toI64_eq_some (by omega)]
    exact if_pos (decide_eq_true hsize')
  have hrounded : checkedAddI64 required ((chunkSizeBytes : ℤ) - 1) =
      some (required + ((chunkSizeBytes : ℤ) - 1)) :=
    checkedAddI64_eq_some (by omega) (by omega)
  have htotal : storage.reservedBytes + (required - storage.reservedBytes) =
      required := by omega
  obtain ⟨appended, happended, hplan⟩ := h.exists_extended source hsize'
    (Int.sub_nonneg.mpr hle) (by omega)
  rw [htotal] at hplan
  have hbytes : plannedBytes ((growTail chunkSizeBytes
      (required - storage.reservedBytes) storage.plannedChunks).1 ++ appended) =
      some required := by
    rw [plannedBytes, plannedBytes_of_laid hplan.laid hsize' le_rfl (by omega), Int.zero_add]
  have hguard : ¬(required < storage.reservedBytes ∨ required ≤ 0 ∨
      maxMountChunks < storage.plannedChunks.length ∨ maxMountChunks < count) := by
    omega
  refine ⟨_, ?_, hplan, extendsRows_growTail⟩
  simp only [buildMountChunkPlan, hchunkSize, hrounded, hcountEq, if_neg hguard,
    h.checkChunks_eq hsize' (by omega), happended, hbytes, ne_eq,
    not_true_eq_false, if_false, Option.bind_eq_bind, Option.bind_some]

end

/-! ## Acceptance by the database and the worker -/

variable {storage : MountWriteStorageRecord} {chunkSize total rangeEnd : ℤ} {index : ℕ}
  {chunks : List MountWriteChunkPlan}

theorem Laid.size_pos {α : Type} {fields : ChunkFields α} {xs : List α}
    (h : Laid fields chunkSize index total xs) (hsize : 0 < chunkSize) {chunk : α}
    (hchunk : chunk ∈ xs) : 0 < fields.size chunk := by
  induction xs generalizing index total with
  | nil => cases hchunk
  | cons first rest ih =>
    obtain ⟨hpos, -, hfirst, hrest⟩ := h
    rcases List.mem_cons.mp hchunk with rfl | hchunk
    · rw [hfirst]
      exact lt_min hpos hsize
    · exact ih hrest hchunk

theorem Sourced.cases (h : Sourced storage chunkSize chunk)
    (hoffset : 0 ≤ chunk.chunkNumber * chunkSize) :
    (chunk.sourcePayloadId = none ∧ chunk.sourceChunkNumber = none) ∨
      ∃ base, storage.basePayload = some base ∧ chunk.sourcePayloadId = some base.payloadId ∧
        chunk.sourceChunkNumber = some chunk.chunkNumber := by
  have hpair := h.1
  rw [expectedSource] at hpair
  by_cases hinside : chunk.chunkNumber * chunkSize < storage.baseSize
  · rw [if_pos hinside] at hpair
    obtain ⟨hid, hnumber⟩ := Prod.mk.inj hpair
    cases hbase : storage.basePayload with
    | none =>
      rw [MountWriteStorageRecord.baseSize, hbase] at hinside
      exact absurd hinside (not_lt.mpr hoffset)
    | some base =>
      rw [hbase] at hid
      exact .inr ⟨base, rfl, hid, hnumber⟩
  · rw [if_neg hinside] at hpair
    exact .inl (Prod.mk.inj hpair)

theorem Laid.consecutive_eq (h : Laid planFields chunkSize index total chunks)
    (hi64 : ((index + chunks.length : ℕ) : ℤ) < ((2 ^ 63 : ℕ) : ℤ)) :
    consecutive chunks := by
  induction chunks generalizing index total with
  | nil => rfl
  | cons first rest ih =>
    obtain ⟨-, hnumber, -, hrest⟩ := h
    change first.chunkNumber = index at hnumber
    rw [List.length_cons] at hi64
    cases rest with
    | nil => rfl
    | cons second tail =>
      have hsecond : second.chunkNumber = ((index + 1 : ℕ) : ℤ) := hrest.2.1
      rw [consecutive, ih hrest (by omega), hnumber, hsecond,
        checkedAddI64_eq_some (by omega) (by omega), Bool.and_true, beq_iff_eq]
      rfl

theorem WellPlanned.offset_nonneg (h : WellPlanned storage chunkSize total chunks)
    (hsize : 0 < chunkSize) (hchunk : chunk ∈ chunks) :
    0 ≤ chunk.chunkNumber ∧ 0 ≤ chunk.chunkNumber * chunkSize := by
  have hnumber : 0 ≤ chunk.chunkNumber := (h.laid.offset_lt hchunk).1
  exact ⟨hnumber, Int.mul_nonneg hnumber hsize.le⟩

theorem WellPlanned.databaseValidates
    (h : WellPlanned storage chunkSize total chunks) (hsize : 0 < chunkSize)
    (hcount : total ≤ maxMountChunks * chunkSize) : databaseValidatesPlan chunks := by
  have hlength : chunks.length ≤ 1048576 := h.laid.length_le hsize hcount
  have hconsecutive : consecutive chunks := h.laid.consecutive_eq (by omega)
  have hvalid : chunks.all validPlanChunk := by
    rw [List.all_eq_true]
    intro chunk hchunk
    obtain ⟨hnumber, hoffset⟩ := h.offset_nonneg hsize hchunk
    have hpos : 0 < chunk.sizeBytes := h.laid.size_pos hsize hchunk
    have hnil := h.notNil chunk hchunk
    rcases (h.sourced chunk hchunk).cases hoffset with
      ⟨hid, hsource⟩ | ⟨base, -, hid, hsource⟩
    · simp [validPlanChunk, hnumber, hpos, hnil, hid, hsource]
    · simp [validPlanChunk, hnumber, hpos, hnil, hid, hsource]
  have hhead : (chunks.head?.all fun chunk => chunk.chunkNumber == 0) := by
    cases chunks with
    | nil => rfl
    | cons first =>
      have hnumber : first.chunkNumber = 0 := h.laid.2.1
      simp [hnumber]
  simp [databaseValidatesPlan, hlength, h.nodup, hvalid, hconsecutive, hhead]

theorem WellPlanned.workerValidates
    (h : WellPlanned storage chunkSizeBytes storage.reservedBytes storage.plannedChunks)
    (hsize : 0 < chunkSizeBytes) (hi64 : storage.reservedBytes < ((2 ^ 63 : ℕ) : ℤ))
    (hrange : rangeEnd < storage.reservedBytes) :
    workerValidatesPlan storage chunkSizeBytes rangeEnd := by
  have hsize' : (0 : ℤ) < chunkSizeBytes := Int.natCast_pos.mpr hsize
  have hextra : ∀ chunk ∈ storage.plannedChunks, ∀ i : ℕ,
      planFields.number chunk = i → workerSource storage chunk := by
    intro chunk hchunk _ _
    obtain ⟨-, hoffset⟩ := h.offset_nonneg hsize' hchunk
    rcases (h.sourced chunk hchunk).cases hoffset with
      ⟨hid, hsource⟩ | ⟨base, hbase, hid, hsource⟩
    · simp [workerSource, hid, hsource]
    · simp [workerSource, hid, hsource, hbase]
  have hcheck := h.laid.checkChunks_eq hsize' h.nodup
    (fun _ _ => List.not_mem_nil) h.notNil hextra le_rfl (by omega)
  rw [Int.zero_add] at hcheck
  rw [workerValidatesPlan, hcheck, beq_self_eq_true, Bool.true_and, decide_eq_true_eq]
  exact hrange

end FileBelt.Write
