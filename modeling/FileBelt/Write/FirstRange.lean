import FileBelt.Write.RangePlan

/-!
# The first range operation of a write session

A session plans its first range if and only if it starts without a reservation and
without base bytes and the range ends within the largest file.  One over a non-empty base
file, or one that starts with a reservation, has no chunk rows that represent it.
-/

namespace FileBelt.Write

open Support

def NfsRuntime.ofLimits (limits : Upload.LimitConfig) : NfsRuntime where
  chunkSizeBytes := limits.chunkSizeBytes
  maxFileBytes := limits.maxFileBytes

/-- A range that extends the file within the limit of the chunk count. -/
structure WriteRange (runtime : NfsRuntime) (spec : RangeSpec) : Prop where
  extending : spec.operation.extends
  digest : (spec.operation == .writeData) = spec.contentBlake3.isSome
  nonnegative : 0 ≤ spec.rangeStart
  nonempty : spec.rangeStart ≤ spec.rangeEnd
  chunkCount : spec.rangeEnd + 1 ≤ maxMountChunks * runtime.chunkSizeBytes

/-- A range that also ends within the largest file. -/
structure FitsLimits (runtime : NfsRuntime) (spec : RangeSpec) : Prop
    extends WriteRange runtime spec where
  fileSize : spec.rangeEnd + 1 ≤ runtime.maxFileBytes

/-- A session whose next operation can be planned. -/
structure Plannable (runtime : NfsRuntime) (session : WriteSession) : Prop where
  planned : WellPlanned session.storage runtime.chunkSizeBytes
    session.storage.reservedBytes session.storage.plannedChunks
  valid : validateMountStorage session.storage runtime.chunkSizeBytes
  applied : ∀ row ∈ session.operations, row.state = .applied
  ordinal : 0 ≤ session.maxOrdinal
  ordinalLimit : session.maxOrdinal + 1 < ((2 ^ 63 : ℕ) : ℤ)
  fileSize : session.storage.reservedBytes ≤ runtime.maxFileBytes
  chunkCount : session.storage.reservedBytes ≤ maxMountChunks * runtime.chunkSizeBytes

/-- The reservation after an operation that extends the file. -/
def WriteSession.required (session : WriteSession) (spec : RangeSpec) : ℤ :=
  max session.storage.reservedBytes (spec.rangeEnd + 1)

/-- What the VFS stores for an operation with this plan. -/
def WriteSession.extendInput (session : WriteSession) (spec : RangeSpec)
    (operationId : Uuid) (plan : List MountWriteChunkPlan) : ExtendNfsWriteChunks where
  requiredReservationBytes := session.required spec
  operationId := operationId
  operation := spec.operation
  contentBlake3 := spec.contentBlake3
  rangeStart := spec.rangeStart
  rangeEnd := spec.rangeEnd
  chunks := plan

def WriteSession.plannedRow (session : WriteSession) (spec : RangeSpec)
    (operationId : Uuid) (plan : List MountWriteChunkPlan) : RangeOperationRow :=
  (session.extendInput spec operationId plan).row (session.maxOrdinal + 1)
    (session.resultingSize spec.operation (spec.rangeEnd + 1))

def WriteSession.afterPlan (session : WriteSession) (spec : RangeSpec)
    (operationId : Uuid) (plan : List MountWriteChunkPlan) : WriteSession :=
  session.withPlan (session.extendInput spec operationId plan) (session.maxOrdinal + 1)
    (session.resultingSize spec.operation (spec.rangeEnd + 1))

section

variable {runtime : NfsRuntime} {source : LocatorSource} {quota quota' : DriveQuota}
  {session : WriteSession} {spec : RangeSpec} {operationId : Uuid} {plan : List MountWriteChunkPlan}

theorem validateMountStorage_inv {storage : MountWriteStorageRecord}
    {chunkSizeBytes : ℕ} (h : validateMountStorage storage chunkSizeBytes) :
    0 ≤ storage.logicalSizeBytes ∧ storage.logicalSizeBytes ≤ storage.reservedBytes ∧
      storage.state = .opened ∧ storage.stagingPayload.state = .staging ∧
      storage.baseSize ≤ storage.reservedBytes := by
  simp only [validateMountStorage, Bool.and_eq_true, decide_eq_true_eq, beq_iff_eq] at h
  obtain ⟨⟨⟨⟨⟨⟨⟨⟨hlogical, hle⟩, hstate⟩, -⟩, -⟩, -⟩, hstaging⟩, hbase⟩, -⟩ := h
  refine ⟨hlogical, hle, hstate, hstaging, ?_⟩
  rw [MountWriteStorageRecord.baseSize]
  cases hpayload : storage.basePayload with
  | none => exact hlogical.trans hle
  | some =>
    rw [hpayload] at hbase
    simp only [Option.all_some, validBase, Bool.and_eq_true, decide_eq_true_eq] at hbase
    exact hbase.1.2

theorem extends_not_seeks {operation : MountWriteRangeOperation}
    (h : operation.extends) : operation.seeks = false := by
  cases operation with
  | writeData => rfl
  | allocate => rfl
  | holeDeallocate => cases h
  | seekData => cases h
  | seekHole => cases h

variable (hfits : FitsLimits runtime spec) (hplannable : Plannable runtime session)
  (hlimit : runtime.maxFileBytes ≤ 2 ^ 46)
include hfits

theorem resultingSize_eq (session : WriteSession) :
    session.resultingSize spec.operation (spec.rangeEnd + 1) =
      max (max session.storage.logicalSizeBytes session.storage.baseSize) (spec.rangeEnd + 1) := by
  rw [WriteSession.resultingSize, hfits.extending]
  rfl

include hplannable

theorem required_bounds : session.storage.reservedBytes ≤ session.required spec ∧
    spec.rangeEnd + 1 ≤ session.required spec ∧ session.required spec ≤ runtime.maxFileBytes ∧
    session.required spec ≤ maxMountChunks * runtime.chunkSizeBytes :=
  ⟨le_max_left _ _, le_max_right _ _, max_le hplannable.fileSize hfits.fileSize,
    max_le hplannable.chunkCount hfits.chunkCount⟩

theorem resultingSize_bounds : 0 ≤ session.storage.logicalSizeBytes ∧
    session.storage.logicalSizeBytes ≤ session.resultingSize spec.operation (spec.rangeEnd + 1) ∧
    session.resultingSize spec.operation (spec.rangeEnd + 1) ≤ session.required spec := by
  obtain ⟨hlogical, hlogicalLe, -, -, hbase⟩ := validateMountStorage_inv hplannable.valid
  have hresulting := resultingSize_eq hfits session
  have hbounds := required_bounds hfits hplannable
  omega

include hlimit

theorem plannedBytes_required (hsize : (0 : ℤ) < runtime.chunkSizeBytes)
    (hplan : WellPlanned session.storage runtime.chunkSizeBytes (session.required spec) plan) :
    plannedBytes plan = some (session.required spec) := by
  have hbounds := required_bounds hfits hplannable
  refine (plannedBytes_of_laid hplan.laid hsize le_rfl (by omega)).trans ?_
  rw [Int.zero_add]

theorem requiredReservation_ok : requiredReservation session.storage spec.operation spec.rangeEnd
    runtime.maxFileBytes = some (session.required spec) := by
  have hfile := hfits.fileSize
  have hreserved := hplannable.fileSize
  have hstart := hfits.nonnegative
  have hrange := hfits.nonempty
  have hguard : ¬(session.required spec ≤ spec.rangeEnd ∨ session.required spec ≤ 0 ∨
      (runtime.maxFileBytes : ℤ) < session.required spec) := by
    rw [WriteSession.required]
    omega
  rw [requiredReservation, toI64_eq_some (by omega),
    checkedAddI64_eq_some (by omega) (by omega), hfits.extending]
  exact if_neg hguard

theorem extendMountWriteChunks_ok (hsize : 0 < runtime.chunkSizeBytes)
    (hplan : WellPlanned session.storage runtime.chunkSizeBytes (session.required spec) plan)
    (hrows : extendsRows session.storage.plannedChunks plan)
    (hquota : quota.reserve (session.required spec - session.storage.reservedBytes) = some quota')
    (hfresh : ∀ row ∈ session.operations, row.operationId ≠ operationId) :
    extendMountWriteChunks quota session (session.extendInput spec operationId plan) =
      .ok (quota', session.afterPlan spec operationId plan) := by
  obtain ⟨-, -, hstate, hstaging, -⟩ := validateMountStorage_inv hplannable.valid
  have hsize' : (0 : ℤ) < runtime.chunkSizeBytes := Int.natCast_pos.mpr hsize
  obtain ⟨hreserved, hinside, hrequired, hcount⟩ := required_bounds hfits hplannable
  have hstart := hfits.nonnegative
  have hrange := hfits.nonempty
  have hordinal := hplannable.ordinal
  have hvalid : (session.extendInput spec operationId plan).valid := by
    have hnonneg : 0 ≤ session.required spec := by omega
    have hend : spec.rangeEnd < session.required spec := by omega
    simp [ExtendNfsWriteChunks.valid, WriteSession.extendInput,
      hplan.databaseValidates hsize' hcount, extends_not_seeks hfits.extending,
      hfits.digest, hstart, hrange, hnonneg, hend]
  have happlied : (session.operations.any fun row => row.state != .applied) =
      false := by
    rw [List.any_eq_false]
    intro row hrow
    rw [hplannable.applied row hrow]
    decide
  have hsources : ((session.extendInput spec operationId plan).chunks.any
      fun chunk => chunk.sourcePayloadId.isSome &&
        session.storage.basePayload.map PayloadRecord.payloadId !=
          chunk.sourcePayloadId) = false := by
    rw [List.any_eq_false]
    intro chunk hchunk
    rcases (hplan.sourced chunk hchunk).cases (hplan.offset_nonneg hsize' hchunk).2 with
      ⟨hid, -⟩ | ⟨base, hpayload, hid, -⟩
    · rw [hid]
      exact Bool.false_ne_true
    · rw [hid, hpayload]
      simp
  have hbytes : plannedBytes (session.extendInput spec operationId plan).chunks = _ :=
    plannedBytes_required hfits hplannable hlimit hsize' hplan
  have hunused : (session.operations.any fun row =>
      row.operationId == operationId) = false := by
    rw [List.any_eq_false]
    intro row hrow hsame
    exact hfresh row hrow (beq_iff_eq.mp hsame)
  -- the planned size lies between the stored one and the reservation
  obtain ⟨-, hlogical, hresulting⟩ := resultingSize_bounds hfits hplannable
  have hordinal := checkedAddI64_eq_some (by omega) hplannable.ordinalLimit
  have hend := @checkedAddI64_eq_some 1 spec.rangeEnd (by omega) (by omega)
  unfold extendMountWriteChunks
  simp only [hvalid, hsources, hbytes]
  dsimp only [WriteSession.extendInput]
  simp only [hstate, hstaging, happlied, hordinal, hend, not_lt.mpr hresulting, hrows,
    not_lt.mpr hreserved, hquota, not_lt.mpr hlogical, hunused, okOr_some, ok_bind, ne_eq,
    not_true_eq_false, or_self, if_false, Bool.true_eq_false, Bool.false_eq_true]
  rfl

theorem planRange_ok (source : LocatorSource)
    (hsize : 0 < runtime.chunkSizeBytes) (hsizeLimit : runtime.chunkSizeBytes ≤ 2 ^ 28)
    (hquota : quota.reserve (session.required spec - session.storage.reservedBytes) = some quota')
    (hfresh : ∀ row ∈ session.operations, row.operationId ≠ operationId) :
    ∃ plan, buildMountChunkPlan source session.storage (session.required spec)
        runtime.chunkSizeBytes = some plan ∧
      planRange runtime source quota session spec operationId =
        .ok (quota', session.afterPlan spec operationId plan) ∧
      WellPlanned session.storage runtime.chunkSizeBytes (session.required spec) plan := by
  have hstart := hfits.nonnegative
  have hrange := hfits.nonempty
  obtain ⟨hreserved, hinside, hrequired, hcount⟩ := required_bounds hfits hplannable
  obtain ⟨plan, hbuild, hplan, hrows⟩ := buildMountChunkPlan_ok source
    hplannable.planned hsize hreserved (by omega) hcount (by omega)
  refine ⟨plan, hbuild, ?_, hplan⟩
  have hextend := extendMountWriteChunks_ok hfits hplannable hlimit hsize hplan hrows hquota hfresh
  unfold planRange
  rw [hplannable.valid, requiredReservation_ok hfits hplannable hlimit, okOr_some, ok_bind, hbuild]
  exact congrArg (Except.mapError PlanError.planFailed) hextend

theorem workerAdmits_afterPlan (hsize : 0 < runtime.chunkSizeBytes) (hid : operationId ≠ nilUuid)
    (hplan : WellPlanned session.storage runtime.chunkSizeBytes (session.required spec) plan) :
    workerAdmits (session.afterPlan spec operationId plan).storage
      (session.plannedRow spec operationId plan) runtime.chunkSizeBytes := by
  obtain ⟨-, -, hstate, -, -⟩ := validateMountStorage_inv hplannable.valid
  have hsize' : (0 : ℤ) < runtime.chunkSizeBytes := Int.natCast_pos.mpr hsize
  have hstart := hfits.nonnegative
  have hrange := hfits.nonempty
  have hordinal := hplannable.ordinal
  obtain ⟨-, hinside, hrequired, -⟩ := required_bounds hfits hplannable
  obtain ⟨hlogical, hge, hle⟩ := resultingSize_bounds hfits hplannable
  have hbytes := plannedBytes_required hfits hplannable hlimit hsize' hplan
  -- the stored record keeps the base, so the plan is well planned for it as well
  have hstored : WellPlanned (session.afterPlan spec operationId plan).storage
      runtime.chunkSizeBytes
      (session.afterPlan spec operationId plan).storage.reservedBytes
      (session.afterPlan spec operationId plan).storage.plannedChunks :=
    ⟨hplan.laid, hplan.nodup, hplan.notNil, hplan.sourced⟩
  have hend : spec.rangeEnd < session.required spec := by omega
  have hi64 : session.required spec < ((2 ^ 63 : ℕ) : ℤ) := by omega
  simp only [workerAdmits, Bool.and_eq_true, decide_eq_true_eq, beq_iff_eq, Bool.or_eq_true]
  refine ⟨⟨⟨⟨⟨⟨⟨⟨⟨⟨⟨⟨⟨?_, hid⟩, hstart⟩, hrange⟩, .inl ?_⟩, hend⟩, rfl⟩, hbytes⟩,
    hlogical.trans hge⟩, hle⟩, rfl⟩, .inr hstate⟩, hfits.digest⟩, ?_⟩
  · change 0 < session.maxOrdinal + 1
    omega
  · change (!spec.operation.seeks) = true
    rw [extends_not_seeks hfits.extending]
    rfl
  · exact hstored.workerValidates hsize hi64 hend

end

section

variable {runtime : NfsRuntime} {source : LocatorSource} {quota quota' : DriveQuota}
  {spec : RangeSpec} {operationId : Uuid} {input : StartNfsWrite}

/-- The facts that hold of the payload of a stored version. -/
structure BaseVersion.Stored (version : BaseVersion) : Prop where
  payloadId : version.payload.payloadId ≠ nilUuid
  locator : version.payload.locator ≠ nilUuid
  state : version.payload.state = .referenced
  blake3 : version.payload.blake3.isSome
  nonnegative : 0 ≤ version.payload.sizeBytes
  emptyParts : version.payload.sizeBytes = 0 → version.parts = []

theorem Plannable.start (hsize : 0 < runtime.chunkSizeBytes)
    (hsizeLimit : runtime.chunkSizeBytes ≤ 2 ^ 28) (hpayload : input.stagingPayloadId ≠ nilUuid)
    (hlocator : input.stagingLocator ≠ nilUuid) (hreserved : input.reservedBytes = 0)
    (hstored : ∀ version ∈ input.base, version.Stored)
    (hempty : ∀ version ∈ input.base, version.payload.sizeBytes = 0) :
    Plannable runtime input.session where
  planned := by
    refine ⟨?_, List.nodup_nil, fun _ h => absurd h List.not_mem_nil,
      fun _ h => absurd h List.not_mem_nil⟩
    exact hreserved
  valid := by
    have hi64 : toI64 runtime.chunkSizeBytes = some (runtime.chunkSizeBytes : ℤ) :=
      toI64_eq_some (by omega)
    cases hbase : input.base with
    | none =>
      simp [validateMountStorage, validateBaseParts, StartNfsWrite.session, hbase,
        hreserved, hpayload, hlocator, hi64, hsize]
    | some version =>
      have hmem : version ∈ input.base := hbase
      have hzero := hempty version hmem
      obtain ⟨hid, hplace, hstate, hdigest, -, hparts⟩ := hstored version hmem
      cases hlayout : version.payload.layout with
      | whole =>
        simp [validateMountStorage, validateBaseParts, validBase,
          StartNfsWrite.session, hbase, hreserved, hpayload, hlocator, hi64, hsize,
          hid, hplace, hstate, hdigest, hzero, hlayout, hparts hzero]
      | chunked =>
        simp [validateMountStorage, validateBaseParts, validBase,
          StartNfsWrite.session, hbase, hreserved, hpayload, hlocator, hi64, hsize,
          hid, hplace, hstate, hdigest, hzero, hlayout, hparts hzero, checkChunks]
  applied := fun _ h => absurd h List.not_mem_nil
  ordinal := le_rfl
  ordinalLimit := (by decide : (0 : ℤ) + 1 < ((2 ^ 63 : ℕ) : ℤ))
  fileSize := by
    change input.reservedBytes ≤ _
    omega
  chunkCount := by
    change input.reservedBytes ≤ _
    rw [hreserved]
    exact Int.mul_nonneg (Int.natCast_nonneg _) (Int.natCast_nonneg _)

theorem startNfsWrite_session {session : WriteSession}
    (h : startNfsWrite quota input = some (quota', session)) : session = input.session := by
  obtain ⟨-, h⟩ := Option.ite_none_left_eq_some.mp h
  obtain ⟨_, -, heq⟩ := Option.map_eq_some_iff.mp h
  exact (Prod.mk.inj heq).2.symm

/-- The planner asks that the chunk rows represent the reservation. -/
theorem buildMountChunkPlan_reserved {storage : MountWriteStorageRecord} {required : ℤ}
    {chunkSizeBytes : ℕ} {plan : List MountWriteChunkPlan} (hrows : storage.plannedChunks = [])
    (h : buildMountChunkPlan source storage required chunkSizeBytes = some plan) :
    storage.reservedBytes = 0 := by
  obtain ⟨_, -, h⟩ := Option.bind_eq_some_iff.mp h
  obtain ⟨_, -, h⟩ := Option.bind_eq_some_iff.mp h
  obtain ⟨_, -, h⟩ := Option.bind_eq_some_iff.mp h
  obtain ⟨-, h⟩ := Option.ite_none_left_eq_some.mp h
  obtain ⟨_, hrepresented, h⟩ := Option.bind_eq_some_iff.mp h
  rw [hrows] at hrepresented
  cases hrepresented
  exact (not_not.mp (Option.ite_none_left_eq_some.mp h).1).symm

theorem requiredReservation_le {storage : MountWriteStorageRecord} {required : ℤ}
    {operation : MountWriteRangeOperation} {rangeEnd : ℤ} {maxFileBytes : ℕ}
    (h : requiredReservation storage operation rangeEnd maxFileBytes = some required) :
    rangeEnd + 1 ≤ maxFileBytes := by
  obtain ⟨_, hmax, h⟩ := Option.bind_eq_some_iff.mp h
  obtain ⟨_, -, h⟩ := Option.bind_eq_some_iff.mp h
  obtain ⟨hguard, -⟩ := Option.ite_none_left_eq_some.mp h
  obtain rfl := toI64_inv hmax
  omega

/-- A new session plans only without a reservation and without base bytes. -/
theorem planRange_session_eq_ok {result : DriveQuota × WriteSession}
    (hstored : ∀ version ∈ input.base, version.Stored)
    (h : planRange runtime source quota input.session spec operationId = .ok result) :
    input.reservedBytes = 0 ∧ (∀ version ∈ input.base, version.payload.sizeBytes = 0) ∧
      spec.rangeEnd + 1 ≤ runtime.maxFileBytes := by
  obtain ⟨hvalid, h⟩ := else_of_ok h
  obtain ⟨_, hrequired, h⟩ := bind_eq_ok h
  obtain ⟨_, hbuild, -⟩ := bind_eq_ok h
  have hreserved := buildMountChunkPlan_reserved rfl (okOr_eq_ok hbuild)
  obtain ⟨-, -, -, -, hbase⟩ := validateMountStorage_inv (Bool.of_not_eq_false hvalid)
  refine ⟨hreserved, fun version hversion => ?_, requiredReservation_le (okOr_eq_ok hrequired)⟩
  have hsize : input.session.storage.baseSize = version.payload.sizeBytes := by
    rw [MountWriteStorageRecord.baseSize, StartNfsWrite.session, Option.mem_def.mp hversion]
    rfl
  have hnonnegative := (hstored version hversion).nonnegative
  omega

end

def countedLocators : LocatorSource where
  next used := used.foldr max 0 + 1
  next_notMem used hmem := by
    have hle : ∀ (xs : List Uuid) (x : Uuid), x ∈ xs → x ≤ xs.foldr max 0 := by
      intro xs x hx
      induction xs with
      | nil => cases hx
      | cons y ys ih =>
        rcases List.mem_cons.mp hx with rfl | hx
        · exact le_max_left _ _
        · exact (ih hx).trans (le_max_right _ _)
    exact Nat.not_succ_le_self _ (hle used _ hmem)
  next_ne_nil _ := Nat.succ_ne_zero _

/-- Parameters of a session with staging payload 2 under locator 3. -/
def startInput (reservedBytes : ℤ) (base : Option BaseVersion) : StartNfsWrite where
  writeSessionId := 1
  stagingPayloadId := 2
  stagingLocator := 3
  reservedBytes := reservedBytes
  base := base

def gibibyteQuota : DriveQuota where
  usedPhysicalBytes := 5
  reservedBytes := 0
  quotaBytes := 1073741824

def tenByteWrite : RangeSpec where
  operation := .writeData
  rangeStart := 0
  rangeEnd := 9
  contentBlake3 := some (Vector.replicate 32 1)

theorem tenByteWrite_writeRange :
    WriteRange (NfsRuntime.ofLimits Upload.LimitConfig.default) tenByteWrite :=
  ⟨rfl, rfl, by decide, by decide, by decide⟩

def fiveByteVersion : BaseVersion where
  versionId := 4
  sizeBytes := 5
  blake3 := Vector.replicate 32 2
  payload :=
    { payloadId := 5
      locator := 6
      layout := .whole
      state := .referenced
      sizeBytes := 5
      blake3 := some (Vector.replicate 32 2) }
  parts := []

end FileBelt.Write
