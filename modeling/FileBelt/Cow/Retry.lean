import FileBelt.Cow.Begin
import FileBelt.Cow.Ranges

/-!
# Repeated attempts

A stopped range operation is repeated by the worker: it recovers the session,
begins it if its directory is missing, and runs the same operation again.  Every
state in which an attempt can stop leads to the same outcome.
-/

namespace FileBelt.Cow

open Support Support.Proc Write

/-- The planned size is the one that the database admitted. -/
def RangeAttempt.Accepts (attempt : RangeAttempt) (file : SparseFile UInt8 1) : Prop :=
  plannedSize attempt.operation file.size attempt.start attempt.length =
    .ok attempt.expectedLogicalSize

/-- The file that an attempt leaves. -/
def RangeAttempt.settle (attempt : RangeAttempt) (file : SparseFile UInt8 1) : SparseFile UInt8 1 :=
  settled attempt.operation attempt.chunkSize attempt.start attempt.length attempt.bytes file

/-- The logical size that an attempt on a file returns, if any, and the file that it
leaves. -/
inductive RangeAttempt.Ends (attempt : RangeAttempt) (file : SparseFile UInt8 1) :
    Option ℕ → SparseFile UInt8 1 → Prop
  | refused (h : ¬attempt.Accepts file) : attempt.Ends file none file
  | failed (h : attempt.Accepts file)
      (hvalid : ¬RangeValid attempt.operation attempt.chunkSize attempt.start
        attempt.length) : attempt.Ends file none (attempt.settle file)
  | done (h : attempt.Accepts file)
      (hvalid : RangeValid attempt.operation attempt.chunkSize attempt.start attempt.length) :
      attempt.Ends file (some attempt.expectedLogicalSize) (attempt.settle file)

section

variable {attempt : RangeAttempt} {file half file' : SparseFile UInt8 1}
  {c length chunkSize start : ℕ} {operation : MountWriteRangeOperation} {bytes : List UInt8}

theorem RangeAttempt.exists_ends (attempt : RangeAttempt) (file : SparseFile UInt8 1) :
    ∃ logical file', attempt.Ends file logical file' := by
  by_cases haccepts : attempt.Accepts file
  · by_cases hvalid : RangeValid attempt.operation attempt.chunkSize attempt.start attempt.length
    · exact ⟨_, _, .done haccepts hvalid⟩
    · exact ⟨_, _, .failed haccepts hvalid⟩
  · exact ⟨_, _, .refused haccepts⟩

/-- Where the part of a range below the limit of the chunk names ends. -/
def settledEnd (operation : MountWriteRangeOperation) (chunkSize start length : ℕ) : ℕ :=
  if operation.extends ∧ RangeChecked operation start length then
    min (start + length) (maxChunkCount * chunkSize)
  else 0

theorem settled_size (file : SparseFile UInt8 c) (chunkSize start : ℕ)
    (hbytes : operation = .writeData → bytes.length = length) :
    (settled operation chunkSize start length bytes file).size =
      max file.size (settledEnd operation chunkSize start length) := by
  by_cases hchecked : RangeChecked operation start length
  · by_cases hgrows : operation.extends = true
    · rw [settled_grown hgrows hchecked, applied_size hgrows fun h => by
        rw [List.length_take, hbytes h, min_comm], settledEnd, if_pos ⟨hgrows, hchecked⟩]
      omega
    · rw [settledEnd, if_neg fun h => hgrows h.1, max_eq_left (Nat.zero_le _)]
      cases operation with
      | holeDeallocate => rw [settled_deallocate hchecked]; rfl
      | seekData | seekHole => exact absurd hchecked id
      | writeData | allocate => exact absurd rfl hgrows
  · rw [settled_of_not_checked hchecked, settledEnd, if_neg fun h => hchecked h.2,
      max_eq_left (Nat.zero_le _)]

theorem settledEnd_le (operation : MountWriteRangeOperation) (chunkSize start length : ℕ) :
    settledEnd operation chunkSize start length ≤ start + length ∧
      settledEnd operation chunkSize start length ≤ maxChunkCount * chunkSize := by
  unfold settledEnd
  split
  · exact ⟨min_le_left _ _, min_le_right _ _⟩
  · exact ⟨Nat.zero_le _, Nat.zero_le _⟩

/-- The worker plans the same size for a file on which the operation was stopped. -/
theorem Halfway.plannedSize_eq {file half : SparseFile UInt8 c}
    (hbytes : operation = .writeData → bytes.length = length)
    (h : Halfway operation chunkSize start length bytes file half) :
    plannedSize operation half.size start length =
      plannedSize operation file.size start length := by
  have hsize := congrArg SparseFile.size h
  rw [settled_size half _ _ hbytes, settled_size file _ _ hbytes] at hsize
  have hend := (settledEnd_le operation chunkSize start length).1
  have hmax : max half.size (start + length) = max file.size (start + length) := by omega
  cases operation with
  | writeData | allocate =>
    unfold plannedSize
    by_cases hadd : start + length < 2 ^ 64
    · rw [checkedAdd, if_pos hadd]
      exact congrArg Except.ok hmax
    · rw [checkedAdd, if_neg hadd]
      rfl
  | holeDeallocate =>
    have hzero : settledEnd .holeDeallocate chunkSize start length = 0 := if_neg (by rintro ⟨⟨⟩, -⟩)
    rw [hzero, max_eq_left (Nat.zero_le _), max_eq_left (Nat.zero_le _)] at hsize
    exact congrArg Except.ok hsize
  | seekData | seekHole => rfl

theorem Halfway.size_le {file half : SparseFile UInt8 c}
    (hbytes : operation = .writeData → bytes.length = length)
    (h : Halfway operation chunkSize start length bytes file half)
    (hfile : file.size ≤ maxChunkCount * chunkSize) : half.size ≤ maxChunkCount * chunkSize := by
  have hsize := congrArg SparseFile.size h
  rw [settled_size half _ _ hbytes, settled_size file _ _ hbytes] at hsize
  have hend := (settledEnd_le operation chunkSize start length).2
  omega

/-- An operation that was stopped ends as it would have ended. -/
theorem RangeAttempt.Ends.halfway {logical : Option ℕ} (hends : attempt.Ends file logical file')
    (haccepts : attempt.Accepts file)
    (h : Halfway attempt.operation attempt.chunkSize attempt.start attempt.length
      attempt.bytes file half) : attempt.Ends half logical file' := by
  have hhalf : attempt.Accepts half := by
    rw [RangeAttempt.Accepts, h.plannedSize_eq attempt.bytes_length]
    exact haccepts
  have hsettle : attempt.settle half = attempt.settle file := h
  cases hends with
  | refused hnot => exact absurd haccepts hnot
  | failed _ hvalid =>
    rw [← hsettle]
    exact .failed hhalf hvalid
  | done _ hvalid =>
    rw [← hsettle]
    exact .done hhalf hvalid

end

section

variable {b : ℕ} {session : Uuid} {chunkSize : ℕ} {s t : Disk b} {file : SparseFile UInt8 1}

def chunkContents (session : Uuid) (disk : Disk b) (n : ℕ) : Option (List UInt8) :=
  (disk.file (.cow session) (.part n)).map fileBytes

def fileChunks (chunkSize : ℕ) (file : SparseFile UInt8 1) (n : ℕ) : Option (List UInt8) :=
  if n * chunkSize < file.size then
    some (fileBytes (file.chunk chunkSize (one_dvd chunkSize) n))
  else none

theorem Stands.chunkContents_eq
    (h : Stands SameBytes session chunkSize (one_dvd chunkSize) file s) :
    chunkContents session s = fileChunks chunkSize file := by
  funext n
  rw [chunkContents, fileChunks]
  cases hf : s.file (.cow session) (.part n) with
  | none => rw [if_neg (Nat.not_lt.mpr (h.missing n hf))]; rfl
  | some f =>
    obtain ⟨hlt, hsize, hcontent⟩ := h.chunk n f hf
    rw [if_pos hlt, Option.map_some, fileBytes_eq, fileBytes_eq, hsize, hcontent]

theorem chunkContents_eq_none (h : s.dir (.cow session) = none) :
    chunkContents session s = fun _ => none := by
  funext n
  rw [chunkContents, FileSystem.file, lookup_of_dir_none h]
  rfl

theorem Pruned.chunkContents_eq (h : Pruned session s t) :
    chunkContents session t = chunkContents session s := by
  funext n
  rw [chunkContents, chunkContents, h.file_eq]

theorem Pruned.stands (h : Pruned session s t)
    (hs : Stands SameBytes session chunkSize (one_dvd chunkSize) file s) :
    Stands SameBytes session chunkSize (one_dvd chunkSize) file t where
  present := by
    rw [h.present_eq]
    exact hs.present
  chunk n f hf := hs.chunk n f (by rw [← h.file_eq]; exact hf)
  missing n hf := hs.missing n (by rw [← h.file_eq]; exact hf)
  named x hx := by
    rw [h.lookup_eq _ x hx] at hx
    exact hs.named x hx

end

/-! ## Attempts -/

section

variable {b chunkSize : ℕ} {blake3 : List UInt8 → Digest} {attempt : RangeAttempt}
  {logical : Option ℕ} {file half : SparseFile UInt8 1} {s t u : Disk b}

def RangeAttempt.session (attempt : RangeAttempt) : Uuid := attempt.storage.writeSessionId

/-- The chunks of the session stand for a file of an accepted size. -/
structure RangeAttempt.Holds (attempt : RangeAttempt) (file : SparseFile UInt8 1)
    (disk : Disk b) : Prop where
  chunkSize : validateChunkSize attempt.chunkSize = .ok ()
  size : file.size ≤ maxChunkCount * attempt.chunkSize
  stands : Stands SameBytes attempt.session attempt.chunkSize (one_dvd attempt.chunkSize) file disk

theorem RangeAttempt.Holds.cowLogicalSize_eq (h : attempt.Holds file s)
    (hclean : Clean attempt.session s) :
    cowLogicalSize attempt.session attempt.chunkSize s = .ok file.size :=
  FileBelt.Cow.cowLogicalSize_eq h.chunkSize h.stands.present hclean
    (h.stands.numbered (simulation_sameBytes b 1))
    (Nat.lt_of_le_of_lt h.size (limit_lt h.chunkSize))

theorem spec_mutatePlanned (hs : attempt.Holds half s) (hclean : Clean attempt.session s)
    (hends : attempt.Ends half logical file) : Spec (mutatePlanned attempt) s
      (fun t => OnlyCow attempt.session s t ∧ ∃ half', attempt.Holds half' t ∧
        attempt.Ends half' logical file) (fun result t => logical = some result.logicalSize ∧
        chunkContents attempt.session t = fileChunks attempt.chunkSize file)
      (fun _ t => logical = none ∧
        chunkContents attempt.session t = fileChunks attempt.chunkSize file) := by
  apply spec_check_bind (hs.cowLogicalSize_eq hclean)
  by_cases haccepts : attempt.Accepts half
  swap
  · -- the planned size is refused before anything changes
    have hend : logical = none ∧
        chunkContents attempt.session s = fileChunks attempt.chunkSize file := by
      cases hends with
      | refused => exact ⟨rfl, hs.stands.chunkContents_eq⟩
      | failed h => exact absurd h haccepts
      | done h => exact absurd h haccepts
    refine spec_checked (fun planned hplanned => ?_) fun _ _ => hend
    refine spec_bind (P := fun _ _ => False) (spec_require (fun heq => ?_)
      fun _ => hend) fun _ _ hfalse => hfalse.elim
    exact haccepts (hplanned.trans (congrArg Except.ok heq))
  apply spec_check_bind (f := fun _ => plannedSize attempt.operation half.size
    attempt.start attempt.length) haccepts
  apply spec_require_bind rfl
  refine spec_bind (spec_mono (spec_mutateRange (simulation_sameBytes b 1)
    attempt.operationId hs.chunkSize hs.size hs.stands hclean attempt.operation attempt.start
    attempt.bytes_length) ?_ (fun _ _ ht => ht) ?_) ?_
  · rintro t ⟨hconfined, half', hhalf, hstands⟩
    exact ⟨hconfined, half', ⟨hs.chunkSize, hhalf.size_le attempt.bytes_length hs.size,
      hstands⟩, hends.halfway haccepts hhalf⟩
  · rintro _ t ⟨hnot, -, hstands⟩
    cases hends with
    | refused h => exact absurd haccepts h
    | failed => exact ⟨rfl, hstands.chunkContents_eq⟩
    | done _ hvalid => exact absurd hvalid hnot
  · rintro result t ⟨hvalid, hplanned, -, hstands, -⟩
    have hresult : result.logicalSize = attempt.expectedLogicalSize :=
      Except.ok.inj (hplanned.symm.trans haccepts)
    apply spec_require_bind hresult
    cases hends with
    | refused h => exact absurd haccepts h
    | failed _ hnot => exact absurd hvalid hnot
    | done =>
      exact spec_pure ⟨congrArg some hresult.symm, hstands.chunkContents_eq⟩

/-- The base of the session is as recorded. -/
def RangeAttempt.Based (blake3 : List UInt8 → Digest) (attempt : RangeAttempt)
    (disk : Disk b) : Prop :=
  validateChunkSize attempt.chunkSize = .ok () ∧ ∃ baseChunks,
    attempt.storage.baseParts.mapM mountBaseChunk = .ok baseChunks ∧
    BaseReady blake3 attempt.chunkSize attempt.storage.basePayload baseChunks disk

/-- The logical size that attempts return, if any, and the chunk bytes that they leave. -/
inductive RangeAttempt.Outcome (blake3 : List UInt8 → Digest) (attempt : RangeAttempt)
    (disk : Disk b) : Option ℕ → (ℕ → Option (List UInt8)) → Prop
  | baseless (hcow : disk.dir (.cow attempt.session) = none) (hbase : ¬attempt.Based blake3 disk) :
      attempt.Outcome blake3 disk none fun _ => none
  | malformed (htidy : Tidy attempt.session disk)
      (hpresent : (disk.dir (.cow attempt.session)).isSome)
      (hmalformed : ∀ size, validateChunkSize attempt.chunkSize = .ok () →
        size ≤ maxChunkCount * attempt.chunkSize →
        ¬Numbered (.cow attempt.session) attempt.chunkSize size disk) :
      attempt.Outcome blake3 disk none (chunkContents attempt.session disk)
  | based (hcow : disk.dir (.cow attempt.session) = none)
      (htidy : Tidy attempt.session disk) (hbase : attempt.Based blake3 disk)
      {logical : Option ℕ} {file : SparseFile UInt8 1}
      (hends : attempt.Ends
        (baseFile attempt.storage.basePayload attempt.chunkSize disk) logical file) :
      attempt.Outcome blake3 disk logical (fileChunks attempt.chunkSize file)
  | holding (htidy : Tidy attempt.session disk) {half : SparseFile UInt8 1}
      (hholds : attempt.Holds half disk) {logical : Option ℕ} {file : SparseFile UInt8 1}
      (hends : attempt.Ends half logical file) :
      attempt.Outcome blake3 disk logical (fileChunks attempt.chunkSize file)

theorem RangeAttempt.Based.congr (h : attempt.Based blake3 s) (hst : SamePayloads s t) :
    attempt.Based blake3 t := by
  obtain ⟨hcs, baseChunks, hchunks, hready⟩ := h
  exact ⟨hcs, baseChunks, hchunks, hst.baseReady hready⟩

variable {bytes : ℕ → Option (List UInt8)}

theorem RangeAttempt.Outcome.pruned (h : attempt.Outcome blake3 s logical bytes)
    (hst : Pruned attempt.session s t) : attempt.Outcome blake3 t logical bytes := by
  have hpayloads := hst.confined.samePayloads
  cases h with
  | baseless hcow hbase =>
    exact .baseless (hst.cow_eq_none hcow) fun h => hbase (h.congr hpayloads.symm)
  | malformed htidy hpresent hmalformed =>
    rw [← hst.chunkContents_eq]
    refine .malformed (hst.tidy htidy) (by rw [hst.present_eq]; exact hpresent) ?_
    intro size hcs hsize hnumbered
    refine hmalformed size hcs hsize ⟨fun n f hf => ?_, fun n hf => ?_⟩
    · exact hnumbered.chunk n f (by rw [hst.file_eq]; exact hf)
    · exact hnumbered.missing n (by rw [hst.file_eq]; exact hf)
  | based hcow htidy hbase hends =>
    refine .based (hst.cow_eq_none hcow) (hst.tidy htidy) (hbase.congr hpayloads) ?_
    rw [hpayloads.baseFile_eq]
    exact hends
  | holding htidy hholds hends =>
    exact .holding (hst.tidy htidy) ⟨hholds.chunkSize, hholds.size, hst.stands hholds.stands⟩ hends

theorem RangeAttempt.exists_outcome (blake3 : List UInt8 → Digest) (attempt : RangeAttempt)
    (htidy : Tidy attempt.session s) : ∃ logical bytes, attempt.Outcome blake3 s logical bytes := by
  by_cases hpresent : (s.dir (.cow attempt.session)).isSome
  · by_cases hwell : ∃ size, validateChunkSize attempt.chunkSize = .ok () ∧
        size ≤ maxChunkCount * attempt.chunkSize ∧
        Numbered (.cow attempt.session) attempt.chunkSize size s
    · obtain ⟨size, hcs, hsize, hnumbered⟩ := hwell
      have hstands := hnumbered.stands hpresent htidy.cow fun _ _ => rfl
      obtain ⟨logical, file, hends⟩ := attempt.exists_ends
        (flatFile size (chunkBytes (.cow attempt.session) attempt.chunkSize s))
      exact ⟨_, _, .holding htidy ⟨hcs, hsize, hstands⟩ hends⟩
    · exact ⟨_, _, .malformed htidy hpresent fun size hcs hsize hnumbered =>
        hwell ⟨size, hcs, hsize, hnumbered⟩⟩
  · have hcow := Option.not_isSome_iff_eq_none.mp hpresent
    by_cases hbase : attempt.Based blake3 s
    · obtain ⟨_, _, hends⟩ := attempt.exists_ends
        (baseFile attempt.storage.basePayload attempt.chunkSize s)
      exact ⟨_, _, .based hcow htidy hbase hends⟩
    · exact ⟨_, _, .baseless hcow hbase⟩

theorem spec_recover (h : attempt.Outcome blake3 s logical bytes) :
    Spec (recoverCowUnderLock attempt.session) s (fun t => attempt.Outcome blake3 t logical bytes)
      (fun _ t => attempt.Outcome blake3 t logical bytes ∧ Clean attempt.session t ∧
        ∀ place, isInitOf attempt.session place → t.dir place = none)
      (fun _ t => logical = none ∧ chunkContents attempt.session t = bytes) := by
  refine spec_mono (spec_recoverCowUnderLock attempt.session s) (fun t ht => h.pruned ht) ?_ ?_
  · rintro _ t ⟨hst, hclean, -, hinits⟩
    exact ⟨h.pruned hst, hclean, hinits⟩
  · rintro _ t ⟨hst, hnot⟩
    cases h with
    | baseless hcow => exact ⟨rfl, chunkContents_eq_none (hst.cow_eq_none hcow)⟩
    | malformed htidy => exact absurd htidy hnot
    | based _ htidy => exact absurd htidy hnot
    | holding htidy => exact absurd htidy hnot

theorem cowLogicalSize_missing {session : Uuid} (hcs : validateChunkSize chunkSize = .ok ())
    (hcow : s.dir (.cow session) = none) :
    cowLogicalSize session chunkSize s = .error (.io .notFound) := by
  rw [cowLogicalSize, hcs, verifyDirectory, hcow]
  rfl

theorem validateChunkSize_eq_error {e : StorageError} (h : validateChunkSize chunkSize = .error e) :
    e = .stateConflict := by
  unfold validateChunkSize at h
  split at h
  · cases h
  · exact (Except.error.inj h).symm

theorem sumChunks_ne_notFound (chunkSize : ℕ) (chunks : List (ℕ × ℕ)) (index acc : ℕ) :
    sumChunks chunkSize index acc chunks ≠ .error (.io .notFound) := by
  induction chunks generalizing index acc with
  | nil => rintro ⟨⟩
  | cons chunk rest ih =>
    obtain ⟨_, size⟩ := chunk
    rw [sumChunks]
    split
    · rintro ⟨⟩
    · cases hadd : checkedAdd acc size with
      | none => rintro ⟨⟩
      | some total => exact ih (index + 1) total

/-- The session directory is not missing for `ensure_mount_cow` if it is there. -/
theorem cowLogicalSize_ne_notFound {session : Uuid} (chunkSize : ℕ)
    (hpresent : (s.dir (.cow session)).isSome) (hclean : Clean session s) :
    cowLogicalSize session chunkSize s ≠ .error (.io .notFound) := by
  obtain ⟨_, hd⟩ := Option.isSome_iff_exists.mp hpresent
  obtain ⟨_, hchunks⟩ := hclean.exists_mapM hd
  rw [cowLogicalSize]
  cases hcs : validateChunkSize chunkSize with
  | error =>
    obtain rfl := validateChunkSize_eq_error hcs
    rintro ⟨⟩
  | ok =>
    rw [ok_bind, verifyDirectory, hd, okOr_some, ok_bind, hchunks]
    exact sumChunks_ne_notFound _ _ _ _

variable (id : Uuid)

theorem spec_begin_baseless (hs : Fresh attempt.session s)
    (hcs : validateChunkSize attempt.chunkSize = .ok ()) (hbase : ¬attempt.Based blake3 s) :
    Spec (do
        let baseChunks ← Proc.check fun _ => attempt.storage.baseParts.mapM mountBaseChunk
        beginCowWrite blake3 attempt.session id attempt.chunkSize
          attempt.storage.basePayload baseChunks) s
      (fun t => attempt.Outcome blake3 t none fun _ => none)
      (fun _ _ => False)
      (fun _ t => chunkContents attempt.session t = fun _ => none) := by
  refine spec_checked (fun baseChunks hchunks => ?_) fun _ _ => chunkContents_eq_none hs.cow
  have hready : ¬BaseReady blake3 attempt.chunkSize attempt.storage.basePayload baseChunks
      s := fun h => hbase ⟨hcs, baseChunks, hchunks, h⟩
  refine spec_mono (spec_beginCowWrite hcs _ baseChunks hs) ?_ ?_ ?_
  · rintro t ⟨hpayloads, hstate⟩
    obtain ⟨hcow, -⟩ := hstate.resolve_right fun h => hready h.1
    exact .baseless hcow fun h => hbase (h.congr hpayloads.symm)
  · exact fun _ _ ht => hready ht.2.1
  · exact fun _ _ ht => chunkContents_eq_none ht.2.2

theorem spec_begin_based (hs : Fresh attempt.session s) (hbase : attempt.Based blake3 s)
    (hends : attempt.Ends (baseFile attempt.storage.basePayload attempt.chunkSize s) logical file) :
    Spec (do
        let baseChunks ← Proc.check fun _ => attempt.storage.baseParts.mapM mountBaseChunk
        beginCowWrite blake3 attempt.session id attempt.chunkSize
          attempt.storage.basePayload baseChunks) s
      (fun t => attempt.Outcome blake3 t logical (fileChunks attempt.chunkSize file))
      (fun _ t => Tidy attempt.session t ∧ Clean attempt.session t ∧
        ∃ half, attempt.Holds half t ∧ attempt.Ends half logical file)
      (fun _ _ => False) := by
  obtain ⟨hcs, baseChunks, hchunks, hready⟩ := hbase
  have hsize := hready.size_le
  apply spec_check_bind (f := fun _ => attempt.storage.baseParts.mapM mountBaseChunk) hchunks
  refine spec_mono (spec_beginCowWrite hcs _ baseChunks hs) ?_ ?_ ?_
  · rintro t ⟨hpayloads, ⟨hcow, htidy⟩ | ⟨-, htidy, hstands⟩⟩
    · refine .based hcow (htidy hready) ⟨hcs, baseChunks, hchunks, hpayloads.baseReady hready⟩ ?_
      rw [hpayloads.baseFile_eq]
      exact hends
    · exact .holding htidy ⟨hcs, hsize, hstands⟩ hends
  · rintro _ t ⟨-, -, hstands, hclean, htidy⟩
    exact ⟨htidy, hclean, _, ⟨hcs, hsize, hstands⟩, hends⟩
  · exact fun _ _ ht => ht.1 hready

theorem spec_ensureMountCow (h : attempt.Outcome blake3 s logical bytes) :
    Spec (ensureMountCow blake3 id attempt.storage attempt.chunkSize) s
      (fun t => attempt.Outcome blake3 t logical bytes)
      (fun _ t => Tidy attempt.session t ∧ Clean attempt.session t ∧ ∃ half file,
        attempt.Holds half t ∧ attempt.Ends half logical file ∧
        bytes = fileChunks attempt.chunkSize file)
      (fun _ t => logical = none ∧ chunkContents attempt.session t = bytes) := by
  refine spec_bind (spec_recover h) ?_
  rintro _ t ⟨ht, hclean, hinits⟩
  apply spec_look_bind
  cases ht with
  | malformed htidy hpresent hmalformed =>
    cases hsize : cowLogicalSize attempt.storage.writeSessionId attempt.chunkSize t with
    | ok size =>
      obtain ⟨hcs, hnumbered, hlimit⟩ := cowLogicalSize_ok hsize
      exact absurd hnumbered (hmalformed size hcs hlimit)
    | error =>
      have hne := cowLogicalSize_ne_notFound attempt.chunkSize hpresent hclean
      split
      · next heq => cases heq
      · next heq => exact absurd (hsize.trans heq) hne
      · exact spec_fail ⟨rfl, rfl⟩
  | holding htidy hholds hends =>
    have hsize : cowLogicalSize attempt.storage.writeSessionId attempt.chunkSize t = _ :=
      hholds.cowLogicalSize_eq hclean
    rw [hsize]
    exact spec_pure ⟨htidy, hclean, _, _, hholds, hends, rfl⟩
  | baseless hcow hbase =>
    cases hcs : validateChunkSize attempt.chunkSize with
    | error =>
      obtain rfl := validateChunkSize_eq_error hcs
      have hsize : cowLogicalSize attempt.storage.writeSessionId attempt.chunkSize t =
          .error .stateConflict := by
        rw [cowLogicalSize, hcs]
        rfl
      rw [hsize]
      exact spec_fail ⟨rfl, chunkContents_eq_none hcow⟩
    | ok =>
      have hsize : cowLogicalSize attempt.storage.writeSessionId attempt.chunkSize t =
          .error (.io .notFound) := cowLogicalSize_missing hcs hcow
      rw [hsize]
      exact spec_mono (spec_begin_baseless id ⟨hcow, hinits⟩ hcs hbase)
        (fun _ hu => hu) (fun _ _ hu => hu.elim) fun _ _ hu => ⟨rfl, hu⟩
  | based hcow htidy hbase hends =>
    have hsize : cowLogicalSize attempt.storage.writeSessionId attempt.chunkSize t =
        .error (.io .notFound) := cowLogicalSize_missing hbase.1 hcow
    rw [hsize]
    refine spec_mono (spec_begin_based id ⟨hcow, hinits⟩ hbase hends)
      (fun _ hu => hu) ?_ fun _ _ hu => hu.elim
    rintro _ u ⟨htidy', hclean', half, hholds, hends'⟩
    exact ⟨htidy', hclean', half, _, hholds, hends', rfl⟩

/-- One attempt: it reaches the outcome, and so does every state on the way. -/
theorem spec_mutateMountRange (h : attempt.Outcome blake3 s logical bytes) :
    Spec (mutateMountRange blake3 id attempt) s (fun t => attempt.Outcome blake3 t logical bytes)
      (fun result t => logical = some result.logicalSize ∧ chunkContents attempt.session t = bytes)
      (fun _ t => logical = none ∧ chunkContents attempt.session t = bytes) := by
  refine spec_bind (spec_recover h) ?_
  rintro _ t ⟨ht, -, -⟩
  refine spec_bind (spec_ensureMountCow id ht) ?_
  rintro _ u ⟨htidy, hclean, half, file, hholds, hends, rfl⟩
  refine spec_mono (spec_mutatePlanned hholds hclean hends) ?_ (fun _ _ hv => hv) fun _ _ hv => hv
  rintro v ⟨hconfined, half', hholds', hends'⟩
  refine .holding ⟨fun place hplace x hx => ?_, hholds'.stands.named⟩ hholds' hends'
  have hne : place ≠ .cow attempt.session := by
    rintro rfl
    cases hplace
  rw [hconfined.lookup_eq place x hne] at hx
  exact htidy.init place hplace x hx

theorem spec_mutateMountRange_untidy (hs : ¬Tidy attempt.session s) :
    Spec (mutateMountRange blake3 id attempt) s (Pruned attempt.session s)
      (fun _ _ => False) (fun _ => Pruned attempt.session s) := by
  exact spec_bind
    (spec_mono (spec_recoverCowUnderLock attempt.session s) (fun _ ht => ht)
      (fun _ _ ht => hs ht.2.2.1) fun _ _ ht => ht.1) fun _ _ hfalse => hfalse.elim

/-! ## Chains of attempts -/

/-- The states that attempts leave which were stopped after any of their calls. -/
inductive RangeAttempt.Stopped (blake3 : List UInt8 → Digest) (attempt : RangeAttempt)
    (s : Disk b) : Disk b → Prop
  | start : attempt.Stopped blake3 s s
  | again {t u : Disk b} (id : Uuid) (h : attempt.Stopped blake3 s t)
      (hu : u ∈ (mutateMountRange blake3 id attempt t).passed) :
      attempt.Stopped blake3 s u

theorem RangeAttempt.Stopped.outcome (h : attempt.Stopped blake3 s t)
    (hs : attempt.Outcome blake3 s logical bytes) : attempt.Outcome blake3 t logical bytes := by
  induction h with
  | start => exact hs
  | again id _ hu ih => exact (spec_mutateMountRange id ih).passed _ hu

theorem RangeAttempt.Stopped.untidy (h : attempt.Stopped blake3 s t)
    (hs : ¬Tidy attempt.session s) : Pruned attempt.session s t ∧ ¬Tidy attempt.session t := by
  induction h with
  | start => exact ⟨Pruned.refl _ s, hs⟩
  | again id _ hu ih =>
    have hpruned := (spec_mutateMountRange_untidy id ih.2).passed _ hu
    exact ⟨ih.1.trans hpruned, fun htidy => ih.2 (hpruned.tidy_of htidy)⟩

def returnedSize (result : Except StorageError CowWriteResult) : Option ℕ :=
  result.toOption.map CowWriteResult.logicalSize

theorem RangeAttempt.Outcome.reached (h : attempt.Outcome blake3 s logical bytes) (id : Uuid) :
    returnedSize (mutateMountRange blake3 id attempt s).result = logical ∧
      chunkContents attempt.session (mutateMountRange blake3 id attempt s).final = bytes := by
  have hspec := spec_mutateMountRange id h
  cases hresult : (mutateMountRange blake3 id attempt s).result with
  | ok result =>
    obtain ⟨hlogical, hbytes⟩ := hspec.ok result hresult
    exact ⟨hlogical.symm, hbytes⟩
  | error e =>
    obtain ⟨hlogical, hbytes⟩ := hspec.error e hresult
    exact ⟨hlogical.symm, hbytes⟩

theorem attempt_untidy (blake3 : List UInt8 → Digest) (id : Uuid) (h : ¬Tidy attempt.session s) :
    returnedSize (mutateMountRange blake3 id attempt s).result = none ∧
      chunkContents attempt.session (mutateMountRange blake3 id attempt s).final =
        chunkContents attempt.session s := by
  have hspec : Spec (mutateMountRange blake3 id attempt) s _ _ _ :=
    spec_mutateMountRange_untidy id h
  cases hresult : (mutateMountRange blake3 id attempt s).result with
  | ok result => exact (hspec.ok result hresult).elim
  | error e => exact ⟨rfl, (hspec.error e hresult).chunkContents_eq⟩

theorem recover_keeps_chunks (session : Uuid)
    (hu : u = (recoverCowUnderLock session s).final ∨ u ∈ (recoverCowUnderLock session s).passed)
    (n : ℕ) : u.file (.cow session) (.part n) = s.file (.cow session) (.part n) := by
  have hspec := spec_recoverCowUnderLock session s
  rcases hu with rfl | hpassed
  · cases hresult : (recoverCowUnderLock session s).result with
    | ok => exact (hspec.ok _ hresult).1.file_eq n
    | error e => exact (hspec.error e hresult).1.file_eq n
  · exact (hspec.passed u hpassed).file_eq n

/-- Recovery of a state with an outcome leaves no file that was being written. -/
theorem RangeAttempt.Outcome.no_writing (h : attempt.Outcome blake3 s logical bytes)
    (n : ℕ) (operation : Uuid) :
    (recoverCowUnderLock attempt.session s).final.lookup (.cow attempt.session)
      (.writing n operation) = none := by
  have hspec := spec_recoverCowUnderLock attempt.session s
  cases hresult : (recoverCowUnderLock attempt.session s).result with
  | ok => exact (hspec.ok _ hresult).2.1.lookup_writing n operation
  | error e =>
    obtain ⟨hpruned, hnot⟩ := hspec.error e hresult
    cases h with
    | baseless hcow => exact lookup_of_dir_none (hpruned.cow_eq_none hcow) _
    | malformed htidy => exact absurd htidy hnot
    | based _ htidy => exact absurd htidy hnot
    | holding htidy => exact absurd htidy hnot

/-- Attempts may stop any number of times, after any of their calls.  The attempt that
runs to its end returns the size and leaves the chunk bytes of one that was never
stopped.  Recovery of the state that the stops left keeps every chunk and removes every
file that was being written. -/
theorem stopped_attempt_repeats (blake3 : List UInt8 → Digest) (attempt : RangeAttempt)
    {s t : Disk b} (hstopped : attempt.Stopped blake3 s t) (id id' : Uuid) :
    (returnedSize (mutateMountRange blake3 id attempt t).result =
        returnedSize (mutateMountRange blake3 id' attempt s).result ∧
      chunkContents attempt.session (mutateMountRange blake3 id attempt t).final =
        chunkContents attempt.session (mutateMountRange blake3 id' attempt s).final) ∧
    (∀ u, u = (recoverCowUnderLock attempt.session t).final ∨
        u ∈ (recoverCowUnderLock attempt.session t).passed →
      ∀ n, u.file (.cow attempt.session) (.part n) =
        t.file (.cow attempt.session) (.part n)) ∧
    ((recoverCowUnderLock attempt.session s).result = .ok () → ∀ n operation,
      (recoverCowUnderLock attempt.session t).final.lookup (.cow attempt.session)
        (.writing n operation) = none) := by
  refine ⟨?_, fun u hu n => recover_keeps_chunks _ hu n, fun hrecovers n operation => ?_⟩
  · by_cases htidy : Tidy attempt.session s
    · obtain ⟨logical, bytes, hs⟩ := attempt.exists_outcome blake3 htidy
      obtain ⟨hsize, hbytes⟩ := (hstopped.outcome hs).reached id
      obtain ⟨hsize', hbytes'⟩ := hs.reached id'
      exact ⟨hsize.trans hsize'.symm, hbytes.trans hbytes'.symm⟩
    · obtain ⟨hpruned, ht⟩ := hstopped.untidy htidy
      obtain ⟨hsize, hbytes⟩ := attempt_untidy blake3 id ht
      obtain ⟨hsize', hbytes'⟩ := attempt_untidy blake3 id' htidy
      refine ⟨hsize.trans hsize'.symm, ?_⟩
      rw [hbytes, hbytes', hpruned.chunkContents_eq]
  · have htidy := ((spec_recoverCowUnderLock attempt.session s).ok _ hrecovers).2.2.1
    obtain ⟨_, _, hs⟩ := attempt.exists_outcome blake3 htidy
    exact (hstopped.outcome hs).no_writing n operation

/-- On every disk an attempt returns the size and leaves the bytes that the flat file
prescribes, unless recovery meets a name that it does not know. -/
theorem attempt_refines_flat_file (blake3 : List UInt8 → Digest) (attempt : RangeAttempt)
    (id : Uuid) (s : Disk b) : let attempted := mutateMountRange blake3 id attempt s
    attempt.Outcome blake3 s (returnedSize attempted.result)
        (chunkContents attempt.session attempted.final) ∨
      ¬Tidy attempt.session s ∧ returnedSize attempted.result = none ∧
        chunkContents attempt.session attempted.final = chunkContents attempt.session s := by
  by_cases htidy : Tidy attempt.session s
  · obtain ⟨_, _, hs⟩ := attempt.exists_outcome blake3 htidy
    obtain ⟨rfl, rfl⟩ := hs.reached id
    exact .inl hs
  · exact .inr ⟨htidy, attempt_untidy blake3 id htidy⟩

/-- Recovery succeeds exactly on known names, and keeps payloads and chunks.  Then the
logical size is that of the file whose chunks are there, if they are those of a file. -/
theorem recovery_then_size (session : Uuid) (s : Disk b) :
    let recovered := recoverCowUnderLock session s
    let t := recovered.final
    (recovered.result = .ok () ↔ Tidy session s) ∧ SamePayloads s t ∧
      (∀ n, t.file (.cow session) (.part n) = s.file (.cow session) (.part n)) ∧
      (Tidy session s → (∀ place, isInitOf session place → t.dir place = none) ∧
        ((t.dir (.cow session)).isSome → ∀ chunkSize size,
          cowLogicalSize session chunkSize t = .ok size ↔ validateChunkSize chunkSize = .ok () ∧
            Numbered (.cow session) chunkSize size t ∧ size ≤ maxChunkCount * chunkSize)) := by
  have hspec := spec_recoverCowUnderLock session s
  intro recovered t
  cases hresult : recovered.result with
  | ok =>
    obtain ⟨hst, hclean, htidy, hinits⟩ := hspec.ok _ hresult
    refine ⟨iff_of_true rfl htidy, hst.confined.samePayloads, hst.file_eq, fun _ =>
      ⟨hinits, fun hpresent chunkSize size => ⟨cowLogicalSize_ok, ?_⟩⟩⟩
    rintro ⟨hcs, hnumbered, hsize⟩
    exact cowLogicalSize_eq hcs hpresent hclean hnumbered (hsize.trans_lt (limit_lt hcs))
  | error e =>
    obtain ⟨hst, hnot⟩ := hspec.error e hresult
    exact ⟨iff_of_false (by rintro ⟨⟩) hnot, hst.confined.samePayloads, hst.file_eq,
      fun htidy => absurd htidy hnot⟩

end

/-- A write of one byte to a session on a payload of three bytes. -/
def oneByteAttempt : RangeAttempt where
  storage := {
    writeSessionId := 1
    baseVersionId := some 5
    logicalSizeBytes := 3
    reservedBytes := 3
    state := .opened
    stagingPayload := storedPayload 8 .chunked 0 zeroDigest
    basePayload := some (storedPayload 7 .whole 3 zeroDigest)
    baseParts := []
    plannedChunks := [] }
  operationId := 3
  chunkSize := 65536
  operation := .writeData
  start := 1
  length := 1
  expectedLogicalSize := 3
  bytes := [9]
  bytes_length _ := rfl

/-- What the attempt leaves when it is stopped after its fourth call. -/
def stoppedDisk : Disk 4096 :=
  (mutateMountRange (fun _ => zeroDigest) 2 oneByteAttempt
    (storedDisk 7 [1, 2, 3])).passed.getD 3 (storedDisk 7 [1, 2, 3])

/-- The attempt is stopped with a file that is being written. -/
theorem one_byte_attempt_repeats :
    (stoppedDisk.lookup (.cow 1) (.writing 0 3)).isSome ∧
      chunkContents 1 (mutateMountRange (fun _ => zeroDigest) 4 oneByteAttempt
        stoppedDisk).final =
      chunkContents 1 (mutateMountRange (fun _ => zeroDigest) 2 oneByteAttempt
        (storedDisk 7 [1, 2, 3])).final := by
  have hlength : 3 < (mutateMountRange (fun _ => zeroDigest) 2 oneByteAttempt
      (storedDisk 7 [1, 2, 3])).passed.length := by
    decide +kernel
  have hstopped : oneByteAttempt.Stopped (fun _ => zeroDigest) (storedDisk 7 [1, 2, 3])
      stoppedDisk := by
    refine .again 2 .start ?_
    rw [stoppedDisk, List.getD_eq_getElem?_getD, List.getElem?_eq_getElem hlength]
    exact List.getElem_mem hlength
  exact ⟨by decide +kernel,
    (stopped_attempt_repeats (fun _ => zeroDigest) oneByteAttempt hstopped 4 2).1.2⟩

end FileBelt.Cow
