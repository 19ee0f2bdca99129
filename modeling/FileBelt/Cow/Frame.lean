import FileBelt.Cow.Session

/-!
# Copy-on-write leaves the base as it is

Chunks of a session can be hard links to files of the base payload.  A chunk is only
ever changed in a new inode, and only the names of the session are relinked, in every
state that an operation passes through.
-/

namespace FileBelt.Cow

open Support Support.Proc Support.FileSystem Write

/-! ## Calls -/

variable {payload deleted : PayloadRecord} {place destination from' : Place} {α : Type}

section

variable {b i : ℕ} {E : Place → EntryName → Prop} {base s t : Disk b} {place : Place}
  {name target source : EntryName}

theorem keeps_confined {f : Disk b → Except FsError (α × Disk b)}
    (h : ∀ s a t, f s = .ok (a, t) → Confined E s t) : Keeps (Confined E base) (fsCall f) := by
  apply keeps_call
  intro s a t hs ht
  exact hs.trans (h s a t (mapError_eq_ok ht))

theorem ne_of_not {x y : EntryName} (hx : E place x) (hy : ¬E place y) : y ≠ x :=
  fun heq => hy (heq ▸ hx)

theorem keeps_unlink (hname : E place name) :
    Keeps (Confined E base) (fsCall (FileSystem.unlink place name)) := by
  apply keeps_confined
  intro s _ t ht
  apply (unlink_ok ht).confined hname
  intro y hy
  exact if_neg (ne_of_not hname hy)

theorem keeps_rename (hname : E place name) (htarget : E place target) :
    Keeps (Confined E base) (fsCall (FileSystem.rename place name target)) := by
  apply keeps_confined
  intro s _ t ht
  obtain ⟨_, -, hlinks⟩ := rename_ok ht
  apply hlinks.confined hname
  intro y hy
  rw [if_neg (ne_of_not htarget hy), if_neg (ne_of_not hname hy)]

theorem keeps_hardLink (hname : E place name) :
    Keeps (Confined E base) (fsCall (FileSystem.hardLink from' source place name)) := by
  apply keeps_confined
  intro s _ t ht
  obtain ⟨_, -, hlinks⟩ := hardLink_ok ht
  apply hlinks.confined hname
  intro y hy
  exact if_neg (ne_of_not hname hy)

instance : Nonempty EntryName := ⟨.part 0⟩

theorem update_eq_or (dir : Place → Option (Directory EntryName)) (d : Option (Directory EntryName))
    (hplace : ∀ x, E place x) (p : Place) : Function.update dir place d p = dir p ∨ ∀ x, E p x := by
  by_cases hp : p = place
  · exact .inr (hp ▸ hplace)
  · exact .inl (Function.update_of_ne hp _ _)

theorem keeps_mkdir (hplace : ∀ x, E place x) :
    Keeps (Confined E base) (fsCall (FileSystem.mkdir place)) := by
  apply keeps_confined
  intro s _ t ht
  exact (mkdir_ok ht).confined (update_eq_or _ _ hplace)

theorem keeps_rmdir (hplace : ∀ x, E place x) :
    Keeps (Confined E base) (fsCall (FileSystem.rmdir place)) := by
  apply keeps_confined
  intro s _ t ht
  exact (rmdir_ok ht).confined (update_eq_or _ _ hplace)

theorem confined_renameDir {target : Place} {u : Unit} (hplace : ∀ x, E place x)
    (htarget : ∀ x, E target x) (ht : FileSystem.renameDir place target s = .ok (u, t)) :
    Confined E s t := by
  obtain ⟨d, -, -, hdirs⟩ := renameDir_ok ht
  apply hdirs.confined
  intro p
  rcases update_eq_or (Function.update s.dir target (some d)) none hplace p with hsame | hall
  · rw [hsame]
    exact update_eq_or _ _ htarget p
  · exact .inr hall

theorem fsCall_eq {f : Disk b → Except FsError (α × Disk b)} {r : α} (h : f s = .ok (r, t)) :
    (f s).mapError StorageError.io = .ok (r, t) := by
  rw [h]
  rfl

theorem spec_createNew (hname : E place name) (hs : Confined E base s) :
    Spec (fsCall (FileSystem.createNew place name)) s (Confined E base)
      (fun i t => Confined E base t ∧ base.next ≤ i) (fun _ => Confined E base) := by
  refine spec_call (fun i t ht => ?_) fun _ _ => hs
  obtain ⟨rfl, hlinks⟩ := createNew_ok (mapError_eq_ok ht)
  have hnew : Confined E s t := by
    refine Confined.trans confined_allocateInode (hlinks.confined hname fun y hy => ?_)
    exact if_neg (ne_of_not hname hy)
  exact ⟨hs.trans hnew, hs.trans hnew, hs.next_le⟩

theorem keeps_editFile (hi : base.next ≤ i) (edit : FileEdit) :
    Keeps (Confined E base) (editFile i edit) := by
  intro s hs
  refine spec_gradual (fun t ht => ?_) (hs.edit hi _) (hs.edit hi _)
  obtain ⟨_, -, rfl⟩ := List.mem_map.mp ht
  exact hs.edit hi _

end

/-! ## Operations -/

section

variable {b : ℕ} {E : Place → EntryName → Prop} {base : Disk b}

theorem keeps_removeDirectory (parse : EntryName → Except StorageError ℕ)
    (hplace : ∀ x, E place x) :
    Keeps (Confined E base) (removeDirectory parse place) := by
  apply keeps_checked
  intro found
  cases found with
  | none => exact keeps_pure _
  | some =>
    apply keeps_bind
    · apply keeps_forEach
      intro link _
      exact keeps_checked fun _ => keeps_unlink (hplace _)
    · intro _
      exact keeps_rmdir hplace

variable (hcow : ∀ session x, E (.cow session) x)
  (hinit : ∀ session id x, E (.init session id) x) (session operation : Uuid)
  (chunkSize current offset length : ℕ) (bytes : List UInt8)

section

include hcow

theorem keeps_replaceChunk (number : ℕ) (mutate : List FileEdit) :
    Keeps (Confined E base) (replaceChunk session operation number mutate) := by
  apply keeps_bind (keeps_require _ _)
  intro _
  apply keeps_checked
  intro _
  apply keeps_checked
  intro destination s hs
  refine spec_bind (spec_createNew (hcow session _) hs) ?_
  -- from here on the temporary file is known to be new
  rintro temporary t ⟨ht, hnew⟩
  refine keeps_bind (keeps_forEach fun edit _ => keeps_editFile hnew edit) (fun _ => ?_) t ht
  apply keeps_bind (keeps_forEach fun edit _ => keeps_editFile hnew edit)
  intro _
  exact keeps_rename (hcow session _) (hcow session _)

theorem keeps_writeCowRange :
    Keeps (Confined E base) (writeCowRange session operation chunkSize offset bytes) := by
  induction offset, bytes using writeCowRange.induct chunkSize with
  | case1 _ _ h _ _ ih =>
    rw [writeCowRange, dif_pos h]
    exact keeps_bind (keeps_replaceChunk hcow _ _ _ _) fun _ => ih
  | case2 offset bytes h =>
    rw [writeCowRange, dif_neg h]
    exact keeps_pure _

theorem keeps_extendCowWithHoles :
    Keeps (Confined E base) (extendCowWithHoles session operation chunkSize offset length) := by
  induction offset, length using extendCowWithHoles.induct chunkSize with
  | case1 _ _ h _ _ ih =>
    rw [extendCowWithHoles, dif_pos h]
    exact keeps_bind (keeps_replaceChunk hcow _ _ _ _) fun _ => ih
  | case2 offset length h =>
    rw [extendCowWithHoles, dif_neg h]
    exact keeps_pure _

theorem keeps_forEachCowRange (edits : ℕ → ℕ → List FileEdit) :
    Keeps (Confined E base) (forEachCowRange session operation chunkSize edits offset length) := by
  induction offset, length using forEachCowRange.induct chunkSize with
  | case1 _ _ h _ _ ih =>
    rw [forEachCowRange, dif_pos h]
    exact keeps_bind (keeps_replaceChunk hcow _ _ _ _) fun _ => ih
  | case2 offset length h =>
    rw [forEachCowRange, dif_neg h]
    exact keeps_pure _

theorem keeps_writeCowAt :
    Keeps (Confined E base) (writeCowAt session operation chunkSize current offset bytes) := by
  apply keeps_checked
  intro _
  apply keeps_checked
  intro _
  apply keeps_bind (keeps_onlyIf fun _ => keeps_extendCowWithHoles hcow _ _ _ _ _)
  intro _
  exact keeps_map (keeps_writeCowRange hcow _ _ _ _ _)

theorem keeps_allocateCowRange : Keeps (Confined E base)
      (allocateCowRange session operation chunkSize current offset length) := by
  apply keeps_checked
  intro _
  apply keeps_checked
  intro _
  apply keeps_bind (keeps_onlyIf fun _ => keeps_extendCowWithHoles hcow _ _ _ _ _)
  intro _
  exact keeps_map (keeps_forEachCowRange hcow _ _ _ _ _ _)

theorem keeps_deallocateCowRange : Keeps (Confined E base)
      (deallocateCowRange session operation chunkSize current offset length) := by
  apply keeps_checked
  intro _
  apply keeps_checked
  intro _
  exact keeps_bind (keeps_onlyIf fun _ => keeps_forEachCowRange hcow _ _ _ _ _ _)
    fun _ => keeps_pure _

theorem keeps_truncateCow (size : ℕ) :
    Keeps (Confined E base) (truncateCow session operation chunkSize current size) := by
  apply keeps_checked
  intro _
  apply keeps_bind (keeps_onlyIf fun _ => keeps_extendCowWithHoles hcow _ _ _ _ _)
  intro _
  refine keeps_map (keeps_onlyIf fun _ => ?_)
  apply keeps_checked
  intro directory
  apply keeps_bind
  · apply keeps_forEach
    intro link _
    exact keeps_checked fun _ =>
      keeps_onlyIf fun _ => keeps_unlink (hcow session _)
  · intro _
    exact keeps_onlyIf fun _ => keeps_replaceChunk hcow _ _ _ _

end

include hinit in
theorem of_isInitOf {session : Uuid} (h : isInitOf session place) (x : EntryName) : E place x := by
  cases place with
  | init owner id => exact hinit owner id x
  | cow => cases h
  | chunks => cases h
  | whole => cases h

include hcow hinit in
theorem keeps_recoverCowUnderLock : Keeps (Confined E base) (recoverCowUnderLock session) := by
  apply keeps_look_bind
  intro s _
  apply keeps_bind
  · apply keeps_forEach
    intro place hplace
    -- only initialization directories are listed
    obtain ⟨-, hkind⟩ := List.mem_filter.mp hplace
    exact keeps_removeDirectory _ (of_isInitOf hinit (Bool.and_eq_true_iff.mp hkind).1)
  · intro _
    apply keeps_checked
    intro found
    cases found with
    | none => exact keeps_pure _
    | some =>
      apply keeps_forEach
      intro link _
      unfold recoverEntry
      split
      · exact keeps_pure _
      · exact keeps_checked fun _ => keeps_unlink (hcow session _)

include hcow hinit in
theorem keeps_abortCow : Keeps (Confined E base) (abortCow session) :=
  keeps_bind (keeps_recoverCowUnderLock hcow hinit session) fun _ =>
    keeps_removeDirectory _ (hcow session)

theorem keeps_splitWholePayload (locator : Uuid) (hdestination : ∀ x, E destination x)
    (chunkSize : ℕ) :
    Keeps (Confined E base) (splitWholePayload locator destination chunkSize) := by
  apply keeps_checked
  intro source
  split
  · exact keeps_pure _
  · split
    · exact keeps_hardLink (hdestination _)
    · apply keeps_forEach
      intro number _ s hs
      refine spec_bind (spec_createNew (hdestination _) hs) ?_
      rintro chunk t ⟨ht, hnew⟩
      exact keeps_forEach (fun edit _ => keeps_editFile hnew edit) t ht

theorem keeps_initializeCow (blake3 : List UInt8 → Digest) (hdestination : ∀ x, E destination x)
    (chunkSize : ℕ) (basePayload : Option PayloadRecord) (baseChunks : List CowBaseChunk) :
    Keeps (Confined E base)
      (initializeCow blake3 destination chunkSize basePayload baseChunks) := by
  cases basePayload with
  | none => exact keeps_require _ _
  | some =>
    apply keeps_checked
    intro logicalSize
    apply keeps_checked
    intro digest
    apply keeps_bind
    · unfold fillCow
      split
      · exact keeps_checked fun _ =>
          keeps_splitWholePayload _ hdestination _
      · apply keeps_checked
        intro _
        apply keeps_checked
        intro _
        apply keeps_forEach
        intro chunk _
        exact keeps_checked fun _ =>
          keeps_hardLink (hdestination _)
    · intro _
      apply keeps_checked
      intro _
      exact keeps_checked fun _ => keeps_require _ _

include hcow hinit in
theorem keeps_beginCowWrite (blake3 : List UInt8 → Digest) (session id : Uuid) (chunkSize : ℕ)
    (basePayload : Option PayloadRecord) (baseChunks : List CowBaseChunk) : Keeps (Confined E base)
      (beginCowWrite blake3 session id chunkSize basePayload baseChunks) := by
  apply keeps_checked
  intro _
  apply keeps_bind (keeps_recoverCowUnderLock hcow hinit session)
  intro _
  apply keeps_checked
  intro _
  apply keeps_bind (keeps_require _ _)
  intro _
  apply keeps_bind
  · exact keeps_checked fun _ =>
      keeps_onlyIf fun _ => keeps_mkdir (hinit session id)
  intro _
  apply keeps_bind
  · apply keeps_onError (keeps_initializeCow blake3 (hinit session id) _ _ _)
    intro _
    exact keeps_bind (keeps_removeDirectory _ (hinit session id)) fun _ =>
      keeps_fail _
  · intro _
    apply keeps_confined
    intro s _ t ht
    exact confined_renameDir (hinit session id) (hcow session) ht

include hcow in
/-- Publication only takes a path that is free. -/
theorem keeps_publishCow (blake3 : List UInt8 → Digest) (session : Uuid)
    (payload : PayloadRecord) (chunkSize : ℕ) (expected : CowManifest)
    (hfree : ∀ s, Confined E base s → s.dir (.chunks payload.locator) = none →
      ∀ x, E (.chunks payload.locator) x) : Keeps (Confined E base)
      (publishCow blake3 session payload chunkSize expected) := by
  apply keeps_bind (keeps_require _ _)
  intro _
  apply keeps_checked
  intro source
  apply keeps_checked
  intro destination
  split
  · apply keeps_checked
    intro manifest
    apply keeps_checked
    intro _
    refine keeps_map (keeps_call ?_)
    intro s _ t hs ht
    have hrename := mapError_eq_ok ht
    obtain ⟨_, -, hnone, -⟩ := renameDir_ok hrename
    exact hs.trans (confined_renameDir (hcow session) (hfree s hs hnone) hrename)
  · apply keeps_checked
    intro manifest
    exact keeps_map (keeps_check _)
  · exact keeps_fail _

theorem keeps_deletePayload (payload : PayloadRecord)
    (hwhole : payload.layout = .whole → E .whole (.object payload.locator))
    (hchunks : payload.layout = .chunked → ∀ x, E (.chunks payload.locator) x) :
    Keeps (Confined E base) (deletePayload payload) := by
  unfold deletePayload
  split
  · next hlayout =>
    exact keeps_checked fun _ =>
      keeps_onlyIf fun _ => keeps_unlink (hwhole hlayout)
  · next hlayout => exact keeps_removeDirectory _ (hchunks hlayout)

end

/-! ## Sequences of operations -/

/-- The last two are what `begin_cow_write` runs after an I/O error. -/
inductive CowCall
  | beginWrite (session id : Uuid) (chunkSize : ℕ) (basePayload : Option PayloadRecord)
      (baseChunks : List CowBaseChunk)
  | recover (session : Uuid)
  | writeAt (session operation : Uuid) (chunkSize current offset : ℕ) (bytes : List UInt8)
  | truncate (session operation : Uuid) (chunkSize current size : ℕ)
  | allocate (session operation : Uuid) (chunkSize current offset length : ℕ)
  | deallocate (session operation : Uuid) (chunkSize current offset length : ℕ)
  | manifest (session : Uuid) (payload : PayloadRecord) (chunkSize logicalSize : ℕ)
  | publish (session : Uuid) (payload : PayloadRecord) (chunkSize : ℕ) (expected : CowManifest)
  | abort (session : Uuid)
  | deleteStaging (session : Uuid) (payload : PayloadRecord)
  | removeFailed (session id : Uuid)
  | removeSplit (session id : Uuid) (numbers : List ℕ)

section

variable {b : ℕ} (blake3 : List UInt8 → Digest)

/-- Remove the chunk `number` of an initialization, if it is there. -/
def removeChunk (session id : Uuid) (number : ℕ) : Operation b Unit := do
  let file ← Proc.look fun disk => disk.lookup (.init session id) (.part number)
  Proc.onlyIf file.isSome (fsCall (FileSystem.unlink (.init session id) (.part number)))

def CowCall.procedure : CowCall → Operation b Unit
  | .beginWrite session id chunkSize basePayload baseChunks =>
    beginCowWrite blake3 session id chunkSize basePayload baseChunks
  | .recover session => recoverCowUnderLock session
  | .writeAt session operation chunkSize current offset bytes => do
      let _ ← writeCowAt session operation chunkSize current offset bytes
  | .truncate session operation chunkSize current size => do
      let _ ← truncateCow session operation chunkSize current size
  | .allocate session operation chunkSize current offset length => do
      let _ ← allocateCowRange session operation chunkSize current offset length
  | .deallocate session operation chunkSize current offset length => do
      let _ ← deallocateCowRange session operation chunkSize current offset length
  | .manifest session payload chunkSize logicalSize => do
      let _ ← Proc.check
        (cowStagingManifest blake3 session payload chunkSize logicalSize)
  | .publish session payload chunkSize expected => do
      let _ ← publishCow blake3 session payload chunkSize expected
  | .abort session => abortCow session
  | .deleteStaging session payload => deleteCowStaging session payload
  | .removeFailed session id => removeCowDirectory (.init session id)
  | .removeSplit session id numbers => Proc.forEach numbers (removeChunk session id)

/-- The names and inodes of a payload on a disk. -/
def payloadFile (payload : PayloadRecord) (name : EntryName) (disk : Disk b) :
    Option (SparseFile UInt8 b) :=
  match payload.layout with
  | .whole => disk.file .whole (.object payload.locator)
  | .chunked => disk.file (.chunks payload.locator) name

def SamePath (payload payload' : PayloadRecord) : Prop :=
  payload.layout = payload'.layout ∧ payload.locator = payload'.locator

instance (payload payload' : PayloadRecord) : Decidable (SamePath payload payload') :=
  inferInstanceAs (Decidable (_ ∧ _))

/-- The disk after operations that each end, or stop after some call. -/
def perform (disk : Disk b) (steps : List (CowCall × Option ℕ)) : Disk b :=
  steps.foldl (fun disk step => (step.1.procedure blake3).leaves step.2 disk) disk

variable {blake3} {E : Place → EntryName → Prop} {base disk s : Disk b}

/-- Nothing changes outside `E`, if `E` has the paths of the sessions, the free paths and
the paths of deleted payloads. -/
theorem keeps_procedure (hcow : ∀ session x, E (.cow session) x)
    (hinit : ∀ session id x, E (.init session id) x)
    (hfree : ∀ locator s, Confined E base s → s.dir (.chunks locator) = none →
      ∀ x, E (.chunks locator) x) {call : CowCall}
    (hdelete : ∀ session payload, call = .deleteStaging session payload →
      (payload.layout = .whole → E .whole (.object payload.locator)) ∧
        (payload.layout = .chunked → ∀ x, E (.chunks payload.locator) x)) :
    Keeps (Confined E base) (call.procedure blake3) := by
  cases call with
  | beginWrite =>
    exact keeps_beginCowWrite hcow hinit _ _ _ _ _ _
  | recover session => exact keeps_recoverCowUnderLock hcow hinit session
  | writeAt =>
    exact keeps_map (keeps_writeCowAt hcow _ _ _ _ _ _)
  | truncate =>
    exact keeps_map (keeps_truncateCow hcow _ _ _ _ _)
  | allocate =>
    exact keeps_map (keeps_allocateCowRange hcow _ _ _ _ _ _)
  | deallocate =>
    exact keeps_map (keeps_deallocateCowRange hcow _ _ _ _ _ _)
  | manifest =>
    exact keeps_map (keeps_check _)
  | publish session payload =>
    exact keeps_map (keeps_publishCow hcow _ _ _ _ _ (hfree payload.locator))
  | abort session => exact keeps_abortCow hcow hinit session
  | deleteStaging session payload =>
    obtain ⟨hwhole, hchunks⟩ := hdelete session payload rfl
    exact keeps_bind (keeps_abortCow hcow hinit session) fun _ =>
      keeps_deletePayload payload hwhole hchunks
  | removeFailed session id => exact keeps_removeDirectory _ (hinit session id)
  | removeSplit session id =>
    apply keeps_forEach
    intro number _
    exact keeps_checked fun _ =>
      keeps_onlyIf fun _ => keeps_unlink (hinit session id _)

theorem perform_invariant {I : Disk b → Prop} {steps : List (CowCall × Option ℕ)}
    (hsteps : ∀ step ∈ steps, Keeps I (step.1.procedure blake3)) (hdisk : I disk) :
    I (perform blake3 disk steps) := by
  induction steps generalizing disk with
  | nil => exact hdisk
  | cons step rest ih =>
    apply ih (fun later hlater => hsteps later (List.mem_cons_of_mem step hlater))
    exact (hsteps step List.mem_cons_self).leaves step.2 hdisk

def Outside (payload : PayloadRecord) (place : Place) (name : EntryName) : Prop :=
  match payload.layout with
  | .whole => ¬(place = .whole ∧ name = .object payload.locator)
  | .chunked => place ≠ .chunks payload.locator

theorem outside_of_place {payload : PayloadRecord} (x : EntryName) (hwhole : place ≠ .whole)
    (hchunks : place ≠ .chunks payload.locator) : Outside payload place x := by
  unfold Outside
  split
  · exact fun h => hwhole h.1
  · exact hchunks

/-- The path of a chunked payload that is there is not free. -/
theorem outside_of_free {name : EntryName} {file : SparseFile UInt8 b}
    (hfile : payloadFile payload name disk = some file) (hs : Confined (Outside payload) disk s)
    {locator : Uuid} (hnone : s.dir (.chunks locator) = none) (x : EntryName) :
    Outside payload (.chunks locator) x := by
  unfold Outside
  unfold payloadFile at hfile
  cases hlayout : payload.layout with
  | whole =>
    rintro ⟨hplace, -⟩
    cases hplace
  | chunked =>
    rw [hlayout] at hfile
    intro hplace
    rw [hplace] at hnone
    have hsame : s.dir (.chunks payload.locator) = disk.dir (.chunks payload.locator) := by
      apply hs.dir_eq
      intro y hy
      unfold Outside at hy
      rw [hlayout] at hy
      exact hy rfl
    obtain ⟨_, hi, -⟩ := Option.map_eq_some_iff.mp hfile
    obtain ⟨_, -, hd, -, -⟩ := lookup_eq_some.mp hi
    rw [hsame, hd] at hnone
    cases hnone

theorem outside_of_not_samePath (h : ¬SamePath deleted payload) :
    (deleted.layout = .whole → Outside payload .whole (.object deleted.locator)) ∧
      (deleted.layout = .chunked → ∀ x, Outside payload (.chunks deleted.locator) x) := by
  unfold Outside
  constructor
  · intro hdeleted
    split
    · next hlayout =>
      rintro ⟨-, hname⟩
      exact h ⟨hdeleted.trans hlayout.symm, EntryName.object.inj hname⟩
    · intro hplace
      cases hplace
  · intro hdeleted x
    split
    · rintro ⟨hplace, -⟩
      cases hplace
    · next hlayout =>
      intro hplace
      exact h ⟨hdeleted.trans hlayout.symm, Place.chunks.inj hplace⟩

theorem payloadFile_eq (hs : Confined (Outside payload) disk s) (name : EntryName) :
    payloadFile payload name s = payloadFile payload name disk := by
  unfold payloadFile
  split
  · next hlayout =>
    apply hs.file_eq
    unfold Outside
    rw [hlayout]
    exact fun houtside => houtside ⟨rfl, rfl⟩
  · next hlayout =>
    apply hs.file_eq
    unfold Outside
    rw [hlayout]
    exact fun houtside => houtside rfl

/-- After any operations on sessions, each run to its end or stopped after any of its
calls, every file that was on the disk has its bytes, and the names of a base
payload lead to them unless it is itself deleted as the staging payload. -/
theorem base_files_never_change (blake3 : List UInt8 → Digest) (disk : Disk b)
    (steps : List (CowCall × Option ℕ)) :
    (∀ i, i < disk.next → (perform blake3 disk steps).inode i = disk.inode i) ∧
      ∀ base : PayloadRecord,
        (∀ session payload stop, (CowCall.deleteStaging session payload, stop) ∈ steps →
          ¬SamePath payload base) →
        ∀ name file, payloadFile base name disk = some file →
          payloadFile base name (perform blake3 disk steps) = some file := by
  constructor
  · have hall : Confined (fun _ _ => True) disk (perform blake3 disk steps) := by
      apply perform_invariant _ (Confined.refl disk)
      intro step _
      exact keeps_procedure (fun _ _ => trivial) (fun _ _ _ => trivial)
        (fun _ _ _ _ _ => trivial) fun _ _ _ => ⟨fun _ => trivial, fun _ _ => trivial⟩
    exact hall.inode_eq
  · intro base hdelete name file hfile
    have hkept : Confined (Outside base) disk (perform blake3 disk steps) := by
      apply perform_invariant _ (Confined.refl disk)
      rintro ⟨_, stop⟩ hstep
      apply keeps_procedure (fun _ x => outside_of_place x nofun nofun)
        (fun _ _ x => outside_of_place x nofun nofun)
      · intro locator s hs hnone x
        exact outside_of_free hfile hs hnone x
      · rintro session payload rfl
        exact outside_of_not_samePath (hdelete session payload stop hstep)
    rw [payloadFile_eq hkept name]
    exact hfile

end

/-- A disk with one whole payload. -/
def storedDisk (locator : Uuid) (bytes : List UInt8) : Disk 4096 where
  inode _ := SparseFile.empty.write 0 bytes
  next := 1
  dir := Function.update (fun _ => none) .whole
    (some ⟨[⟨.object locator, 0⟩], List.nodup_singleton _⟩)
  created := [.whole]
  inode_lt p d l hd hl := by
    by_cases hp : p = .whole
    · rw [hp, Function.update_self] at hd
      obtain rfl := Option.some.inj hd
      rw [List.mem_singleton.mp hl]
      exact Nat.zero_lt_one
    · rw [Function.update_of_ne hp] at hd
      cases hd
  mem_created p d hd := by
    by_cases hp : p = .whole
    · exact List.mem_singleton.mpr hp
    · rw [Function.update_of_ne hp] at hd
      cases hd
  block_pos := by decide

def storedPayload (locator : Uuid) (layout : PayloadLayout) (size : ℤ) (digest : Digest) :
    PayloadRecord where
  payloadId := locator
  locator := locator
  layout := layout
  state := .referenced
  sizeBytes := size
  blake3 := some digest

def zeroDigest : Digest := Vector.replicate 32 0

/-- A session on three bytes: a write that stops after its fourth call, and the deletion. -/
theorem three_bytes_never_change :
    payloadFile (storedPayload 7 .whole 3 zeroDigest) (.part 0)
      (perform (fun _ => zeroDigest) (storedDisk 7 [1, 2, 3])
        [(.beginWrite 1 2 65536 (some (storedPayload 7 .whole 3 zeroDigest)) [], none),
          (.writeAt 1 3 65536 3 1 [9], some 3),
          (.deleteStaging 1 (storedPayload 8 .chunked 0 zeroDigest), none)]) =
      some (SparseFile.empty.write 0 [1, 2, 3]) := by
  apply (base_files_never_change _ _ _).2
  · intro session payload stop hmem
    rcases List.mem_cons.mp hmem with hfirst | hrest
    · cases hfirst
    · rcases List.mem_cons.mp hrest with hsecond | hthird
      · cases hsecond
      · obtain ⟨hcall, -⟩ := Prod.mk.inj (List.mem_singleton.mp hthird)
        obtain ⟨-, rfl⟩ := CowCall.deleteStaging.inj hcall
        rintro ⟨hlayout, -⟩
        cases hlayout
  · rfl

end FileBelt.Cow
