import FileBelt.Support.FileLock
import FileBelt.Support.Run
import Mathlib.Data.List.Perm.Basic

/-!
# The lock of a session

`lock_cow`, `remove_cow_lock` and the drop of a `CowLockGuard`, step by step, for any
number of clients of one session.  The lock file can be unlinked and created again
while clients wait for the old inode; so a client compares the inode it locked with
the path, under the lock of a coordinator file that is never unlinked.
-/

namespace FileBelt.Cow

open Support

/-- The two files: the coordinator of the directory and the lock of the session. -/
inductive LockName
  | coordinator | lock
  deriving DecidableEq, Repr

/-- Where `remove_current_inode` is. -/
inductive RemovePhase
  | openCoordinator
  | lockCoordinator (coordinator : ℕ)
  | inspect (coordinator : ℕ)
  | unlink (coordinator : ℕ)
  | dropLock (coordinator : ℕ)
  | dropCoordinator (coordinator : ℕ)
  deriving DecidableEq, Repr

/-- In the loop of `lock_cow`, with a guard, in `remove_current_inode` with a guard that is
being dropped or was passed to `remove_cow_lock`, or closing its locked files. -/
inductive LockPhase
  | idle | openCoordinator
  | lockCoordinator (coordinator : ℕ)
  | openLock (coordinator : ℕ)
  | dropCoordinator (coordinator lock : ℕ)
  | lockLock (lock : ℕ)
  | reopenCoordinator (lock : ℕ)
  | relockCoordinator (lock coordinator : ℕ)
  | compare (lock coordinator : ℕ)
  | compared (lock coordinator : ℕ) (currentMatches : Bool)
  | dropLock (lock : ℕ)
  | held (lock : ℕ) (removeOnDrop : Bool)
  | removing (lock : ℕ) (removeOnDrop dropping : Bool) (phase : RemovePhase)
  | closing (files : List ℕ)
  deriving DecidableEq, Repr

/-- The inodes whose locks a removal has besides that of the guard. -/
def RemovePhase.locked : RemovePhase → List ℕ
  | .openCoordinator | .lockCoordinator _ => []
  | .inspect coordinator | .unlink coordinator | .dropLock coordinator
  | .dropCoordinator coordinator => [coordinator]

/-- The inode that the guard of a removal still has. -/
def RemovePhase.keeps (lock : ℕ) : RemovePhase → List ℕ
  | .openCoordinator | .lockCoordinator _ | .inspect _ | .unlink _ | .dropLock _ => [lock]
  | .dropCoordinator _ => []

/-- The inodes that a client has locked, in the order in which they are closed. -/
def LockPhase.locked : LockPhase → List ℕ
  | .idle | .openCoordinator | .lockCoordinator _ | .lockLock _ => []
  | .openLock coordinator | .dropCoordinator coordinator _ => [coordinator]
  | .reopenCoordinator lock | .relockCoordinator lock _ | .dropLock lock
  | .held lock _ => [lock]
  | .compare lock coordinator | .compared lock coordinator _ => [coordinator, lock]
  | .removing lock _ _ phase => phase.locked ++ phase.keeps lock
  | .closing files => files

/-- What a client does next. -/
inductive LockAction
  /-- Call `lock_cow`. -/
  | begin
  /-- The next step of the code. -/
  | step
  /-- `arm_remove_on_drop` and `disarm_remove_on_drop`. -/
  | setRemoveOnDrop (removeOnDrop : Bool)
  /-- Drop the guard. -/
  | drop
  /-- `remove_cow_lock`. -/
  | remove
  /-- A call of `remove_current_inode` returns an I/O error. -/
  | failRemoval
  /-- `lock_cow` returns an I/O error, or the process ends: the open files are
  closed. -/
  | abandon (files : List ℕ)

structure LockState (κ : Type) where
  files : LockFiles LockName κ
  phase : κ → LockPhase

/-- A step that cannot be taken now. -/
inductive LockRefusal
  | waiting | notNow
  deriving DecidableEq, Repr

variable {c i j : ℕ}

section

variable {κ : Type} [DecidableEq κ] (s : LockState κ) (client : κ)

def LockState.set (files : LockFiles LockName κ) (phase : LockPhase) : LockState κ where
  files := files
  phase := Function.update s.phase client phase

def openCowLockFile (name : LockName) (next : ℕ → LockPhase) : Except LockRefusal (LockState κ) :=
  let (file, files) := s.files.openCreate name
  .ok (s.set client files (next file))

def flockExclusive (file : ℕ) (next : LockPhase) : Except LockRefusal (LockState κ) :=
  match s.files.lock client file with
  | some files => .ok (s.set client files next)
  | none => .error .waiting

def closeFile (file : ℕ) (next : LockPhase) : Except LockRefusal (LockState κ) :=
  .ok (s.set client (s.files.close client file) next)

/-- A guard that was passed to `remove_cow_lock` is dropped, one being dropped is closed. -/
def afterFailedRemoval (lock : ℕ) (removeOnDrop dropping : Bool) : LockPhase :=
  if removeOnDrop && !dropping then .removing lock removeOnDrop true .openCoordinator
  else .closing [lock]

/-- The next step of `remove_current_inode`. -/
def removeStep (lock : ℕ) (removeOnDrop dropping : Bool) :
    RemovePhase → Except LockRefusal (LockState κ)
  | .openCoordinator => openCowLockFile s client .coordinator fun coordinator =>
    .removing lock removeOnDrop dropping (.lockCoordinator coordinator)
  | .lockCoordinator coordinator => flockExclusive s client coordinator
      (.removing lock removeOnDrop dropping (.inspect coordinator))
  | .inspect coordinator =>
    match s.files.link .lock with
    | none => .ok (s.set client s.files
        (.removing lock removeOnDrop dropping (.dropLock coordinator)))
    | some current =>
      if current = lock then .ok (s.set client s.files
        (.removing lock removeOnDrop dropping (.unlink coordinator)))
      else closeFile s client coordinator (afterFailedRemoval lock removeOnDrop dropping)
  | .unlink coordinator => .ok (s.set client (s.files.unlink .lock)
      (.removing lock removeOnDrop dropping (.dropLock coordinator)))
  | .dropLock coordinator => closeFile s client lock
      (.removing lock removeOnDrop dropping (.dropCoordinator coordinator))
  | .dropCoordinator coordinator => closeFile s client coordinator .idle

def codeStep : Except LockRefusal (LockState κ) :=
  match s.phase client with
  | .idle | .held _ _ => .error .notNow
  | .openCoordinator => openCowLockFile s client .coordinator .lockCoordinator
  | .lockCoordinator coordinator =>
    flockExclusive s client coordinator (.openLock coordinator)
  | .openLock coordinator =>
    openCowLockFile s client .lock (.dropCoordinator coordinator)
  | .dropCoordinator coordinator lock => closeFile s client coordinator (.lockLock lock)
  | .lockLock lock => flockExclusive s client lock (.reopenCoordinator lock)
  | .reopenCoordinator lock =>
    openCowLockFile s client .coordinator (.relockCoordinator lock)
  | .relockCoordinator lock coordinator =>
    flockExclusive s client coordinator (.compare lock coordinator)
  | .compare lock coordinator => .ok (s.set client s.files
      (.compared lock coordinator (decide (s.files.link .lock = some lock))))
  | .compared lock coordinator currentMatches => closeFile s client coordinator
      (if currentMatches then .held lock false else .dropLock lock)
  | .dropLock lock => closeFile s client lock .openCoordinator
  | .removing lock removeOnDrop dropping phase =>
    removeStep s client lock removeOnDrop dropping phase
  | .closing [] => .ok (s.set client s.files .idle)
  | .closing (file :: rest) => closeFile s client file (.closing rest)

/-- An I/O error in `remove_current_inode`, before the lock is dropped. -/
def failRemoval (lock : ℕ) (removeOnDrop dropping : Bool) :
    RemovePhase → Except LockRefusal (LockState κ)
  | .openCoordinator | .lockCoordinator _ =>
    .ok (s.set client s.files (afterFailedRemoval lock removeOnDrop dropping))
  | .inspect coordinator | .unlink coordinator =>
    closeFile s client coordinator (afterFailedRemoval lock removeOnDrop dropping)
  | .dropLock _ | .dropCoordinator _ => .error .notNow

def lockStep (event : κ × LockAction) : Except LockRefusal (LockState κ) :=
  let client := event.1
  match event.2, s.phase client with
  | .begin, .idle => .ok (s.set client s.files .openCoordinator)
  | .step, _ => codeStep s client
  | .setRemoveOnDrop removeOnDrop, .held lock _ =>
    .ok (s.set client s.files (.held lock removeOnDrop))
  | .drop, .held lock true =>
    .ok (s.set client s.files (.removing lock true true .openCoordinator))
  | .drop, .held lock false => .ok (s.set client s.files (.closing [lock]))
  | .remove, .held lock removeOnDrop =>
    .ok (s.set client s.files (.removing lock removeOnDrop false .openCoordinator))
  | .failRemoval, .removing lock removeOnDrop dropping phase =>
    failRemoval s client lock removeOnDrop dropping phase
  | .abandon files, phase =>
    if files.Perm phase.locked then .ok (s.set client s.files (.closing files))
    else .error .notNow
  | _, _ => .error .notNow

/-- No client has started, whatever files are there. -/
def LockState.initial (files : LockFiles LockName κ) : LockState κ where
  files := { files with holder := fun _ => none }
  phase _ := .idle

end

/-! ## Invariants -/

def LockPhase.coordinators : LockPhase → List ℕ
  | .idle | .openCoordinator | .lockLock _ | .reopenCoordinator _ | .dropLock _
  | .held _ _ | .closing _ | .removing _ _ _ .openCoordinator => []
  | .lockCoordinator coordinator | .openLock coordinator | .dropCoordinator coordinator _
  | .relockCoordinator _ coordinator | .compare _ coordinator
  | .compared _ coordinator _ | .removing _ _ _ (.lockCoordinator coordinator)
  | .removing _ _ _ (.inspect coordinator) | .removing _ _ _ (.unlink coordinator)
  | .removing _ _ _ (.dropLock coordinator)
  | .removing _ _ _ (.dropCoordinator coordinator) => [coordinator]

/-- The inode that was found at the path and that no one else can unlink. -/
def LockPhase.verified : LockPhase → Option ℕ
  | .compared lock _ true | .held lock _ | .removing lock _ _ .openCoordinator
  | .removing lock _ _ (.lockCoordinator _) | .removing lock _ _ (.inspect _)
  | .removing lock _ _ (.unlink _) => some lock
  | _ => none

/-- The client has unlinked its lock file and not released it yet. -/
def LockPhase.unlinked : LockPhase → Option ℕ
  | .removing _ _ _ (.dropLock coordinator) => some coordinator
  | _ => none

variable {phase : LockPhase}

theorem LockPhase.mem_locked_of_verified (h : phase.verified = some i) : i ∈ phase.locked := by
  unfold verified at h
  split at h
  all_goals first
    | (obtain rfl := Option.some.inj h
       simp [locked, RemovePhase.locked, RemovePhase.keeps])
    | cases h

theorem LockPhase.mem_of_unlinked (h : phase.unlinked = some c) :
    c ∈ phase.locked ∧ c ∈ phase.coordinators := by
  unfold unlinked at h
  split at h
  · obtain rfl := Option.some.inj h
    exact ⟨List.mem_cons_self .., List.mem_cons_self ..⟩
  · cases h

theorem LockPhase.verified_of_unlinked (h : phase.unlinked = some c) : phase.verified = none := by
  unfold unlinked at h
  split at h
  · rfl
  · cases h

/-- A phase that needs nothing that the one before did not have. -/
structure LockPhase.Follows (old next : LockPhase) : Prop where
  coordinators : ∀ c ∈ next.coordinators, c ∈ old.coordinators
  verified : ∀ i, next.verified = some i → old.verified = some i
  unlinked : next.unlinked = none

/-- What holds after every step of every client. -/
structure LockInvariant {κ : Type} (s : LockState κ) : Prop where
  holds : ∀ client, ∀ i ∈ (s.phase client).locked, s.files.holder i = some client
  nodup : ∀ client, (s.phase client).locked.Nodup
  coordinator : ∀ client, ∀ c ∈ (s.phase client).coordinators, s.files.link .coordinator = some c
  verified : ∀ client i, (s.phase client).verified = some i → s.files.link .lock = some i
  alone : ∀ client other c, (s.phase client).unlinked = some c → (s.phase other).verified = none

section

variable {κ : Type} [DecidableEq κ] {s s' : LockState κ} {client other : κ}
  {files : LockFiles LockName κ} {phase old next : LockPhase} {lock file : ℕ}
  {removeOnDrop dropping : Bool}

omit [DecidableEq κ] in
theorem lockInvariant_initial (files : LockFiles LockName κ) :
    LockInvariant (LockState.initial files) where
  holds _ _ hi := absurd hi List.not_mem_nil
  nodup _ := List.nodup_nil
  coordinator _ _ hc := absurd hc List.not_mem_nil
  verified _ _ h := nomatch h
  alone _ _ _ h := nomatch h

/-- The locks of the new phase of a client are held, and those of the others still are. -/
structure HeldBy (s : LockState κ) (client : κ) (files : LockFiles LockName κ)
    (phase : LockPhase) : Prop where
  holder : ∀ other, other ≠ client → ∀ i, s.files.holder i = some other →
    files.holder i = some other
  holds : ∀ i ∈ phase.locked, files.holder i = some client
  nodup : phase.locked.Nodup
  coordinator : ∀ c ∈ phase.coordinators, files.link .coordinator = some c

variable (h : LockInvariant s)
include h

/-- What must hold of the new files and of the new phase of a client. -/
theorem LockInvariant.set
    (hlink : ∀ c, s.files.link .coordinator = some c → files.link .coordinator = some c)
    (hheld : HeldBy s client files phase)
    (hothers : ∀ other, other ≠ client → ∀ i, (s.phase other).verified = some i →
      files.link .lock = some i)
    (hverified : ∀ i, phase.verified = some i → files.link .lock = some i)
    (hunlinked : ∀ c, phase.unlinked = some c → ∀ other, other ≠ client →
      (s.phase other).verified = none)
    (halone : ∀ other c, other ≠ client → (s.phase other).unlinked = some c →
      phase.verified = none) : LockInvariant (s.set client files phase) := by
  -- each condition is checked for the new phase of the client and for the other clients
  constructor
  · exact (Function.forall_update_iff s.phase fun other phase =>
      ∀ i ∈ phase.locked, files.holder i = some other).mpr
        ⟨hheld.holds, fun other hne i hi => hheld.holder other hne i (h.holds other i hi)⟩
  · exact (Function.forall_update_iff s.phase fun _ phase => phase.locked.Nodup).mpr
      ⟨hheld.nodup, fun other _ => h.nodup other⟩
  · exact (Function.forall_update_iff s.phase fun _ phase =>
      ∀ c ∈ phase.coordinators, files.link .coordinator = some c).mpr
        ⟨hheld.coordinator, fun other _ c hc => hlink c (h.coordinator other c hc)⟩
  · exact (Function.forall_update_iff s.phase fun _ phase =>
      ∀ i, phase.verified = some i → files.link .lock = some i).mpr ⟨hverified, hothers⟩
  · have hall := (Function.forall_update_iff s.phase (a := client) (b := phase) fun _ phase =>
      phase.verified = none).mpr
    intro first other c
    refine (Function.forall_update_iff s.phase fun _ phase => phase.unlinked = some c →
      ((s.set client files _).phase other).verified = none).mpr ⟨fun hc => ?_, ?_⟩ first
    · exact hall ⟨LockPhase.verified_of_unlinked hc, hunlinked c hc⟩ other
    · exact fun first hne hc =>
        hall ⟨halone first c hne hc, fun other _ => h.alone first other c hc⟩ other

/-- A client moves on and the links stay; it has no inode verified that it had not
before. -/
theorem LockInvariant.move (hphase : s.phase client = old)
    (hlink : ∀ name i, s.files.link name = some i → files.link name = some i)
    (hheld : HeldBy s client files phase)
    (hverified : ∀ i, phase.verified = some i → old.verified = some i)
    (hunlinked : phase.unlinked = none) : LockInvariant (s.set client files phase) := by
  subst hphase
  refine h.set (hlink _) hheld (fun other _ i hi => hlink _ i (h.verified other i hi))
    (fun i hi => hlink _ i (h.verified client i (hverified i hi))) ?_ ?_
  · intro c hc
    rw [hunlinked] at hc
    cases hc
  · intro other c _ hc
    cases hv : phase.verified with
    | none => rfl
    | some i =>
      have hold := h.alone other client c hc
      rw [hverified i hv] at hold
      cases hold

theorem LockInvariant.stay (hphase : s.phase client = old)
    (hlocked : next.locked.Perm old.locked := by exact List.Perm.refl _)
    (hfollows : old.Follows next := by
      constructor <;> simp [LockPhase.coordinators, LockPhase.verified, LockPhase.unlinked]) :
    LockInvariant (s.set client s.files next) := by
  subst hphase
  exact h.move rfl (fun _ _ hi => hi) ⟨fun _ _ _ hi => hi,
    fun i hi => h.holds client i (hlocked.mem_iff.mp hi), hlocked.nodup_iff.mpr (h.nodup client),
    fun c hc => h.coordinator client c (hfollows.coordinators c hc)⟩ hfollows.verified
    hfollows.unlinked

theorem LockInvariant.openFile {name : LockName} {next : ℕ → LockPhase}
    (hphase : s.phase client = old) (hstep : openCowLockFile s client name next = .ok s')
    (hlocked : ∀ file, (next file).locked = old.locked := by intro _; rfl)
    (hcoordinator : ∀ file, ∀ c ∈ (next file).coordinators,
      c ∈ old.coordinators ∨ (name = .coordinator ∧ c = file) := by
        simp [LockPhase.coordinators])
    (hverified : ∀ file i, (next file).verified = some i → old.verified = some i := by
      simp [LockPhase.verified])
    (hunlinked : ∀ file, (next file).unlinked = none := by intro _; rfl) : LockInvariant s' := by
  have hstate : s.set client (s.files.openCreate name).2
      (next (s.files.openCreate name).1) = s' := Except.ok.inj hstep
  rw [← hstate]
  subst hphase
  refine h.move rfl (fun x i hi => LockFiles.link_openCreate name hi) ⟨?_, ?_, ?_, ?_⟩
    (hverified _) (hunlinked _)
  · intro other _ i hi
    rw [LockFiles.holder_openCreate]
    exact hi
  · intro i hi
    rw [hlocked] at hi
    rw [LockFiles.holder_openCreate]
    exact h.holds client i hi
  · rw [hlocked]
    exact h.nodup client
  · intro c hc
    rcases hcoordinator _ c hc with hold | ⟨rfl, rfl⟩
    · exact LockFiles.link_openCreate name (h.coordinator client c hold)
    · exact LockFiles.link_openCreate_self s.files .coordinator

theorem LockInvariant.flock (hphase : s.phase client = old)
    (hstep : flockExclusive s client file next = .ok s')
    (hlocked : next.locked.Perm (file :: old.locked) := by exact List.Perm.refl _)
    (hfollows : old.Follows next := by
      constructor <;> simp [LockPhase.coordinators, LockPhase.verified, LockPhase.unlinked]) :
    LockInvariant s' := by
  unfold flockExclusive at hstep
  subst hphase
  split at hstep
  · next files hlock =>
    obtain rfl := Except.ok.inj hstep
    obtain ⟨hnone, hlink, -⟩ := LockFiles.lock_eq_some hlock
    have hfresh : file ∉ (s.phase client).locked := by
      intro hmem
      rw [h.holds client file hmem] at hnone
      cases hnone
    refine h.move rfl (fun x i hi => by rw [hlink]; exact hi)
      ⟨fun other _ i hi => LockFiles.holder_lock hlock hi, ?_, ?_, ?_⟩ hfollows.verified
      hfollows.unlinked
    · intro i hi
      rcases List.mem_cons.mp (hlocked.mem_iff.mp hi) with rfl | hold
      · exact LockFiles.holder_lock_self hlock
      · exact LockFiles.holder_lock hlock (h.holds client i hold)
    · exact hlocked.nodup_iff.mpr (List.nodup_cons.mpr ⟨hfresh, h.nodup client⟩)
    · intro c hc
      rw [hlink]
      exact h.coordinator client c (hfollows.coordinators c hc)
  · cases hstep

theorem LockInvariant.close (hphase : s.phase client = old)
    (hstep : closeFile s client file next = .ok s')
    (hlocked : (file :: next.locked).Perm old.locked := by exact List.Perm.refl _)
    (hfollows : old.Follows next := by
      constructor <;> simp [LockPhase.coordinators, LockPhase.verified, LockPhase.unlinked]) :
    LockInvariant s' := by
  obtain rfl := Except.ok.inj hstep
  subst hphase
  have hnodup := List.nodup_cons.mp (hlocked.nodup_iff.mpr (h.nodup client))
  refine h.move rfl (fun x i hi => by rw [LockFiles.link_close]; exact hi)
    ⟨fun other hne i hi => LockFiles.holder_close hi (.inl hne), ?_, hnodup.2, ?_⟩
    hfollows.verified hfollows.unlinked
  · intro i hi
    have hheld := h.holds client i (hlocked.mem_iff.mp (List.mem_cons_of_mem file hi))
    refine LockFiles.holder_close hheld (.inr ?_)
    rintro rfl
    exact hnodup.1 hi
  · intro c hc
    rw [LockFiles.link_close]
    exact h.coordinator client c (hfollows.coordinators c hc)

omit [DecidableEq κ] in
theorem LockInvariant.eq_of_verified (hi : (s.phase client).verified = some i)
    (hj : (s.phase other).verified = some j) : client = other := by
  obtain rfl := Option.some.inj ((h.verified client i hi).symm.trans (h.verified other j hj))
  have hclient := h.holds client i (LockPhase.mem_locked_of_verified hi)
  have hother := h.holds other i (LockPhase.mem_locked_of_verified hj)
  exact Option.some.inj (hclient.symm.trans hother)

theorem LockInvariant.unlink
    (hphase : s.phase client = .removing lock removeOnDrop dropping (.unlink c)) :
    LockInvariant (s.set client (s.files.unlink .lock)
      (.removing lock removeOnDrop dropping (.dropLock c))) := by
  have hverified : (s.phase client).verified = some lock := by rw [hphase]; rfl
  have hlocked : (s.phase client).locked = [c, lock] := by rw [hphase]; rfl
  have hcoordinators : (s.phase client).coordinators = [c] := by rw [hphase]; rfl
  have hne : LockName.coordinator ≠ .lock := by decide
  have hlink : ∀ c', s.files.link .coordinator = some c' →
      (s.files.unlink .lock).link .coordinator = some c' :=
    fun c' hc => (LockFiles.link_unlink_of_ne s.files hne).trans hc
  have hnone : ∀ other, other ≠ client → (s.phase other).verified = none := by
    intro other hne
    cases hv : (s.phase other).verified with
    | none => rfl
    | some => exact absurd (h.eq_of_verified hverified hv).symm hne
  refine h.set hlink ⟨fun _ _ _ hi => hi, fun i hi => ?_, ?_, fun c' hc => ?_⟩
    (fun other hne i hi => ?_) (fun i hi => nomatch hi) (fun _ _ => hnone) (fun _ _ _ _ => rfl)
  · exact h.holds client i (by rw [hlocked]; exact hi)
  · have hnodup := h.nodup client
    rw [hlocked] at hnodup
    exact hnodup
  · exact hlink c' (h.coordinator client c' (by rw [hcoordinators]; exact hc))
  · rw [hnone other hne] at hi
    cases hi

/-- The coordinator excludes a client that has unlinked its lock file and not released it. -/
theorem LockInvariant.compare (hphase : s.phase client = .compare lock c) :
    LockInvariant (s.set client s.files
      (.compared lock c (decide (s.files.link .lock = some lock)))) := by
  have hlocked : (s.phase client).locked = [c, lock] := by rw [hphase]; rfl
  have hcoordinators : (s.phase client).coordinators = [c] := by rw [hphase]; rfl
  have hc : s.files.link .coordinator = some c :=
    h.coordinator client c (by rw [hcoordinators]; exact List.mem_singleton_self c)
  have hheld : s.files.holder c = some client :=
    h.holds client c (by rw [hlocked]; exact List.mem_cons_self ..)
  have hnodup := h.nodup client
  rw [hlocked] at hnodup
  refine h.set (fun _ hc' => hc') ⟨fun _ _ _ hi => hi, fun i hi => ?_, hnodup,
    fun c' hc' => ?_⟩ (fun other _ i hi => h.verified other i hi) (fun i hi => ?_)
    (fun _ hc' => nomatch hc') (fun other c' hne hother => ?_)
  · exact h.holds client i (by rw [hlocked]; exact hi)
  · exact h.coordinator client c' (by rw [hcoordinators]; exact hc')
  · by_cases hcurrent : s.files.link .lock = some lock
    · rw [decide_eq_true hcurrent] at hi
      obtain rfl := Option.some.inj hi
      exact hcurrent
    · rw [decide_eq_false hcurrent] at hi
      cases hi
  · obtain ⟨hmem, hmem'⟩ := LockPhase.mem_of_unlinked hother
    obtain rfl := Option.some.inj (hc.symm.trans (h.coordinator other c' hmem'))
    exact absurd (Option.some.inj ((h.holds other c hmem).symm.trans hheld)) hne

theorem LockInvariant.removeStep {phase : RemovePhase}
    (hphase : s.phase client = .removing lock removeOnDrop dropping phase)
    (hstep : removeStep s client lock removeOnDrop dropping phase = .ok s') : LockInvariant s' := by
  cases phase with
  | openCoordinator =>
    rw [Cow.removeStep] at hstep
    exact h.openFile hphase hstep
  | lockCoordinator => exact h.flock hphase hstep
  | inspect =>
    -- the inode of the guard is at the path
    have hlink : s.files.link .lock = some lock := h.verified client lock (by rw [hphase]; rfl)
    rw [Cow.removeStep, hlink] at hstep
    obtain rfl := Except.ok.inj ((if_pos rfl).symm.trans hstep)
    exact h.stay hphase
  | unlink =>
    obtain rfl := Except.ok.inj hstep
    exact h.unlink hphase
  | dropLock => exact h.close hphase hstep (List.Perm.swap _ _ _)
  | dropCoordinator => exact h.close hphase hstep

theorem LockInvariant.codeStep (hstep : codeStep s client = .ok s') : LockInvariant s' := by
  unfold Cow.codeStep at hstep
  cases hphase : s.phase client with rw [hphase] at hstep
  | idle | held _ _ => cases hstep
  | openCoordinator | openLock _ | reopenCoordinator _ => exact h.openFile hphase hstep
  | lockCoordinator _ | lockLock _ | relockCoordinator _ _ => exact h.flock hphase hstep
  | dropCoordinator _ _ | dropLock _ => exact h.close hphase hstep
  | compare lock c =>
    obtain rfl := Except.ok.inj hstep
    exact h.compare hphase
  | compared lock c currentMatches =>
    cases currentMatches with
    | true => exact h.close hphase hstep
    | false => exact h.close hphase hstep
  | removing lock removeOnDrop dropping phase => exact h.removeStep hphase hstep
  | closing files =>
    cases files with
    | nil =>
      obtain rfl := Except.ok.inj hstep
      exact h.stay hphase
    | cons => exact h.close hphase hstep

omit h in
/-- An error of `remove_current_inode`: the guard keeps its inode. -/
theorem afterFailedRemoval_facts (lock : ℕ) (removeOnDrop dropping : Bool) :
    (afterFailedRemoval lock removeOnDrop dropping).locked = [lock] ∧
      (afterFailedRemoval lock removeOnDrop dropping).coordinators = [] ∧
      (∀ i, (afterFailedRemoval lock removeOnDrop dropping).verified = some i → i = lock) ∧
      (afterFailedRemoval lock removeOnDrop dropping).unlinked = none := by
  unfold afterFailedRemoval
  split
  · exact ⟨rfl, rfl, fun i hi => (Option.some.inj hi).symm, rfl⟩
  · refine ⟨rfl, rfl, fun i hi => ?_, rfl⟩
    cases hi

theorem LockInvariant.failRemoval {phase : RemovePhase}
    (hphase : s.phase client = .removing lock removeOnDrop dropping phase)
    (hstep : failRemoval s client lock removeOnDrop dropping phase = .ok s') :
    LockInvariant s' := by
  obtain ⟨hkeeps, hnone, hverified, hunlinked⟩ :=
    afterFailedRemoval_facts lock removeOnDrop dropping
  have hfollows : ∀ {old : LockPhase}, old.verified = some lock →
      old.Follows (afterFailedRemoval lock removeOnDrop dropping) := fun hold =>
    ⟨by simp [hnone], fun i hi => hverified i hi ▸ hold, hunlinked⟩
  cases phase with
  | openCoordinator | lockCoordinator _ =>
    obtain rfl := Except.ok.inj hstep
    exact h.stay hphase (by rw [hkeeps]; exact List.Perm.refl _) (hfollows rfl)
  | inspect c | unlink c =>
    exact h.close hphase hstep (by rw [hkeeps]; exact List.Perm.refl _) (hfollows rfl)
  | dropLock _ | dropCoordinator _ => cases hstep

theorem LockInvariant.lockStep {event : κ × LockAction}
    (hstep : lockStep s event = .ok s') : LockInvariant s' := by
  unfold Cow.lockStep at hstep
  dsimp only at hstep
  split at hstep
  case h_2 => exact h.codeStep hstep
  case h_7 hphase => exact h.failRemoval hphase hstep
  case h_8 files =>
    split at hstep
    · next hperm =>
      obtain rfl := Except.ok.inj hstep
      exact h.stay rfl hperm
    · cases hstep
  case h_9 => cases hstep
  all_goals
    next hphase =>
    obtain rfl := Except.ok.inj hstep
    exact h.stay hphase

end

/-! ## Guards -/

/-- The inode of the guard that a client has: from the return of `lock_cow` until the
lock is released. -/
def LockPhase.guard : LockPhase → Option ℕ
  | .held lock _ | .removing lock _ _ .openCoordinator
  | .removing lock _ _ (.lockCoordinator _) | .removing lock _ _ (.inspect _)
  | .removing lock _ _ (.unlink _) | .removing lock _ _ (.dropLock _) => some lock
  | _ => none

theorem LockPhase.guard_cases (h : phase.guard = some i) :
    phase.verified = some i ∨ ∃ c, phase.unlinked = some c := by
  unfold guard at h
  split at h
  all_goals first
    | exact .inl h
    | exact .inr ⟨_, rfl⟩
    | cases h

/-- In every state of every run, at most one client has a guard.  The inode of a guard
is the one at the path until the client itself unlinks it.  In particular at most one
guard has the inode that is at the path. -/
theorem one_guard {κ : Type} [DecidableEq κ] (files : LockFiles LockName κ)
    (events : List (κ × LockAction)) :
    let s := run lockStep (LockState.initial files) events
    (∀ client other i j, (s.phase client).guard = some i →
      (s.phase other).guard = some j → client = other) ∧
    ∀ client i, (s.phase client).guard = some i → (s.phase client).unlinked = none →
      s.files.link .lock = some i := by
  intro s
  have hs : LockInvariant s :=
    run_invariant (fun _ _ _ h _ hstep => h.lockStep hstep)
      (lockInvariant_initial files) (meets_true _ events)
  refine ⟨fun client other i j hi hj => ?_, fun client i hi hlinked => ?_⟩
  · rcases LockPhase.guard_cases hi with hv | ⟨c, hc⟩
    · rcases LockPhase.guard_cases hj with hv' | ⟨c', hc'⟩
      · exact hs.eq_of_verified hv hv'
      · rw [hs.alone other client c' hc'] at hv
        cases hv
    · rcases LockPhase.guard_cases hj with hv' | ⟨c', hc'⟩
      · rw [hs.alone client other c hc] at hv'
        cases hv'
      · -- both have the lock of the coordinator
        obtain ⟨hmem, hcoordinator⟩ := LockPhase.mem_of_unlinked hc
        obtain ⟨hmem', hcoordinator'⟩ := LockPhase.mem_of_unlinked hc'
        obtain rfl := Option.some.inj ((hs.coordinator client c hcoordinator).symm.trans
          (hs.coordinator other c' hcoordinator'))
        exact Option.some.inj ((hs.holds client c hmem).symm.trans (hs.holds other c hmem'))
  · rcases LockPhase.guard_cases hi with hv | ⟨c, hc⟩
    · exact hs.verified client i hv
    · rw [hlinked] at hc
      cases hc

end FileBelt.Cow
