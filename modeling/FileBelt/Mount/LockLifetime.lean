import FileBelt.Mount.Moves

/-!
# How long a byte-range lock is in force

A lock is in force until it is unlocked, its handle is closed or its handle or session
expires.  The conflict checks look at the expiry of the lock row instead.  The two
agree in every run in which the clock does not reach the expiry of a lock in force.
-/

namespace FileBelt.Mount

open Support

/-- A stored lock that is not released and whose handle is valid. -/
def inForce (s : MountState) (now : ℕ) (lock : ByteLockRow) : Bool :=
  lock.released = false ∧ handleValid s now lock.handleId

/-- The clock is not moved past the expiry of a lock that is then in force. -/
def OutlivesClock (s : MountState) : MountOperation → Bool
  | .tick duration =>
    s.byteLocks.rows.all fun lock =>
      inForce s (s.now + duration) lock → s.now + duration < lock.expiresAt
  | _ => true

/-! ## Invariant -/

/-- The byte ranges have a byte in common. -/
def overlaps (a b : ByteLockRow) : Bool :=
  a.offset < b.offset + b.length ∧ b.offset < a.offset + a.length

structure LocksCurrent (s : MountState) : Prop where
  linked : Linked s
  unexpired : ∀ lock ∈ s.byteLocks.rows, inForce s s.now lock → s.now < lock.expiresAt
  shared : ∀ a ∈ s.byteLocks.rows, ∀ b ∈ s.byteLocks.rows,
    inForce s s.now a → inForce s s.now b → a.id ≠ b.id →
    a.target = b.target → overlaps a b →
    a.exclusive = false ∧ b.exclusive = false

theorem locksCurrent_empty : LocksCurrent .empty where
  linked :=
    { sessions := by
        intro handle hhandle
        cases hhandle
      handles := by
        intro lock hlock
        cases hlock }
  unexpired := by
    intro lock hlock
    cases hlock
  shared := by
    intro a ha
    cases ha

namespace LocksCurrent

variable {s s' : MountState} {lock row : ByteLockRow} (hs : LocksCurrent s)
include hs

theorem of_subset (hnow : s'.now = s.now) (hlinked : Linked s')
    (hsubset : ∀ lock ∈ s'.byteLocks.rows, inForce s' s.now lock →
      lock ∈ s.byteLocks.rows ∧ inForce s s.now lock) : LocksCurrent s' where
  linked := hlinked
  unexpired := by
    intro lock hlock hforce
    rw [hnow] at hforce ⊢
    obtain ⟨hlock, hforce⟩ := hsubset lock hlock hforce
    exact hs.unexpired lock hlock hforce
  shared := by
    intro a ha b hb haforce hbforce
    rw [hnow] at haforce hbforce
    obtain ⟨ha, haforce⟩ := hsubset a ha haforce
    obtain ⟨hb, hbforce⟩ := hsubset b hb hbforce
    exact hs.shared a ha b hb haforce hbforce

/-- Over a quiet transaction the unreleased locks are in force as before. -/
theorem inForce_of_quiet (h : Quiet s s') (hlock : lock ∈ s.byteLocks.rows)
    (hforce : inForce s' s.now lock) : inForce s s.now lock := by
  simp only [inForce, decide_eq_true_eq] at hforce ⊢
  exact ⟨hforce.1, h.valid hs.linked (hs.linked.handles lock hlock) hforce.2⟩

theorem quiet (h : Quiet s s') : LocksCurrent s' := by
  refine hs.of_subset h.now (h.links hs.linked) ?_
  intro lock hlock hforce
  rw [h.byteLocks] at hlock
  exact ⟨hlock, hs.inForce_of_quiet h hlock hforce⟩

theorem opened {row : HandleRow} {handles : Table HandleRow.id}
    (hinsert : s.handles.insert row = some handles)
    (hsession : (s.sessions.get row.sessionId).isSome) :
    LocksCurrent { s with handles := handles } := by
  have hstored : ∀ {id : Uuid}, (s.handles.get id).isSome →
      handles.get id = s.handles.get id := by
    intro id hid
    rw [Table.get_insert hinsert, if_neg]
    rintro rfl
    rw [(Table.insert_eq_some hinsert).1] at hid
    cases hid
  refine hs.of_subset rfl ⟨?_, ?_⟩ ?_
  · intro handle hhandle
    rw [(Table.insert_eq_some hinsert).2, List.mem_append, List.mem_singleton] at hhandle
    rcases hhandle with hhandle | rfl
    · exact hs.linked.sessions handle hhandle
    · exact hsession
  · intro lock hlock
    have hhandle := hs.linked.handles lock hlock
    rw [hstored hhandle]
    exact hhandle
  · intro lock hlock hforce
    refine ⟨hlock, ?_⟩
    rw [inForce, handleValid, hstored (hs.linked.handles lock hlock)] at hforce
    exact hforce

theorem release (p : ByteLockRow → Bool) : LocksCurrent { s with
        byteLocks := s.byteLocks.update p
          (fun lock => { lock with released := true }) fun _ => rfl } := by
  have hrow : ∀ lock ∈ (s.byteLocks.update p
      (fun lock => { lock with released := true }) fun _ => rfl).rows,
      ∃ old ∈ s.byteLocks.rows, lock.handleId = old.handleId ∧
        (lock.released = false → lock = old) := by
    intro lock hlock
    obtain ⟨old, hold, rfl⟩ := List.mem_map.mp hlock
    refine ⟨old, hold, ?_⟩
    split
    · exact ⟨rfl, fun hreleased => by cases hreleased⟩
    · exact ⟨rfl, fun _ => rfl⟩
  refine hs.of_subset rfl ⟨hs.linked.sessions, ?_⟩ ?_
  · intro lock hlock
    obtain ⟨old, hold, hhandle, -⟩ := hrow lock hlock
    rw [hhandle]
    exact hs.linked.handles old hold
  · intro lock hlock hforce
    obtain ⟨_, hold, -, hsame⟩ := hrow lock hlock
    have hreleased : lock.released = false := (of_decide_eq_true hforce).1
    rw [hsame hreleased] at hforce ⊢
    exact ⟨hold, hforce⟩

theorem lockConflict_of_inForce (hlock : lock ∈ s.byteLocks.rows) (hforce : inForce s s.now lock)
    {target : Target} {offset stop : ℤ} {exclusive : Bool} (htarget : lock.target = target)
    (hstart : lock.offset < stop) (hstop : offset < lock.offset + lock.length)
    (hexclusive : lock.exclusive ∨ exclusive) :
    lockConflict s target offset stop exclusive := by
  refine List.any_eq_true.mpr ⟨lock, hlock, decide_eq_true ?_⟩
  exact ⟨htarget, (of_decide_eq_true hforce).1, hs.unexpired lock hlock hforce,
    hstart, hstop, hexclusive⟩

/-- A new lock that passes the check overlaps only shared locks, being shared
itself. -/
theorem shared_of_unconflicted
    (hconflict : lockConflict s row.target row.offset (row.offset + row.length)
      row.exclusive = false) (hlock : lock ∈ s.byteLocks.rows)
    (hforce : inForce s s.now lock) (htarget : lock.target = row.target)
    (hoverlaps : overlaps lock row) : lock.exclusive = false ∧ row.exclusive = false := by
  obtain ⟨hstart, hstop⟩ := of_decide_eq_true hoverlaps
  by_contra hexclusive
  have hsome : lock.exclusive ∨ row.exclusive := by
    rw [not_and_or, Bool.not_eq_false, Bool.not_eq_false] at hexclusive
    exact hexclusive
  rw [hs.lockConflict_of_inForce hlock hforce htarget hstart hstop hsome] at hconflict
  cases hconflict

theorem acquire {locks : Table ByteLockRow.id}
    (hhandle : (s.handles.get row.handleId).isSome)
    (hinsert : s.byteLocks.insert row = some locks) (hexpires : s.now < row.expiresAt)
    (hconflict : lockConflict s row.target row.offset (row.offset + row.length)
      row.exclusive = false) : LocksCurrent { s with byteLocks := locks } := by
  have hrows : ∀ lock ∈ locks.rows, lock ∈ s.byteLocks.rows ∨ lock = row := by
    intro lock hlock
    rwa [(Table.insert_eq_some hinsert).2, List.mem_append, List.mem_singleton] at hlock
  constructor
  · refine ⟨hs.linked.sessions, ?_⟩
    intro lock hlock
    rcases hrows lock hlock with hlock | rfl
    · exact hs.linked.handles lock hlock
    · exact hhandle
  · intro lock hlock hforce
    rcases hrows lock hlock with hlock | rfl
    · exact hs.unexpired lock hlock hforce
    · exact hexpires
  · intro a ha b hb haforce hbforce hid htarget hoverlaps
    rcases hrows a ha with ha | rfl
    · rcases hrows b hb with hb | rfl
      · exact hs.shared a ha b hb haforce hbforce hid htarget hoverlaps
      · exact hs.shared_of_unconflicted hconflict ha haforce htarget hoverlaps
    · rcases hrows b hb with hb | rfl
      · have hswapped : overlaps b a := decide_eq_true (of_decide_eq_true hoverlaps).symm
        exact (hs.shared_of_unconflicted hconflict hb hbforce htarget.symm hswapped).symm
      · exact absurd rfl hid

end LocksCurrent

variable {s s' : MountState} {lock : ByteLockRow} {op : MountOperation}

theorem inForce_earlier {now later : ℕ} (hle : now ≤ later)
    (h : inForce s later lock) : inForce s now lock := by
  simp only [inForce, handleValid, Option.any_eq_true, Bool.and_eq_true,
    HandleRow.live, sessionOpen, decide_eq_true_eq] at h ⊢
  obtain ⟨hreleased, handle, hhandle, ⟨hclosed, hexpires⟩, session, hsession,
    hstate, hidle, habsolute⟩ := h
  exact ⟨hreleased, handle, hhandle, ⟨hclosed, hle.trans_lt hexpires⟩, session,
    hsession, hstate, hle.trans_lt hidle, hle.trans_lt habsolute⟩

theorem LocksCurrent.tick (hs : LocksCurrent s) {duration : ℕ}
    (houtlives : OutlivesClock s (.tick duration)) :
    LocksCurrent { s with now := s.now + duration } where
  linked := ⟨hs.linked.sessions, hs.linked.handles⟩
  unexpired := by
    intro lock hlock hforce
    have hlater := List.all_eq_true.mp houtlives lock hlock
    exact of_decide_eq_true hlater hforce
  shared := by
    intro a ha b hb haforce hbforce
    exact hs.shared a ha b hb (inForce_earlier (Nat.le_add_right _ _) haforce)
      (inForce_earlier (Nat.le_add_right _ _) hbforce)

theorem LocksCurrent.move (hs : LocksCurrent s) (houtlives : OutlivesClock s op)
    (h : MountMove s op s') : LocksCurrent s' := by
  cases h with
  | tick hop =>
    subst hop
    exact hs.tick houtlives
  | database =>
    exact hs.of_subset rfl ⟨hs.linked.sessions, hs.linked.handles⟩
      fun lock hlock hforce => ⟨hlock, hforce⟩
  | quiet h => exact hs.quiet h
  | opened hop h hinsert hsession => exact (hs.quiet h).opened hinsert hsession
  | close h => exact (hs.quiet h).release _
  | acquire hhandle hinsert hexpires hconflict =>
    exact hs.acquire hhandle hinsert hexpires hconflict
  | release => exact hs.release _

theorem mountReached_locksCurrent {ops : List MountOperation}
    (hops : Meets mountStep (fun s op => OutlivesClock s op) .empty ops) :
    LocksCurrent (mountReached ops) :=
  run_invariant (I := LocksCurrent)
    (fun _ _ _ hs houtlives hstep => hs.move houtlives (mountStep_move hstep))
    locksCurrent_empty hops

/-! ## The life of a lock -/

theorem mem_release {t : Table ByteLockRow.id} {p : ByteLockRow → Bool}
    (hlock : lock ∈ t.rows) (hp : p lock = false) :
    lock ∈ (t.update p (fun lock => { lock with released := true }) fun _ => rfl).rows := by
  refine List.mem_map.mpr ⟨lock, hlock, ?_⟩
  rw [hp]
  rfl

/-- A step leaves an unreleased lock alone unless it ends the lock. -/
theorem mem_of_mountMove (h : MountMove s op s') (hlock : lock ∈ s.byteLocks.rows)
    (hends : op.ends lock = false) : lock ∈ s'.byteLocks.rows := by
  cases h with
  | tick => exact hlock
  | database => exact hlock
  | quiet h =>
    rw [h.byteLocks]
    exact hlock
  | opened hop h =>
    rw [h.byteLocks]
    exact hlock
  | @close s₁ handleId h hclose =>
    refine mem_release (h.byteLocks ▸ hlock) ?_
    rw [decide_eq_false_iff_not]
    rintro ⟨hhandle, -⟩
    rw [hclose lock hhandle] at hends
    cases hends
  | acquire hhandle hinsert =>
    rw [(Table.insert_eq_some hinsert).2, List.mem_append]
    exact .inl hlock
  | @release handleId lockId epoch hrelease =>
    refine mem_release hlock ?_
    rw [releases, decide_eq_false_iff_not]
    rintro ⟨hid, hhandle, -⟩
    rw [hrelease lock hhandle hid] at hends
    cases hends

/-- A lock stays in force over a step that neither unlocks it nor ends its handle. -/
theorem inForce_step (hstep : mountStep s op = .ok s')
    (hlock : lock ∈ s.byteLocks.rows) (hforce : inForce s s.now lock)
    (hends : op.ends lock = false) (hvalid : handleValid s' s'.now lock.handleId) :
    lock ∈ s'.byteLocks.rows ∧ inForce s' s'.now lock :=
  ⟨mem_of_mountMove (mountStep_move hstep) hlock hends,
    decide_eq_true ⟨(of_decide_eq_true hforce).1, hvalid⟩⟩

theorem LocksCurrent.acquire_refused (hs : LocksCurrent s) (hlock : lock ∈ s.byteLocks.rows)
    (hforce : inForce s s.now lock) {request : LockRequest} (htarget : request.target = lock.target)
    (hstart : lock.offset < request.offset + request.length)
    (hstop : request.offset < lock.offset + lock.length)
    (hexclusive : lock.exclusive ∨ request.exclusive) (s' : MountState) :
    acquireMountByteLock s request ≠ .ok s' := by
  intro h
  unfold acquireMountByteLock at h
  split at h
  · cases h
  obtain ⟨_, hoffset, h⟩ := bind_eq_ok h
  obtain ⟨_, hlength, h⟩ := bind_eq_ok h
  obtain ⟨_, hsum, h⟩ := bind_eq_ok h
  obtain ⟨_, -, h⟩ := bind_eq_ok h
  rw [checkedAddI64_inv (okOr_eq_ok hsum), toI64_inv (okOr_eq_ok hoffset),
    toI64_inv (okOr_eq_ok hlength),
    hs.lockConflict_of_inForce hlock hforce htarget.symm hstart hstop hexclusive] at h
  cases h

/-- `acquire_nfs_byte_lock` records a conflict, or replays an earlier reply. -/
theorem LocksCurrent.acquireNfs_refused (hs : LocksCurrent s) (hlock : lock ∈ s.byteLocks.rows)
    (hforce : inForce s s.now lock) {request : NfsLockRequest} {handle : HandleRow}
    (hhandle : s.handles.get request.handleId = some handle) (htarget : handle.target = lock.target)
    (hstart : lock.offset < request.offset + request.length)
    (hstop : request.offset < lock.offset + lock.length)
    (hexclusive : lock.exclusive ∨ request.exclusive) {outcome : NfsOutcome}
    (h : acquireNfsByteLock s request = .ok (outcome, s')) : outcome ≠ .applied ∧ s' = s := by
  obtain ⟨_, hsum, h⟩ := bind_eq_ok h
  rw [checkedAddI64_inv (okOr_eq_ok hsum)] at h
  split at h
  · cases h
  split at h
  · obtain ⟨houtcome, hstate⟩ := Prod.mk.inj (Except.ok.inj h)
    rw [← houtcome, ← hstate]
    exact ⟨by decide, rfl⟩
  obtain ⟨_, hadmitted, h⟩ := bind_eq_ok h
  obtain ⟨hget, -⟩ := Option.filter_eq_some_iff.mp (okOr_eq_ok hadmitted)
  rw [hhandle] at hget
  rw [← Option.some.inj hget,
    hs.lockConflict_of_inForce hlock hforce htarget.symm hstart hstop hexclusive] at h
  obtain ⟨houtcome, hstate⟩ := Prod.mk.inj (Except.ok.inj h)
  rw [← houtcome, ← hstate]
  exact ⟨by decide, rfl⟩

/-- In every run in which the clock does not reach the expiry of a lock in
force, such a lock stays in force until it is unlocked, its handle is closed or
its handle or session ends; both paths refuse what conflicts with it; and it
overlaps another lock in force only if both are shared. -/
theorem byte_lock_in_force {ops : List MountOperation}
    (hops : Meets mountStep (fun s op => OutlivesClock s op) .empty ops)
    {lock : ByteLockRow} (hlock : lock ∈ (mountReached ops).byteLocks.rows)
    (hforce : inForce (mountReached ops) (mountReached ops).now lock) :
    (∀ op s', mountStep (mountReached ops) op = .ok s' →
      op.ends lock = false → handleValid s' s'.now lock.handleId →
      lock ∈ s'.byteLocks.rows ∧ inForce s' s'.now lock) ∧
    (∀ (request : LockRequest) s', request.target = lock.target →
      lock.offset < request.offset + request.length →
      request.offset < lock.offset + lock.length →
      lock.exclusive ∨ request.exclusive →
      acquireMountByteLock (mountReached ops) request ≠ .ok s') ∧
    (∀ (request : NfsLockRequest) handle outcome s',
      (mountReached ops).handles.get request.handleId = some handle →
      handle.target = lock.target →
      lock.offset < request.offset + request.length →
      request.offset < lock.offset + lock.length →
      lock.exclusive ∨ request.exclusive →
      acquireNfsByteLock (mountReached ops) request = .ok (outcome, s') →
      outcome ≠ .applied ∧ s' = mountReached ops) ∧
    ∀ other ∈ (mountReached ops).byteLocks.rows,
      inForce (mountReached ops) (mountReached ops).now other →
      lock.id ≠ other.id → lock.target = other.target →
      overlaps lock other →
      lock.exclusive = false ∧ other.exclusive = false := by
  have hs := mountReached_locksCurrent hops
  refine ⟨?_, ?_, ?_, ?_⟩
  · intro op s' hstep hends hvalid
    exact inForce_step hstep hlock hforce hends hvalid
  · intro request s' htarget hstart hstop hexclusive
    exact hs.acquire_refused hlock hforce htarget hstart hstop hexclusive s'
  · intro request handle outcome s' hhandle htarget hstart hstop hexclusive h
    exact hs.acquireNfs_refused hlock hforce hhandle htarget hstart hstop hexclusive h
  · intro other hother hotherForce
    exact hs.shared lock hlock other hother hforce hotherForce

/-! ## A lock on a new file -/

/-- A user with one file, a credential and a gateway. -/
def mountedFile : List MountOperation :=
  [.database (.linkOidcIdentity
      { principalId := 1, userId := 2, verifiedEmail := none, driveId := 3,
        rootId := 4 }),
    .database (.nfsCreate
      { mount := ⟨1, 1, true⟩, drive := 3, parent := 4, id := 12, kind := .file,
        displayName := "a", nameKey := "a", symlinkTarget := none,
        generations := ⟨1, 1, 1, 1, 1⟩ }),
    .administer
      { credentials :=
          { rows := [⟨20, 1, .smb, false, 24 * hour, 1, 1, [3], none⟩]
            nodup := by decide }
        policies :=
          { rows := [⟨1, .smb, true, [3]⟩]
            nodup := by decide }
        gateways := [⟨.smb, 40, 1, false, 0, 24 * hour⟩]
        devices := .empty }]

/-- A session and a handle of it. -/
def openFile (session handle : Uuid) : List MountOperation :=
  [.createSession ⟨session, 20, none, .smb, 40, 1⟩,
    .openHandle
      { fence := ⟨session, 1, 1, 1, 1, 1⟩, handleId := handle, target := ⟨3, 12⟩
        expectedVersionId := none, accessActions := [.writeContent, .manageLock]
        shareRead := true, shareWrite := true, shareDelete := true
        driveAclGeneration := 1, namespaceGeneration := 1
        resourceAclGeneration := 1 }]

def lockFirstBytes (session handle lock : Uuid) : LockRequest where
  fence := ⟨session, 1, 1, 1, 1, 1⟩
  lockId := lock
  handleId := handle
  target := ⟨3, 12⟩
  ownerKey := "owner"
  offset := 0
  length := 10
  exclusive := true

/-- The second session waits for less than the life of the lock. -/
def lockedFile : List MountOperation :=
  mountedFile ++ openFile 30 50 ++ openFile 31 51 ++
    [.acquireLock (lockFirstBytes 30 50 60), .tick (29 * second)]

def firstLock : ByteLockRow := ⟨60, 50, ⟨3, 12⟩, "owner", 0, 10, true, 1, 30 * second, false⟩

theorem byte_lock_in_force_lockedFile :
    firstLock ∈ (mountReached lockedFile).byteLocks.rows ∧
      ∀ s', acquireMountByteLock (mountReached lockedFile)
        (lockFirstBytes 31 51 61) ≠ .ok s' := by
  refine ⟨by decide +kernel, fun s' => ?_⟩
  have hlock : firstLock ∈ (mountReached lockedFile).byteLocks.rows := by
    decide +kernel
  obtain ⟨-, hrefused, -⟩ := byte_lock_in_force (by decide +kernel) hlock (by decide +kernel)
  exact hrefused (lockFirstBytes 31 51 61) s' rfl (by decide) (by decide) (.inl rfl)

/-- The first session goes on using its handle, and the second one locks the
same bytes. -/
def lockedTwice : List MountOperation :=
  mountedFile ++ openFile 30 50 ++ openFile 31 51 ++
    [.acquireLock (lockFirstBytes 30 50 60), .tick (29 * second),
      .admitHandle ⟨30, 1, 1, 1, 1, 1⟩ 50 .writeContent, .tick (1 * second),
      .acquireLock (lockFirstBytes 31 51 61)]

/-- Two overlapping exclusive locks are in force. -/
theorem byte_lock_expired_in_use :
    ∃ a ∈ (mountReached lockedTwice).byteLocks.rows,
      ∃ b ∈ (mountReached lockedTwice).byteLocks.rows,
        a.id ≠ b.id ∧ a.target = b.target ∧ overlaps a b ∧
          a.exclusive ∧ b.exclusive ∧
          inForce (mountReached lockedTwice) (mountReached lockedTwice).now a ∧
          inForce (mountReached lockedTwice)
            (mountReached lockedTwice).now b := by
  decide +kernel

end FileBelt.Mount
