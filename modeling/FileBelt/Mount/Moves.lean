import FileBelt.Mount.Locks

/-!
# What a transaction does to the mount tables

Every successful operation is one of a few moves, `mountStep_move`; the
invariants of the mount tables are then proved move by move.
-/

namespace FileBelt.Mount

open Support

/-- The handle is live and its session open. -/
def handleValid (s : MountState) (now : ℕ) (id : Uuid) : Bool :=
  (s.handles.get id).any fun handle =>
    handle.live now && (s.sessions.get handle.sessionId).any (sessionOpen now)

/-- The operation unlocks the lock or closes its handle. -/
def MountOperation.ends (lock : ByteLockRow) : MountOperation → Bool
  | .closeHandle _ handleId => handleId = lock.handleId
  | .closeNfsHandle _ handleId _ _ => handleId = lock.handleId
  | .releaseLock _ handleId lockId =>
    handleId = lock.handleId ∧ lockId = lock.id
  | .releaseNfsLock _ handleId lockId _ _ =>
    handleId = lock.handleId ∧ lockId = lock.id
  | _ => false

def MountOperation.opensHandle : MountOperation → Bool
  | .openHandle _ => true
  | .openNfsHandle _ => true
  | _ => false

/-! ## Quiet transactions -/

/-- The foreign keys of handles and locks. -/
structure Linked (s : MountState) : Prop where
  sessions : ∀ handle ∈ s.handles.rows, (s.sessions.get handle.sessionId).isSome
  handles : ∀ lock ∈ s.byteLocks.rows, (s.handles.get lock.handleId).isSome

def MountSessionRow.SameUser (session session' : MountSessionRow) : Prop :=
  session'.userPrincipalId = session.userPrincipalId

variable {fence : MountSessionFence} {session row : MountSessionRow}
  {sessionId lockId handleId gatewayId : Uuid} {admitted replayed : Bool} {handle : HandleRow}

theorem MountSessionRow.SameUser.refl (session : MountSessionRow) : session.SameUser session := rfl

theorem MountSessionRow.SameUser.trans {session' session'' : MountSessionRow}
    (h : session.SameUser session') (h' : session'.SameUser session'') :
    session.SameUser session'' :=
  Eq.trans h' h

/-- The locks are left alone, and no handle is opened or made valid. -/
structure Quiet (s s' : MountState) : Prop where
  now : s'.now = s.now
  db : s'.db = s.db
  users : Table.Advances MountSessionRow.SameUser s.sessions s'.sessions
  rows : ∀ handle' ∈ s'.handles.rows, handle'.live s.now →
    ∃ handle ∈ s.handles.rows, handle.live s.now ∧
      handle' = { handle with expiresAt := handle'.expiresAt }
  byteLocks : s'.byteLocks = s.byteLocks
  handles : ∀ {id : Uuid}, (s.handles.get id).isSome → (s'.handles.get id).isSome
  linked : Linked s → ∀ handle ∈ s'.handles.rows, (s'.sessions.get handle.sessionId).isSome
  valid : Linked s → ∀ {id : Uuid}, (s.handles.get id).isSome →
    handleValid s' s.now id → handleValid s s.now id

namespace Quiet

variable {s s' s'' : MountState}

theorem links (h : Quiet s s') (hs : Linked s) : Linked s' where
  sessions := h.linked hs
  handles := by
    intro lock hlock
    rw [h.byteLocks] at hlock
    exact h.handles (hs.handles lock hlock)

theorem trans (h : Quiet s s') (h' : Quiet s' s'') : Quiet s s'' where
  now := h'.now.trans h.now
  db := h'.db.trans h.db
  users := h.users.trans .trans h'.users
  rows := by
    intro handle'' hmem hlive
    rw [← h.now] at hlive
    obtain ⟨handle', hmem', hlive', hsame'⟩ := h'.rows handle'' hmem hlive
    rw [h.now] at hlive'
    obtain ⟨handle, hmem, hlive, hsame⟩ := h.rows handle' hmem' hlive'
    refine ⟨handle, hmem, hlive, ?_⟩
    rw [hsame', hsame]
  byteLocks := h'.byteLocks.trans h.byteLocks
  handles := fun hid => h'.handles (h.handles hid)
  linked := fun hs => h'.linked (h.links hs)
  valid := by
    intro hs id hid hvalid
    have hvalid' := h'.valid (h.links hs) (h.handles hid)
    rw [h.now] at hvalid'
    exact h.valid hs hid (hvalid' hvalid)

theorem rows_refl (s : MountState) : ∀ handle' ∈ s.handles.rows,
    handle'.live s.now → ∃ handle ∈ s.handles.rows, handle.live s.now ∧
        handle' = { handle with expiresAt := handle'.expiresAt } :=
  fun handle hmem hlive => ⟨handle, hmem, hlive, rfl⟩

theorem of_same (hnow : s'.now = s.now) (hdb : s'.db = s.db) (hlocks : s'.byteLocks = s.byteLocks)
    (hhandles : s'.handles = s.handles) (hsessions : s'.sessions = s.sessions) : Quiet s s' where
  now := hnow
  db := hdb
  users := by
    rw [hsessions]
    exact Table.advances_refl .refl _
  rows := by
    rw [hhandles]
    exact rows_refl s
  byteLocks := hlocks
  handles := by
    intro id hid
    rw [hhandles]
    exact hid
  linked := by
    intro hs
    rw [hhandles, hsessions]
    exact hs.sessions
  valid := by
    intro _ id _ hvalid
    rw [handleValid, hhandles, hsessions] at hvalid
    exact hvalid

theorem refl (s : MountState) : Quiet s s := of_same rfl rfl rfl rfl rfl

theorem updateSessions {p : MountSessionRow → Bool} {f : MountSessionRow → MountSessionRow}
    {hf : ∀ row, (f row).id = row.id} (huser : ∀ row : MountSessionRow, row.SameUser (f row))
    (hopen : ∀ row, s.sessions.get row.id = some row → p row →
      sessionOpen s.now (f row) → sessionOpen s.now row) :
    Quiet s (updateSessions s p f hf) where
  now := rfl
  db := rfl
  users := Table.advances_update .refl _ p f hf huser
  rows := rows_refl s
  byteLocks := rfl
  handles := fun hid => hid
  linked := by
    intro hs handle hhandle
    have hsession := hs.sessions handle hhandle
    rw [Mount.updateSessions, Table.get_update, Option.isSome_map]
    exact hsession
  valid := by
    intro hs id hid hvalid
    simp only [handleValid, Option.any_eq_true, Bool.and_eq_true,
      Mount.updateSessions, Table.get_update, Option.map_eq_some_iff] at hvalid ⊢
    obtain ⟨handle, hget, hlive, _, ⟨session, hsession, rfl⟩, hafter⟩ := hvalid
    refine ⟨handle, hget, hlive, session, hsession, ?_⟩
    have hkey : session.id = handle.sessionId := Table.get_key hsession
    split at hafter
    · next hp => exact hopen session (hkey ▸ hsession) hp hafter
    · exact hafter

theorem insertSession (h : insertSession s row = .ok s') : Quiet s s' := by
  obtain ⟨sessions, hinsert, h⟩ := bind_eq_ok h
  have hget := Table.get_insert (okOr_eq_ok hinsert)
  have hfresh := (Table.insert_eq_some (okOr_eq_ok hinsert)).1
  cases h
  -- the session of a stored handle is another one
  have hother : Linked s → ∀ handle ∈ s.handles.rows,
      sessions.get handle.sessionId = s.sessions.get handle.sessionId := by
    intro hs handle hhandle
    rw [hget, if_neg]
    intro hid
    have hsession := hs.sessions handle hhandle
    rw [hid, hfresh] at hsession
    cases hsession
  constructor
  · rfl
  · rfl
  · exact Table.advances_insert .refl (okOr_eq_ok hinsert)
  · exact rows_refl s
  · rfl
  · exact fun hid => hid
  · intro hs handle hhandle
    rw [hother hs handle hhandle]
    exact hs.sessions handle hhandle
  · intro hs id hid hvalid
    simp only [handleValid, Option.any_eq_true, Bool.and_eq_true] at hvalid ⊢
    obtain ⟨handle, hhandle, hlive, hsession⟩ := hvalid
    rw [hother hs handle (Table.get_eq_some.mp hhandle).1] at hsession
    exact ⟨handle, hhandle, hlive, hsession⟩

/-- A new version of a stored handle that is live only if the old one is. -/
theorem writeHandle {row : HandleRow} (hget : s.handles.get row.id = some handle)
    (hsame : row.live s.now → handle.live s.now ∧
      row = { handle with expiresAt := row.expiresAt })
    (hsession : row.sessionId = handle.sessionId) : Quiet s (writeHandle s row) where
  now := rfl
  db := rfl
  users := Table.advances_refl .refl _
  rows := by
    intro handle' hmem hlive
    rcases mem_writeHandle hmem with hmem | rfl
    · exact rows_refl s handle' hmem hlive
    · exact ⟨handle, (Table.get_eq_some.mp hget).1, hsame hlive⟩
  byteLocks := rfl
  handles := by
    intro id hid
    rw [Mount.writeHandle, Table.get_update, Option.isSome_map]
    exact hid
  linked := by
    intro hs other hother
    rcases mem_writeHandle hother with hother | rfl
    · exact hs.sessions other hother
    · rw [hsession]
      exact hs.sessions handle (Table.get_eq_some.mp hget).1
  valid := by
    intro _ id _ hvalid
    by_cases hid : id = row.id
    · subst hid
      simp only [handleValid, Option.any_eq_true, Bool.and_eq_true] at hvalid ⊢
      obtain ⟨other, hother, hotherLive, hopen⟩ := hvalid
      rw [get_writeHandle hget] at hother
      rw [← Option.some.inj hother] at hotherLive hopen
      rw [hsession] at hopen
      exact ⟨handle, hget, (hsame hotherLive).1, hopen⟩
    · rw [handleValid, get_writeHandle_of_ne hid] at hvalid
      exact hvalid

end Quiet

theorem insertHandle_eq_ok {s s' : MountState} {row : HandleRow} (h : insertHandle s row = .ok s') :
    ∃ handles, s' = { s with handles := handles } ∧ s.handles.insert row = some handles ∧
      (s.sessions.get row.sessionId).isSome := by
  obtain ⟨session, hsession, h⟩ := bind_eq_ok h
  obtain ⟨handles, hinsert, h⟩ := bind_eq_ok h
  refine ⟨handles, (Except.ok.inj h).symm, okOr_eq_ok hinsert, ?_⟩
  rw [okOr_eq_ok hsession]
  rfl

/-! ### The transactions -/

section

variable {s s' : MountState} {auth : NfsSessionRequest} {id : Uuid}

theorem touchSession_quiet (s : MountState) (id : Uuid) : Quiet s (touchSession s id) := by
  refine Quiet.updateSessions (fun _ => rfl) ?_
  intro row _ hp _
  exact (of_decide_eq_true hp).2

theorem closeSession_quiet (s : MountState) (id : Uuid) : Quiet s (closeSession s id) := by
  refine Quiet.updateSessions (fun _ => rfl) ?_
  intro row _ _ hopen
  simp [sessionOpen] at hopen

theorem endSessions_quiet (s : MountState) (state : MountSessionState)
    (p : MountSessionRow → Bool) : Quiet s (endSessions s state p) := by
  refine Quiet.updateSessions (fun _ => rfl) ?_
  intro row _ hp hopen
  simp only [sessionOpen, decide_eq_true_eq] at hp hopen ⊢
  exact ⟨hp.1, hopen.2⟩

theorem drainSessions_quiet (s : MountState) (protocol : Protocol) (gatewayId : Uuid)
    (epoch deadline : ℕ) : Quiet s (drainSessions s protocol gatewayId epoch deadline) := by
  refine Quiet.updateSessions (fun _ => rfl) ?_
  intro row _ hp hopen
  simp only [sessionOpen, decide_eq_true_eq, Nat.lt_min] at hp hopen ⊢
  exact ⟨.inl hp.2.2.2, hopen.2.1.1, hopen.2.2.1⟩

theorem reuseSession_quiet (hget : s.sessions.get session.id = some session)
    (hopen : sessionOpen s.now session) : Quiet s (reuseSession s auth session) := by
  refine Quiet.updateSessions (fun _ => rfl) ?_
  intro row hrow hp _
  rw [of_decide_eq_true hp, hget] at hrow
  rw [← Option.some.inj hrow]
  exact hopen

theorem createMountSession_quiet {request : SessionRequest}
    (h : createMountSession s request = .ok s') : Quiet s s' := by
  obtain ⟨-, h⟩ := else_of_ok h
  obtain ⟨⟨credential, principal⟩, -, h⟩ := bind_eq_ok h
  obtain ⟨-, h⟩ := then_of_ok h
  exact Quiet.insertSession h

theorem reusableSession_get
    (h : reusableSession s auth = some session) : s.sessions.get session.id = some session := by
  obtain ⟨id, -, hget⟩ := Option.bind_eq_some_iff.mp h
  obtain ⟨hget, -⟩ := Option.filter_eq_some_iff.mp hget
  rw [Table.get_key hget]
  exact hget

theorem createNfsSession_quiet (h : createNfsSession s auth = .ok s') : Quiet s s' := by
  unfold createNfsSession at h
  split at h
  · cases h
  split at h
  · cases h
  obtain ⟨⟨credential, principal⟩, -, h⟩ := bind_eq_ok h
  dsimp only at h
  split at h
  · exact Quiet.insertSession h
  · next session hsession =>
    split at h
    · next hcontext =>
      cases h
      refine reuseSession_quiet (reusableSession_get hsession) ?_
      simp only [contextCurrent, decide_eq_true_eq] at hcontext
      simp only [sessionOpen, decide_eq_true_eq]
      exact ⟨.inl hcontext.1, hcontext.2.2.2.2⟩
    · exact (closeSession_quiet s session.id).trans (Quiet.insertSession h)

theorem admitMountSession_quiet
    (h : admitMountSession s id admitted = .ok (fence, s')) : Quiet s s' := by
  obtain ⟨session, -, h⟩ := bind_eq_ok h
  cases h
  exact touchSession_quiet s id

theorem endMountSession_quiet (h : endMountSession s id = .ok s') : Quiet s s' := by
  obtain ⟨session, -, h⟩ := bind_eq_ok h
  cases h
  exact endSessions_quiet s _ _

theorem drainMountGatewayEpoch_quiet {protocol : Protocol} {epoch : ℕ}
    (h : drainMountGatewayEpoch s protocol gatewayId epoch = .ok s') : Quiet s s' := by
  obtain ⟨-, h⟩ := then_of_ok h
  cases h
  have hgateway : Quiet s (drainGateway s protocol gatewayId epoch (s.now + 5 * minute)) :=
    Quiet.of_same rfl rfl rfl rfl rfl
  exact hgateway.trans (drainSessions_quiet _ _ _ _ _)

theorem admitMountHandle_quiet {action : HandleAction}
    (h : admitMountHandle s fence id action = .ok (handle, s')) : Quiet s s' := by
  obtain ⟨stored, hstored, h⟩ := bind_eq_ok h
  obtain ⟨hget, hadmits⟩ := Option.filter_eq_some_iff.mp (okOr_eq_ok hstored)
  rw [← (Prod.mk.inj (Except.ok.inj h)).2]
  simp only [admitsHandle, Bool.and_eq_true] at hadmits
  have hid : stored.id = id := Table.get_key hget
  subst hid
  have hstored' : s.handles.get (stored.renew s.now).id = some stored := hget
  exact Quiet.writeHandle hstored' (fun _ => ⟨hadmits.1.1.1, rfl⟩) rfl

theorem closeHandle_quiet (h : closeHandle s sessionId handleId = .ok s') : Quiet s s' := by
  obtain ⟨stored, hstored, h⟩ := bind_eq_ok h
  obtain ⟨hget, -⟩ := Option.filter_eq_some_iff.mp (okOr_eq_ok hstored)
  cases h
  have hid : stored.id = handleId := Table.get_key hget
  subst hid
  have hclosed : s.handles.get { stored with closed := true }.id = some stored := hget
  refine Quiet.writeHandle hclosed ?_ rfl
  intro hlive
  simp [HandleRow.live] at hlive

end

/-! ## What one step can do -/

/-- The effects of the operations on sessions, handles and locks. -/
inductive MountMove (s : MountState) (op : MountOperation) : MountState → Prop
  | tick {duration : ℕ} (hop : op = .tick duration) :
      MountMove s op { s with now := s.now + duration }
  | database {db : Database.State} {dbOp : Database.Operation}
      (hop : op = .database dbOp) (hstep : Database.step s.db dbOp = .ok db) :
      MountMove s op { s with db := db }
  | quiet {s' : MountState} (h : Quiet s s') : MountMove s op s'
  | opened {used : MountState} {row : HandleRow}
      {handles : Table HandleRow.id} (hop : op.opensHandle)
      (h : Quiet s used) (hinsert : used.handles.insert row = some handles)
      (hsession : (used.sessions.get row.sessionId).isSome) :
      MountMove s op { used with handles := handles }
  | close {s' : MountState} {handleId : Uuid} (h : Quiet s s')
      (hends : ∀ lock : ByteLockRow, lock.handleId = handleId → op.ends lock) :
      MountMove s op (releaseHandleLocks s' handleId)
  | acquire {row : ByteLockRow} {locks : Table ByteLockRow.id}
      (hhandle : (s.handles.get row.handleId).isSome)
      (hinsert : s.byteLocks.insert row = some locks)
      (hexpires : s.now < row.expiresAt)
      (hconflict : lockConflict s row.target row.offset (row.offset + row.length)
        row.exclusive = false) :
      MountMove s op { s with byteLocks := locks }
  | release {handleId lockId : Uuid} {epoch : ℕ}
      (hends : ∀ lock : ByteLockRow, lock.handleId = handleId →
        lock.id = lockId → op.ends lock) :
      MountMove s op (releaseLock s handleId lockId epoch)

variable {s s' : MountState} {op : MountOperation} {handleId : Uuid}

theorem openMountHandle_move {request : OpenRequest} (hop : op.opensHandle)
    (h : openMountHandle s request = .ok s') : MountMove s op s' := by
  obtain ⟨version, -, h⟩ := bind_eq_ok h
  obtain ⟨-, h⟩ := else_of_ok h
  obtain ⟨handles, rfl, hinsert, hsession⟩ := insertHandle_eq_ok h
  exact .opened hop (.refl s) hinsert hsession

theorem openNfsMountHandle_move {open' : NfsOpenRequest} (hop : op.opensHandle)
    (h : openNfsMountHandle s open' = .ok s') : MountMove s op s' := by
  obtain ⟨version, -, h⟩ := bind_eq_ok h
  have htouch := touchSession_quiet s open'.request.fence.sessionId
  dsimp only at h
  split at h
  · cases h
    exact .quiet htouch
  · obtain ⟨handles, rfl, hinsert, hsession⟩ := insertHandle_eq_ok h
    exact .opened hop htouch hinsert hsession

theorem closeMountHandle_move
    (hends : ∀ lock : ByteLockRow, lock.handleId = handleId → op.ends lock)
    (h : closeMountHandle s sessionId handleId = .ok s') : MountMove s op s' := by
  obtain ⟨closed, hclosed, h⟩ := bind_eq_ok h
  cases h
  exact .close (closeHandle_quiet hclosed) hends

theorem closeNfsMountHandle_move
    (hends : ∀ lock : ByteLockRow, lock.handleId = handleId → op.ends lock)
    (h : closeNfsMountHandle s sessionId handleId replayed admitted = .ok s') :
    MountMove s op s' := by
  unfold closeNfsMountHandle at h
  split at h
  · cases h
    exact .quiet (.refl s)
  · obtain ⟨handle, -, h⟩ := bind_eq_ok h
    exact closeMountHandle_move hends h

theorem releaseNfsByteLock_move
    (hends : ∀ lock : ByteLockRow, lock.handleId = handleId → lock.id = lockId →
      op.ends lock)
    (h : releaseNfsByteLock s fence handleId lockId replayed admitted = .ok s') :
    MountMove s op s' := by
  unfold releaseNfsByteLock at h
  split at h
  · cases h
    exact .quiet (.refl s)
  · obtain ⟨handle, -, h⟩ := bind_eq_ok h
    cases h
    exact .release hends

theorem insertLock_move {row : ByteLockRow} (hexpires : row.expiresAt = s.now + lockLifetime)
    (hconflict : lockConflict s row.target row.offset (row.offset + row.length)
      row.exclusive = false) (h : insertLock s row = .ok s') : MountMove s op s' := by
  obtain ⟨handle, hhandle, h⟩ := bind_eq_ok h
  obtain ⟨locks, hinsert, h⟩ := bind_eq_ok h
  cases h
  refine .acquire ?_ (okOr_eq_ok hinsert) ?_ hconflict
  · rw [okOr_eq_ok hhandle]
    rfl
  · rw [hexpires]
    exact Nat.lt_add_of_pos_right (by decide)

theorem acquireMountByteLock_move {request : LockRequest}
    (h : acquireMountByteLock s request = .ok s') : MountMove s op s' := by
  unfold acquireMountByteLock at h
  split at h
  · cases h
  obtain ⟨offset, -, h⟩ := bind_eq_ok h
  obtain ⟨length, -, h⟩ := bind_eq_ok h
  obtain ⟨stop, hstop, h⟩ := bind_eq_ok h
  obtain ⟨node, -, h⟩ := bind_eq_ok h
  rw [checkedAddI64_inv (okOr_eq_ok hstop)] at h
  obtain ⟨hconflict, h⟩ := else_of_ok h
  exact insertLock_move rfl (Bool.eq_false_iff.mpr hconflict) h

theorem acquireNfsByteLock_move {request : NfsLockRequest} {outcome : NfsOutcome}
    (h : acquireNfsByteLock s request = .ok (outcome, s')) : MountMove s op s' := by
  obtain ⟨stop, hstop, h⟩ := bind_eq_ok h
  rw [checkedAddI64_inv (okOr_eq_ok hstop)] at h
  split at h
  · cases h
  split at h
  · cases h
    exact .quiet (.refl s)
  obtain ⟨handle, -, h⟩ := bind_eq_ok h
  split at h
  · cases h
    exact .quiet (.refl s)
  · next hconflict =>
    obtain ⟨inserted, hinserted, h⟩ := bind_eq_ok h
    cases h
    exact insertLock_move rfl (Bool.eq_false_iff.mpr hconflict) hinserted

theorem mountStep_move (h : mountStep s op = .ok s') : MountMove s op s' := by
  cases op with
  | tick =>
    cases h
    exact .tick rfl
  | database =>
    obtain ⟨db, hdb, h⟩ := bind_eq_ok h
    cases h
    exact .database rfl hdb
  | administer =>
    cases h
    exact .quiet (.of_same rfl rfl rfl rfl rfl)
  | createSession => exact .quiet (createMountSession_quiet h)
  | createNfsSession => exact .quiet (createNfsSession_quiet h)
  | admitSession =>
    obtain ⟨⟨fence, admittedState⟩, hadmit, h⟩ := bind_eq_ok h
    cases h
    exact .quiet (admitMountSession_quiet hadmit)
  | endSession => exact .quiet (endMountSession_quiet h)
  | revokeSessions =>
    cases h
    exact .quiet (endSessions_quiet s _ _)
  | drainGateway =>
    exact .quiet (drainMountGatewayEpoch_quiet h)
  | openHandle => exact openMountHandle_move rfl h
  | openNfsHandle => exact openNfsMountHandle_move rfl h
  | admitHandle =>
    obtain ⟨⟨handle, admittedState⟩, hadmit, h⟩ := bind_eq_ok h
    cases h
    exact .quiet (admitMountHandle_quiet hadmit)
  | closeHandle =>
    refine closeMountHandle_move ?_ h
    intro lock hlock
    exact decide_eq_true hlock.symm
  | closeNfsHandle =>
    refine closeNfsMountHandle_move ?_ h
    intro lock hlock
    exact decide_eq_true hlock.symm
  | acquireLock => exact acquireMountByteLock_move h
  | acquireNfsLock =>
    obtain ⟨⟨outcome, acquired⟩, hacquire, h⟩ := bind_eq_ok h
    cases h
    exact acquireNfsByteLock_move hacquire
  | releaseLock =>
    obtain ⟨lock, -, h⟩ := bind_eq_ok h
    cases h
    refine .release ?_
    intro lock hhandle hid
    exact decide_eq_true ⟨hhandle.symm, hid.symm⟩
  | releaseNfsLock =>
    refine releaseNfsByteLock_move ?_ h
    intro lock hhandle hid
    exact decide_eq_true ⟨hhandle.symm, hid.symm⟩

end FileBelt.Mount
