import FileBelt.Tree.LiveNode
import FileBelt.Vfs.Handles

/-!
# Admission of an action on an open handle

Every action of a stored handle was granted when the handle was opened.  As long as no
proper ancestor of the node is moved or trashed, the generations that admission
compares show that the node is live and that the evaluator still allows the action.
-/

namespace FileBelt.Vfs

open Support Mount

/-- The same database and users of sessions, and no new live handles. -/
structure HandleFrame (s s' : MountState) : Prop where
  db : s'.db = s.db
  users : Table.Advances MountSessionRow.SameUser s.sessions s'.sessions
  rows : ∀ handle' ∈ s'.handles.rows, handle'.live s'.now →
    ∃ handle ∈ s.handles.rows, handle.live s.now ∧
      handle' = { handle with expiresAt := handle'.expiresAt }

variable {namespaceGeneration i : ℕ} {fence : MountSessionFence} {request : OpenRequest}
  {verdict : NfsVerdict} {task task' : OpenTask} {op : MountOperation} {handle : HandleRow}
  {handleId sessionId : Uuid} {call : OpenCall} {m s' : MountState}

section

variable {s s' : MountState}

theorem handleFrame_of_quiet (h : Quiet s s') : HandleFrame s s' := by
  refine ⟨h.db, h.users, ?_⟩
  rw [h.now]
  exact h.rows

theorem handleFrame_locks (s : MountState) (locks : Table ByteLockRow.id) :
    HandleFrame s { s with byteLocks := locks } :=
  ⟨rfl, Table.advances_refl .refl _, Quiet.rows_refl s⟩

theorem HandleFrame.locks {s : MountState} (h : HandleFrame s s') (locks : Table ByteLockRow.id) :
    HandleFrame s { s' with byteLocks := locks } :=
  ⟨h.db, h.users, h.rows⟩

theorem handleFrame_tick (s : MountState) (duration : ℕ) :
    HandleFrame s { s with now := s.now + duration } := by
  refine ⟨rfl, Table.advances_refl .refl _, ?_⟩
  intro handle hmem hlive
  refine ⟨handle, hmem, ?_, rfl⟩
  obtain ⟨hopen, hexpires⟩ := of_decide_eq_true hlive
  dsimp only at hexpires
  exact decide_eq_true ⟨hopen, by omega⟩

/-- A transaction that opens no handle is a database step or a frame. -/
theorem mountStep_frame (hop : op.opensHandle = false) (h : mountStep s op = .ok s') :
    HandleFrame s s' ∨ ∃ dbOp db, op = .database dbOp ∧
      Database.step s.db dbOp = .ok db ∧ s' = { s with db := db } := by
  cases mountStep_move h with
  | tick => exact .inl (handleFrame_tick s _)
  | database hop hstep => exact .inr ⟨_, _, hop, hstep, rfl⟩
  | quiet hquiet => exact .inl (handleFrame_of_quiet hquiet)
  | opened hopens =>
    rw [hop] at hopens
    cases hopens
  | close hquiet =>
    exact .inl ((handleFrame_of_quiet hquiet).locks _)
  | acquire =>
    exact .inl (handleFrame_locks s _)
  | release => exact .inl (handleFrame_locks s _)

end

/-- A grant of an earlier database.  While `current` holds, the ancestors are the same. -/
def Granted (db : Database.State) (user : PrincipalId) (target : Target)
    (membership driveAcl resourceAcl : ℕ) (action : Action) (current : Prop) : Prop :=
  ∃ before grant, Database.State.PolicyTracked before db ∧
    db.space.HasNode target.driveId target.nodeId ∧
    authorize before user target.driveId target.nodeId action = .ok grant ∧
    membership ≤ grant.membershipGeneration ∧
    grant.driveAclGeneration = driveAcl ∧
    grant.resourceAclGeneration = resourceAcl ∧
    (current → db.space.ancestorRows target.driveId target.nodeId =
      before.space.ancestorRows target.driveId target.nodeId)

section

variable {db db' : Database.State} {user : PrincipalId} {target : Target}
  {membership driveAcl resourceAcl : ℕ} {action : Action} {current current' : Prop}

theorem granted_of_authorize (hinv : db.PolicyInvariant) {grant : AuthorizationGrant}
    (h : authorize db user target.driveId target.nodeId action = .ok grant)
    (hmembership : membership ≤ grant.membershipGeneration) :
    Granted db user target membership grant.driveAclGeneration
      grant.resourceAclGeneration action current :=
  ⟨db, grant, Database.policyTracked_refl hinv, (authorize_rows h).1, h,
    hmembership, rfl, rfl, fun _ => rfl⟩

theorem Granted.step {op : Database.Operation} (hinv : db.PolicyInvariant)
    (h : Granted db user target membership driveAcl resourceAcl action current)
    (hstep : Database.step db op = .ok db')
    (hcurrent : db.space.HasNode target.driveId target.nodeId → current' →
      current ∧ db'.space.ancestorRows target.driveId target.nodeId =
        db.space.ancestorRows target.driveId target.nodeId) :
    Granted db' user target membership driveAcl resourceAcl action current' := by
  obtain ⟨before, grant, htracked, hnode, hgrant, hmembership, hdrive, hresource, hancestry⟩ := h
  have hlater := Database.step_tracked hinv hstep
  refine ⟨before, grant, htracked.trans hlater.toPolicyTracked,
    hlater.nodes hnode, hgrant, hmembership, hdrive, hresource, ?_⟩
  intro hnow
  obtain ⟨hbefore, hsame⟩ := hcurrent hnode hnow
  exact hsame.trans (hancestry hbefore)

/-- A grant whose generations are current is one of this database. -/
theorem Granted.authorize
    (h : Granted db user target membership driveAcl resourceAcl action current) (hcurrent : current)
    {r : Database.PrincipalRow} {d : Database.DriveRow} {n : Database.NodeRow}
    (hr : db.principals.get user = some r) (hd : db.drives.get target.driveId = some d)
    (hn : db.node target.driveId target.nodeId = some n) (hmembership : r.generation = membership)
    (hdrive : d.aclGeneration = driveAcl) (hresource : n.aclGeneration = resourceAcl)
    (henabled : Database.principalEnabled db user) :
    ∃ grant, authorize db user target.driveId target.nodeId action = .ok grant := by
  obtain ⟨before, grant, htracked, -, hgrant, hle, rfl, rfl, hancestry⟩ := h
  refine authorize_of_tracked htracked hgrant hr hd hn ?_ hdrive hresource
    (hancestry hcurrent) henabled
  -- the principal of the grant is an earlier version of the current one
  obtain ⟨-, r₀, hr₀, hgeneration⟩ := authorize_rows hgrant
  obtain ⟨r', hr', hlater, -⟩ := htracked.advances.principals user r₀ hr₀
  obtain rfl := Option.some.inj (hr'.symm.trans hr)
  omega

end

/-! ## The invariant -/

/-- The node still has the generation of the handle. -/
def AtGeneration (db : Database.State) (handle : HandleRow) : Prop :=
  ∃ n, db.node handle.target.driveId handle.target.nodeId = some n ∧
    n.namespaceGeneration = handle.namespaceGeneration

/-- Every action was granted, and the node is live at the generation of the handle. -/
structure HandleSound (s : MountState) (handle : HandleRow) : Prop where
  node : ∃ n, s.db.node handle.target.driveId handle.target.nodeId = some n ∧
    handle.namespaceGeneration ≤ n.namespaceGeneration ∧
    (n.namespaceGeneration = handle.namespaceGeneration → n.trashRootId = none)
  actions : ∃ session, s.sessions.get handle.sessionId = some session ∧
    ∀ action ∈ handle.accessActions, ∃ common, commonAction action = some common ∧
      Granted s.db session.userPrincipalId handle.target
        handle.membershipGeneration handle.driveAclGeneration
        handle.resourceAclGeneration common (AtGeneration s.db handle)

/-- The authorized actions of an open on its way were granted, and its node has
not moved since. -/
structure TaskSound (s : MountState) (task : OpenTask) : Prop where
  session : ∃ session, s.sessions.get task.fence.sessionId = some session ∧
    session.userPrincipalId = task.fence.userPrincipalId
  member : ∃ r, s.db.principals.get task.fence.userPrincipalId = some r ∧
    task.fence.membershipGeneration ≤ r.generation
  actions : ∀ action ∈ task.actions, ∃ grant common, task.grant = some grant ∧
    commonAction action = some common ∧
    Granted s.db task.fence.userPrincipalId task.call.target
      task.fence.membershipGeneration grant.driveAclGeneration
      grant.resourceAclGeneration common True

/-- Every live handle is entitled to its actions. -/
def HandlesSound (s : MountState) : Prop :=
  ∀ handle ∈ s.handles.rows, handle.live s.now → HandleSound s handle

/-- The invariant of the server. -/
structure VfsSound (s : VfsState) : Prop where
  policy : s.mount.db.PolicyInvariant
  tasks : ∀ task ∈ s.tasks, TaskSound s.mount task
  handles : ∀ handle ∈ s.mount.handles.rows,
    handle.live s.mount.now → HandleSound s.mount handle

/-! ### Frames -/

section

variable {s s' : MountState}

theorem TaskSound.frame (h : TaskSound s task) (hdb : s'.db = s.db)
    (husers : Table.Advances MountSessionRow.SameUser s.sessions s'.sessions) :
    TaskSound s' task := by
  obtain ⟨session, hsession, huser⟩ := h.session
  obtain ⟨session', hsession', hsame⟩ := husers _ session hsession
  refine ⟨⟨session', hsession', Eq.trans hsame huser⟩, ?_, ?_⟩
  · rw [hdb]
    exact h.member
  · rw [hdb]
    exact h.actions

theorem HandleSound.frame (h : HandleSound s handle) (hdb : s'.db = s.db)
    (husers : Table.Advances MountSessionRow.SameUser s.sessions s'.sessions) (expiresAt : ℕ) :
    HandleSound s' { handle with expiresAt := expiresAt } := by
  obtain ⟨session, hsession, hactions⟩ := h.actions
  obtain ⟨session', hsession', hsame⟩ := husers _ session hsession
  constructor
  · rw [hdb]
    exact h.node
  · refine ⟨session', hsession', ?_⟩
    rw [hdb, hsame]
    exact hactions

theorem handles_frame (hframe : HandleFrame s s') (hs : HandlesSound s) : HandlesSound s' := by
  intro handle' hmem hlive
  obtain ⟨handle, hmem, hlive, hsame⟩ := hframe.rows handle' hmem hlive
  rw [hsame]
  exact (hs handle hmem hlive).frame hframe.db hframe.users _

/-! ### Database steps -/

variable {op : Database.Operation} {db : Database.State}

theorem TaskSound.step (hinv : s.db.PolicyInvariant) (h : TaskSound s task)
    (hstep : Database.step s.db op = .ok db) (hpath : task.actions = [] ∨ Database.regrafts s.db
      task.call.target.driveId task.call.target.nodeId op = false) :
    TaskSound { s with db := db } task := by
  refine ⟨h.session, ?_, ?_⟩
  · obtain ⟨r, hr, hle⟩ := h.member
    have hlater := (Database.step_tracked hinv hstep).advances
    obtain ⟨r', hr', hgeneration, -⟩ := hlater.principals _ r hr
    exact ⟨r', hr', hle.trans hgeneration⟩
  · intro action haction
    have hstays : Database.regrafts s.db task.call.target.driveId
        task.call.target.nodeId op = false := by
      rcases hpath with hnil | hstays
      · rw [hnil] at haction
        cases haction
      · exact hstays
    obtain ⟨grant, common, hgrant, hcommon, hgranted⟩ := h.actions action haction
    refine ⟨grant, common, hgrant, hcommon, hgranted.step hinv hstep ?_⟩
    intro hnode _
    exact ⟨trivial, Database.ancestorRows_step hstep hnode hstays⟩

theorem HandleSound.step (hinv : s.db.PolicyInvariant) (h : HandleSound s handle)
    (hstep : Database.step s.db op = .ok db)
    (htaken : Database.takesAlong s.db handle.target.driveId handle.target.nodeId op = false)
    (hmoves : Database.movesAncestor s.db handle.target.driveId handle.target.nodeId op = false) :
    HandleSound { s with db := db } handle := by
  obtain ⟨n, hn, hle, hlive⟩ := h.node
  obtain ⟨n', hn', hlives⟩ := Database.step_lives hstep hn
  have hmono := hlives.namespaceGeneration
  constructor
  · refine ⟨n', hn', hle.trans hmono, ?_⟩
    intro hsame
    refine hlives.live ?_ (by omega) (hlive (by omega))
    rw [htaken]
    exact Bool.false_ne_true
  · obtain ⟨session, hsession, hactions⟩ := h.actions
    refine ⟨session, hsession, ?_⟩
    intro action haction
    obtain ⟨common, hcommon, hgranted⟩ := hactions action haction
    refine ⟨common, hcommon, hgranted.step hinv hstep ?_⟩
    rintro - ⟨m, hm, hsame⟩
    obtain rfl := Option.some.inj (hn'.symm.trans hm)
    refine ⟨⟨n, hn, by omega⟩, ?_⟩
    exact Database.ancestorRows_of_generation hstep hn hn' hmoves (by omega)

end

/-! ### Opening -/

/-- A new handle on a live node at the requested generation. -/
structure Opened (s : MountState) (request : OpenRequest) (s' : MountState) : Prop where
  node : ∃ n, s.db.node request.target.driveId request.target.nodeId = some n ∧
    n.trashRootId = none ∧ n.namespaceGeneration = request.namespaceGeneration
  inserted : ∃ used handles version expiresAt, HandleFrame s used ∧
    used.handles.insert (request.row version expiresAt) = some handles ∧
    s' = { used with handles := handles }

section

variable {s s' : MountState} {task : OpenTask} {grant : AuthorizationGrant}

theorem nodeForOpen_live {db : Database.State} {node : Database.NodeRow} {drive : Database.DriveRow}
    (h : nodeForOpen db request.target = .ok (node, drive))
    (hstale : openStale request node drive = false) :
    ∃ n, db.node request.target.driveId request.target.nodeId = some n ∧ n.trashRootId = none ∧
      n.namespaceGeneration = request.namespaceGeneration := by
  obtain ⟨n, hn, h⟩ := bind_eq_ok h
  obtain ⟨d, -, h⟩ := bind_eq_ok h
  obtain ⟨rfl, -⟩ := Prod.mk.inj (Except.ok.inj h)
  obtain ⟨hget, hlive⟩ := Option.filter_eq_some_iff.mp (okOr_eq_ok hn)
  simp only [openStale, decide_eq_false_iff_not, not_or, not_not] at hstale
  exact ⟨n, hget, (of_decide_eq_true hlive).2, hstale.2.2.2.1⟩

theorem openMountHandle_opened (h : openMountHandle s request = .ok s') : Opened s request s' := by
  obtain ⟨version, hlock, h⟩ := bind_eq_ok h
  obtain ⟨-, h⟩ := else_of_ok h
  obtain ⟨handles, rfl, hinsert, -⟩ := insertHandle_eq_ok h
  refine ⟨?_, s, handles, _, _, ?_, hinsert, rfl⟩
  · obtain ⟨-, hlock⟩ := else_of_ok hlock
    obtain ⟨⟨node, drive⟩, hnode, hlock⟩ := bind_eq_ok hlock
    obtain ⟨hstale, hlock⟩ := else_of_ok hlock
    exact nodeForOpen_live hnode (Bool.eq_false_iff.mpr hstale)
  · exact handleFrame_of_quiet (Quiet.of_same rfl rfl rfl rfl rfl)

theorem openNfsMountHandle_opened {open' : NfsOpenRequest}
    (h : openNfsMountHandle s open' = .ok s') : HandleFrame s s' ∨ Opened s open'.request s' := by
  obtain ⟨version, hlock, h⟩ := bind_eq_ok h
  have htouch := handleFrame_of_quiet (touchSession_quiet s open'.request.fence.sessionId)
  dsimp only at h
  split at h
  · cases h
    exact .inl htouch
  · obtain ⟨handles, rfl, hinsert, -⟩ := insertHandle_eq_ok h
    refine .inr ⟨?_, _, handles, _, _, htouch, hinsert, rfl⟩
    obtain ⟨-, hlock⟩ := else_of_ok hlock
    obtain ⟨-, -, hlock⟩ := bind_eq_ok hlock
    obtain ⟨⟨node, drive⟩, hnode, hlock⟩ := bind_eq_ok hlock
    obtain ⟨hcurrent, hlock⟩ := else_of_ok hlock
    rw [not_or] at hcurrent
    exact nodeForOpen_live hnode (Bool.eq_false_iff.mpr hcurrent.1)

theorem OpenTask.store_opened (h : task.store grant verdict s = .ok s') :
    HandleFrame s s' ∨ ∃ namespaceGeneration,
      Opened s (task.request grant namespaceGeneration) s' := by
  unfold OpenTask.store at h
  split at h
  · rcases openNfsMountHandle_opened h with hframe | hopened
    · exact .inl hframe
    · exact .inr ⟨_, hopened⟩
  · exact .inr ⟨_, openMountHandle_opened h⟩

theorem TaskSound.stored (h : TaskSound s task) (hgrant : task.grant = some grant)
    (version : Option Uuid) (expiresAt : ℕ)
    (hnode : ∃ n, s.db.node task.call.target.driveId task.call.target.nodeId = some n ∧
      n.trashRootId = none ∧ n.namespaceGeneration = namespaceGeneration) :
    HandleSound s ((task.request grant namespaceGeneration).row version expiresAt) := by
  obtain ⟨n, hn, hlive, hgeneration⟩ := hnode
  refine ⟨⟨n, hn, hgeneration.symm.le, fun _ => hlive⟩, ?_⟩
  obtain ⟨session, hsession, huser⟩ := h.session
  refine ⟨session, hsession, ?_⟩
  intro action haction
  obtain ⟨grant', common, hgrant', hcommon, hgranted⟩ := h.actions action haction
  obtain rfl := Option.some.inj (hgrant'.symm.trans hgrant)
  rw [huser]
  refine ⟨common, hcommon, ?_⟩
  obtain ⟨before, earlier, htracked, hhas, hauthorize, hmembership, hdrive,
    hresource, hancestry⟩ := hgranted
  exact ⟨before, earlier, htracked, hhas, hauthorize, hmembership, hdrive,
    hresource, fun _ => hancestry trivial⟩

theorem handles_opened (htask : TaskSound s task) (hgrant : task.grant = some grant)
    (hopened : Opened s (task.request grant namespaceGeneration) s') (hs : HandlesSound s) :
    s'.db = s.db ∧ Table.Advances MountSessionRow.SameUser s.sessions s'.sessions ∧
      HandlesSound s' := by
  obtain ⟨used, handles, version, expiresAt, hframe, hinsert, rfl⟩ := hopened.inserted
  refine ⟨hframe.db, hframe.users, ?_⟩
  intro handle hmem hlive
  rw [(Table.insert_eq_some hinsert).2, List.mem_append, List.mem_singleton] at hmem
  rcases hmem with hold | rfl
  · obtain ⟨handle₀, hmem₀, hlive₀, hsame⟩ := hframe.rows handle hold hlive
    rw [hsame]
    refine (hs handle₀ hmem₀ hlive₀).frame ?_ ?_ _
    · exact hframe.db
    · exact hframe.users
  · refine (htask.stored hgrant version expiresAt hopened.node).frame ?_ ?_ expiresAt
    · exact hframe.db
    · exact hframe.users

end

/-! ## Runs -/

/-- No proper ancestor of the node of a live handle is moved or trashed, and no node is
moved between the authorization and the storing of its open. -/
def keepsPath (s : VfsState) : VfsEvent → Bool
  | .mount (.database op) =>
    (s.tasks.all fun task => task.actions.isEmpty ||
      !Database.regrafts s.mount.db task.call.target.driveId task.call.target.nodeId op) &&
    s.mount.handles.rows.all fun handle => !handle.live s.mount.now ||
      (!Database.takesAlong s.mount.db handle.target.driveId handle.target.nodeId op &&
        !Database.movesAncestor s.mount.db handle.target.driveId handle.target.nodeId op)
  | _ => true

section

variable {s s' : VfsState} {admitted : Bool}

theorem VfsSound.frame (hs : VfsSound s) {tasks : List OpenTask} (hdb : m.db = s.mount.db)
    (husers : Table.Advances MountSessionRow.SameUser s.mount.sessions m.sessions)
    (hhandles : HandlesSound m) (htasks : tasks ⊆ s.tasks) : VfsSound ⟨m, tasks⟩ := by
  refine ⟨?_, fun task htask => (hs.tasks task (htasks htask)).frame hdb husers, hhandles⟩
  rw [hdb]
  exact hs.policy

theorem VfsSound.eraseTask (hs : VfsSound s) (i : ℕ) : VfsSound ⟨s.mount, s.tasks.eraseIdx i⟩ :=
  ⟨hs.policy, fun task htask => hs.tasks task (List.mem_of_mem_eraseIdx htask), hs.handles⟩

theorem beginOpen_sound (hs : VfsSound s) (h : beginOpen s call sessionId admitted = .ok s') :
    VfsSound s' := by
  obtain ⟨⟨fence, mount⟩, hadmit, h⟩ := bind_eq_ok h
  cases h
  have hadmit := denied_eq_ok hadmit
  have hframe := handleFrame_of_quiet (admitMountSession_quiet hadmit)
  refine ⟨?_, ?_, handles_frame hframe hs.handles⟩
  · rw [hframe.db]
    exact hs.policy
  · intro task htask
    rcases List.mem_append.mp htask with hold | hnew
    · exact (hs.tasks task hold).frame hframe.db hframe.users
    · rw [List.mem_singleton.mp hnew]
      refine TaskSound.frame ?_ hframe.db hframe.users
      obtain ⟨session, hsession, hadmit⟩ := bind_eq_ok hadmit
      obtain ⟨hget, hchecks⟩ := Option.filter_eq_some_iff.mp (okOr_eq_ok hsession)
      rw [← (Prod.mk.inj (Except.ok.inj hadmit)).1]
      have hkey : session.id = sessionId := Table.get_key hget
      obtain ⟨r, hr, hcurrent⟩ := (Option.any_eq_true _ _).mp (of_decide_eq_true hchecks).2.2
      refine ⟨⟨session, ?_, rfl⟩, ⟨r, hr, ?_⟩, ?_⟩
      · rw [hkey]
        exact hget
      · exact (of_decide_eq_true hcurrent).2.symm.le
      · intro action haction
        cases haction

theorem commonAction_of_call {action : HandleAction} {common : Action}
    (h : call.action action = some common) : commonAction action = some common := by
  unfold OpenCall.action at h
  split at h
  · cases action <;> first | exact h | cases h
  · exact h

/-- One more action is granted now; the grants before it are the same. -/
theorem TaskSound.authorize (hinv : m.db.PolicyInvariant) (h : TaskSound m task)
    (hauthorize : task.authorize m.db admitted = some task') : TaskSound m task' := by
  unfold OpenTask.authorize at hauthorize
  split at hauthorize
  · cases hauthorize
  · obtain ⟨common, hcommon, hauthorize⟩ := Option.bind_eq_some_iff.mp hauthorize
    split at hauthorize
    · cases hauthorize
    obtain ⟨grant, hgrant, hauthorize⟩ := Option.bind_eq_some_iff.mp hauthorize
    split at hauthorize
    · cases hauthorize
    next hagree =>
      rw [← Option.some.inj hauthorize]
      have hok := toOption_eq_some hgrant
      refine ⟨h.session, h.member, ?_⟩
      intro other hother
      refine ⟨grant, ?_⟩
      rcases List.mem_append.mp hother with hold | hnew
      · obtain ⟨grant', common', hgrant', hcommon', hgranted⟩ := h.actions other hold
        have hsame : grant' = grant := by
          by_contra hne
          exact hagree (by simp [hgrant', hne])
        rw [← hsame]
        exact ⟨common', rfl, hcommon', hgranted⟩
      · rw [List.mem_singleton.mp hnew]
        refine ⟨common, rfl, commonAction_of_call hcommon, ?_⟩
        obtain ⟨r, hr, hle⟩ := h.member
        obtain ⟨-, r', hr', hgeneration⟩ := authorize_rows hok
        obtain rfl := Option.some.inj (hr.symm.trans hr')
        exact granted_of_authorize hinv hok (hgeneration ▸ hle)

theorem authorizeNext_sound (hs : VfsSound s) (h : authorizeNext s i admitted = .ok s') :
    VfsSound s' := by
  unfold authorizeNext at h
  split at h
  · cases h
  · next task htask =>
    have hsound := hs.tasks task (List.mem_of_getElem? htask)
    split at h
    · next task' htask' =>
      cases h
      refine ⟨hs.policy, ?_, hs.handles⟩
      intro other hother
      rcases List.mem_or_eq_of_mem_set hother with hold | rfl
      · exact hs.tasks other hold
      · exact hsound.authorize hs.policy htask'
    · cases h
      exact hs.eraseTask i

theorem finishOpen_sound (hs : VfsSound s) (h : finishOpen s i verdict = .ok s') : VfsSound s' := by
  unfold finishOpen at h
  split at h
  · cases h
  · next task htask =>
    have hsound := hs.tasks task (List.mem_of_getElem? htask)
    split at h
    · next grant _ hgrant =>
      split at h
      · next mount hstore =>
        cases h
        have herase := hs.eraseTask i
        rcases OpenTask.store_opened hstore with hframe | ⟨_, hopened⟩
        · exact herase.frame hframe.db hframe.users (handles_frame hframe hs.handles)
            (List.Subset.refl _)
        · obtain ⟨hdb, husers, hhandles⟩ := handles_opened hsound hgrant hopened hs.handles
          exact herase.frame hdb husers hhandles (List.Subset.refl _)
      · cases h
        exact hs.eraseTask i
    · cases h

theorem mount_sound (hs : VfsSound s) (hpath : keepsPath s (.mount op))
    (h : vfsStep s (.mount op) = .ok s') : VfsSound s' := by
  obtain ⟨hopens, h⟩ := else_of_ok h
  obtain ⟨mount, hmount, h⟩ := bind_eq_ok h
  cases h
  rcases mountStep_frame (Bool.eq_false_iff.mpr hopens)
      (denied_eq_ok hmount) with hframe | ⟨dbOp, db, rfl, hstep, rfl⟩
  · exact hs.frame hframe.db hframe.users (handles_frame hframe hs.handles) (List.Subset.refl _)
  · simp only [keepsPath, Bool.and_eq_true, List.all_eq_true,
      Bool.or_eq_true, Bool.not_eq_true', List.isEmpty_iff] at hpath
    refine ⟨(Database.step_tracked hs.policy hstep).invariant, ?_, ?_⟩
    · intro task htask
      exact (hs.tasks task htask).step hs.policy hstep (hpath.1 task htask)
    · intro handle hmem hlive
      have hkept := (hpath.2 handle hmem).resolve_left (by simp [hlive])
      exact (hs.handles handle hmem hlive).step hs.policy hstep hkept.1 hkept.2

theorem vfsStep_sound (hs : VfsSound s) {event : VfsEvent} (hpath : keepsPath s event)
    (h : vfsStep s event = .ok s') : VfsSound s' := by
  cases event with
  | beginOpen => exact beginOpen_sound hs h
  | authorizeNext => exact authorizeNext_sound hs h
  | finishOpen => exact finishOpen_sound hs h
  | mount => exact mount_sound hs hpath h

theorem vfsSound_empty : VfsSound .empty := by
  refine ⟨Database.policyInvariant_empty, ?_, ?_⟩
  · intro task htask
    cases htask
  · intro handle hmem
    cases hmem

theorem vfsReached_sound {events : List VfsEvent}
    (hevents : Meets vfsStep (fun s event => keepsPath s event) .empty events) :
    VfsSound (vfsReached events) :=
  run_invariant (fun _ _ _ hs hpath hstep => vfsStep_sound hs hpath hstep) vfsSound_empty hevents

end

/-! ## Admission -/

/-- The node is live, and the evaluator allows the user of the session the action. -/
def Entitled (s : MountState) (handle : HandleRow) (action : HandleAction) : Prop :=
  ∃ session n common grant, s.sessions.get handle.sessionId = some session ∧
    s.db.node handle.target.driveId handle.target.nodeId = some n ∧
    n.trashRootId = none ∧ commonAction action = some common ∧
    authorize s.db session.userPrincipalId handle.target.driveId
      handle.target.nodeId common = .ok grant

/-- The user of the session, if it has an account, has an active one. -/
def accountActive (s : MountState) (sessionId : Uuid) : Bool :=
  (s.sessions.get sessionId).all fun session =>
    let users := s.db.users.rows.filter fun user =>
      user.principalId = session.userPrincipalId
    users.isEmpty || users.any fun user => user.status = .active

variable {s : MountState} {handle : HandleRow} {action : HandleAction}

theorem entitled_of_fenced (hsound : HandleSound s handle) (hholds : handle.holds action)
    (hfenced : handleFenced s handle) (hactive : accountActive s handle.sessionId) :
    Entitled s handle action := by
  obtain ⟨session, hsession, hfenced⟩ := (Option.any_eq_true _ _).mp hfenced
  simp only [Bool.and_eq_true] at hfenced
  obtain ⟨⟨⟨⟨-, hprincipal⟩, -⟩, -⟩, hresource⟩ := hfenced
  obtain ⟨r, hr, hmember⟩ := (Option.any_eq_true _ _).mp hprincipal
  obtain ⟨hdisabled, hmembership⟩ := of_decide_eq_true hmember
  simp only [resourceCurrent, Bool.and_eq_true] at hresource
  obtain ⟨d, hd, hdrive⟩ := (Option.any_eq_true _ _).mp hresource.1
  obtain ⟨n, hn, hgenerations⟩ := (Option.any_eq_true _ _).mp hresource.2
  obtain ⟨hnamespace, hacl⟩ := of_decide_eq_true hgenerations
  obtain ⟨n', hn', -, hlive⟩ := hsound.node
  obtain rfl := Option.some.inj (hn.symm.trans hn')
  obtain ⟨session', hsession', hactions⟩ := hsound.actions
  obtain rfl := Option.some.inj (hsession.symm.trans hsession')
  obtain ⟨common, hcommon, hgranted⟩ := hactions action (List.contains_iff_mem.mp hholds)
  have henabled : Database.principalEnabled s.db session.userPrincipalId =
      true := by
    rw [accountActive, hsession, Option.all_some, Bool.or_eq_true, List.isEmpty_iff] at hactive
    refine decide_eq_true ⟨?_, hactive⟩
    rw [hr]
    exact decide_eq_true hdisabled
  obtain ⟨grant, hgrant⟩ := hgranted.authorize ⟨n, hn, hnamespace⟩ hr hd hn
    hmembership (of_decide_eq_true hdrive) hacl henabled
  exact ⟨session, n, common, grant, hsession, hn, hlive hnamespace, hcommon, hgrant⟩

theorem admitMountHandle_eq_ok (h : admitMountHandle s fence handleId action = .ok (handle, s')) :
    handle ∈ s.handles.rows ∧ handle.live s.now ∧
      handle.holds action ∧ handleFenced s handle := by
  obtain ⟨stored, hstored, h⟩ := bind_eq_ok h
  obtain ⟨rfl, -⟩ := Prod.mk.inj (Except.ok.inj h)
  obtain ⟨hget, hadmits⟩ := Option.filter_eq_some_iff.mp (okOr_eq_ok hstored)
  simp only [admitsHandle, Bool.and_eq_true] at hadmits
  exact ⟨(Table.get_eq_some.mp hget).1, hadmits.1.1.1, hadmits.1.1.2, hadmits.2⟩

theorem admitMountReadCapability_eq_ok {capability : MountReadCapabilityFence}
    (h : admitMountReadCapability s capability = .ok handle) :
    handle ∈ s.handles.rows ∧ handle.live s.now ∧
      handle.holds .readContent ∧ handleFenced s handle := by
  obtain ⟨hget, hadmits⟩ := Option.filter_eq_some_iff.mp (okOr_eq_ok h)
  simp only [Bool.and_eq_true] at hadmits
  exact ⟨(Table.get_eq_some.mp hget).1, hadmits.1.1.1.1, hadmits.1.1.1.2, hadmits.1.2⟩

/-- In every run that moves and trashes no proper ancestor of an open node, an
action is admitted on a handle only if the node is live and the evaluator allows
the user of the session the action in the same state. -/
theorem admitted_action_entitled {events : List VfsEvent}
    (hevents : Meets vfsStep (fun s event => keepsPath s event) .empty
      events) :
    (∀ (fence : MountSessionFence) (handleId : Uuid) (action : HandleAction)
      (handle : HandleRow) (admitted : MountState),
      admitMountHandle (vfsReached events).mount fence handleId action =
        .ok (handle, admitted) →
      accountActive (vfsReached events).mount handle.sessionId →
      Entitled (vfsReached events).mount handle action) ∧
    ∀ (capability : MountReadCapabilityFence) (handle : HandleRow),
      admitMountReadCapability (vfsReached events).mount capability =
        .ok handle →
      accountActive (vfsReached events).mount handle.sessionId →
      Entitled (vfsReached events).mount handle .readContent := by
  have hsound := vfsReached_sound hevents
  constructor
  · intro fence handleId action handle admitted hadmit hactive
    obtain ⟨hmem, hlive, hholds, hfenced⟩ := admitMountHandle_eq_ok hadmit
    exact entitled_of_fenced (hsound.handles handle hmem hlive) hholds hfenced hactive
  · intro capability handle hadmit hactive
    obtain ⟨hmem, hlive, hholds, hfenced⟩ := admitMountReadCapability_eq_ok hadmit
    exact entitled_of_fenced (hsound.handles handle hmem hlive) hholds hfenced hactive

/-- A file, a session of an NFS client and a handle for reading. -/
def openForReading : List VfsEvent :=
  (Database.uploadRun.map fun op => .mount (.database op)) ++ [.mount (.administer
      { credentials :=
          { rows := [⟨20, 1, .nfs, false, 24 * hour, 1, 1, [3], none⟩]
            nodup := by decide }
        policies :=
          { rows := [⟨1, .nfs, true, [3]⟩]
            nodup := by decide }
        gateways := [⟨.nfs, 40, 1, false, 0, 24 * hour⟩]
        devices := .empty }),
    .mount (.createNfsSession
      { request := ⟨30, 20, none, .nfs, 40, 1⟩, gssExpiresAt := 4 * hour
        existing := none, admitted := true }),
    .beginOpen
      { nfs := true, handleId := 50, target := ⟨3, 12⟩
        expectedVersionId := none, requestedActions := [.readContent]
        shareRead := true, shareWrite := true, shareDelete := true } 30 true,
    .authorizeNext 0 true,
    .finishOpen 0 ⟨true, false, false⟩]

def readingHandle : HandleRow where
  id := 50
  sessionId := 30
  target := ⟨3, 12⟩
  versionId := some 22
  accessActions := [.readContent]
  shareRead := true
  shareWrite := true
  shareDelete := true
  credentialGeneration := 1
  authorizationGeneration := 1
  membershipGeneration := 1
  driveAclGeneration := 1
  namespaceGeneration := 2
  resourceAclGeneration := 1
  gatewayEpoch := 1
  expiresAt := 15 * minute
  closed := false

theorem admitMountHandle_of_filter
    (h : (s.handles.get handleId).filter (admitsHandle s fence action) = some handle) :
    admitMountHandle s fence handleId action =
      .ok (handle, writeHandle s (handle.renew s.now)) := by
  rw [admitMountHandle, h]
  rfl

def readerFence : MountSessionFence := ⟨30, 1, 1, 1, 1, 1⟩

def readerCapability : MountReadCapabilityFence := ⟨50, 30, 20, 1, ⟨3, 12⟩, 22, 1, 1, 1, 1, 2, 1, 1⟩

/-- A directory is created beside the open file. -/
def siblingCreated : List VfsEvent := openForReading ++ [.mount (.database Database.createSibling)]

/-- The handle is admitted, and rightly. -/
theorem admitted_action_entitled_siblingCreated :
    (∃ admitted, admitMountHandle (vfsReached siblingCreated).mount readerFence
        50 .readContent = .ok (readingHandle, admitted)) ∧
      Entitled (vfsReached siblingCreated).mount readingHandle
        .readContent := by
  have hevents : Meets vfsStep (fun s event => keepsPath s event) .empty
      siblingCreated := by decide +kernel
  have hactive : accountActive (vfsReached siblingCreated).mount 30 := by
    decide +kernel
  have hadmits : ((vfsReached siblingCreated).mount.handles.get 50).filter
      (admitsHandle (vfsReached siblingCreated).mount readerFence
        .readContent) = some readingHandle := by decide +kernel
  have hadmit := admitMountHandle_of_filter hadmits
  exact ⟨⟨_, hadmit⟩, (admitted_action_entitled hevents).1 readerFence 50
    .readContent readingHandle _ hadmit hactive⟩

/-- The directory of the open file is trashed. -/
def parentTrashed : List VfsEvent := openForReading ++ [.mount (.database Database.trashParent)]

/-- Reads of the trashed file are still admitted. -/
theorem admitted_action_trashed :
    (∃ admitted, admitMountHandle (vfsReached parentTrashed).mount readerFence
        50 .readContent = .ok (readingHandle, admitted)) ∧
      admitMountReadCapability (vfsReached parentTrashed).mount
        readerCapability = .ok readingHandle ∧
      accountActive (vfsReached parentTrashed).mount 30 ∧
      ¬Entitled (vfsReached parentTrashed).mount readingHandle
        .readContent := by
  refine ⟨⟨_, admitMountHandle_of_filter ?_⟩, ?_, ?_, ?_⟩
  · decide +kernel
  · decide +kernel
  · decide +kernel
  · rintro ⟨-, n, -, -, -, hn, hlive, -⟩
    have htrashed : ((vfsReached parentTrashed).mount.db.node 3 12).map
        Database.NodeRow.trashRootId = some (some 10) := by decide +kernel
    have hlookup : (vfsReached parentTrashed).mount.db.node 3 12 = some n := hn
    rw [hlookup, Option.map_some, hlive] at htrashed
    cases htrashed

end FileBelt.Vfs
