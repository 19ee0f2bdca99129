import FileBelt.Mount.ShareModes
import FileBelt.Support.Arena

/-!
# Live handles respect each other's share modes

The access of an open counts from its conflict check on, that of a handle in use from
the update that renews it on.  Together with the live committed handles these are the
claims of a state, and they are pairwise compatible.

A conflict check sees the committed handles only.  It decides about all claims when no
other open of the node is past its own check and every handle of the node under
renewal is still live.
-/

namespace FileBelt.Mount

open Support

/-- What of a handle the share modes are about. -/
structure HandleMode where
  id : Uuid
  target : Target
  accessActions : List HandleAction
  (shareRead shareWrite shareDelete : Bool)

def HandleRow.mode (handle : HandleRow) : HandleMode where
  id := handle.id
  target := handle.target
  accessActions := handle.accessActions
  shareRead := handle.shareRead
  shareWrite := handle.shareWrite
  shareDelete := handle.shareDelete

def OpenRequest.mode (request : OpenRequest) : HandleMode where
  id := request.handleId
  target := request.target
  accessActions := request.accessActions
  shareRead := request.shareRead
  shareWrite := request.shareWrite
  shareDelete := request.shareDelete

variable {opening : Opening} {handle : HandleRow}

namespace HandleMode

/-- The access of `a` is within the share mode of `b`. -/
def Within (a b : HandleMode) : Prop :=
  (.readContent ∈ a.accessActions → b.shareRead) ∧
    (.writeContent ∈ a.accessActions → b.shareWrite) ∧
    (.delete ∈ a.accessActions → b.shareDelete)

/-- The access of each is within the share mode of the other. -/
def Compatible (a b : HandleMode) : Prop := a.Within b ∧ b.Within a

theorem Compatible.symm {a b : HandleMode} (h : a.Compatible b) : b.Compatible a :=
  ⟨h.2, h.1⟩

end HandleMode

/-- The predicate of the conflict check is the negation of compatibility. -/
theorem compatible_of_shareConflict {request : OpenRequest}
    (h : shareConflict request handle = false) : request.mode.Compatible handle.mode := by
  simp only [shareConflict, OpenRequest.wants, HandleRow.holds,
    Bool.or_eq_false_iff, Bool.and_eq_false_imp, Bool.not_eq_false',
    List.contains_iff_mem] at h
  obtain ⟨⟨⟨⟨⟨hread, hread'⟩, hwrite⟩, hwrite'⟩, hdelete⟩, hdelete'⟩ := h
  exact ⟨⟨hread, hwrite, hdelete⟩, ⟨hread', hwrite', hdelete'⟩⟩

theorem Opening.compatible_of_conflict {s : MountState} (h : opening.conflict s = false)
    (hmem : handle ∈ s.handles.rows) (hlive : handle.live s.now)
    (htarget : handle.target = opening.request.target) :
    opening.request.mode.Compatible handle.mode := by
  apply compatible_of_shareConflict
  cases opening with
  | mount =>
    have hnone := List.any_eq_false.mp h handle hmem
    simpa [htarget, hlive, Opening.request] using hnone
  | nfs =>
    have hnone := List.any_eq_false.mp h handle hmem
    simp only [htarget, hlive, Opening.request, true_and,
      decide_eq_true_eq, Bool.or_eq_true, not_or] at hnone
    exact Bool.eq_false_iff.mpr hnone.2

/-- The access that a transaction is about to make visible. -/
def Transaction.claim : Transaction → Option HandleMode
  | .cleared opening _ => some opening.request.mode
  | .inserted row => some row.mode
  | .renewing row => some row.mode
  | _ => none

/-- A renewal of a handle of the node has found, and still finds, it live. -/
def Transaction.renewsLive (s : MountState) (target : Target) : Transaction → Bool
  | .renewing row =>
    row.target = target → (s.handles.get row.id).any (HandleRow.live s.now)
  | _ => true

namespace Machine

variable {m m' : Machine} {i j k : ℕ} {id sessionId : Uuid} {tx tx' tx₂ tx₁ : Transaction}
  {mode : HandleMode} {s : MountState} {row : HandleRow}

/-- Access that is in force or about to be. -/
def Claims (m : Machine) (mode : HandleMode) : Prop :=
  (∃ handle ∈ m.s.handles.rows,
    handle.live m.s.now ∧ handle.mode = mode) ∨
  ∃ tx ∈ m.txs, tx.claim = some mode

/-- No other open of the node is past its conflict check, and renewed handles are live. -/
def checksAlone (m : Machine) : TxEvent → Bool
  | .checkConflict i =>
    match m.txs[i]? with
    | some (.locked opening _) =>
      m.txs.all fun tx =>
        tx.clearedNode ≠ some opening.request.target ∧ tx.renewsLive m.s opening.request.target
    | _ => true
  | _ => true

/-- What the transactions keep at every point of their execution. -/
structure Sound (m : Machine) : Prop where
  compatible : ∀ {a b : HandleMode}, m.Claims a → m.Claims b → a.id ≠ b.id →
    a.target = b.target → a.Compatible b
  /-- A renewed handle is stored with the same mode. -/
  renewing : ∀ {row : HandleRow}, .renewing row ∈ m.txs →
    ∃ handle, m.s.handles.get row.id = some handle ∧ handle.mode = row.mode
  closing : ∀ {row : HandleRow} {nodeLocked : Bool},
    .closing row nodeLocked ∈ m.txs → row.closed
  /-- A handle row is locked by one transaction. -/
  exclusive : ∀ {i j : ℕ} {tx tx' : Transaction} {id : Uuid},
    m.txs[i]? = some tx → m.txs[j]? = some tx' →
    tx.lockedHandle = some id → tx'.lockedHandle = some id → i = j

theorem sound_empty : empty.Sound where
  compatible := by
    rintro a b (⟨handle, hmem, -⟩ | ⟨tx, hmem, -⟩)
    · cases hmem
    · cases hmem
  renewing := by
    intro row hmem
    cases hmem
  closing := by
    intro row nodeLocked hmem
    cases hmem
  exclusive := by
    intro i j tx tx' id hi
    cases hi

/-! ## What one step can do -/

/-- The effects of the statements on the handles and the transactions. -/
inductive Move (m : Machine) : Machine → Prop
  | pass {s : MountState} (hhandles : s.handles = m.s.handles)
      (hnow : m.s.now ≤ s.now) : Move m { m with s := s }
  | begin {tx : Transaction} (hclaim : tx.claim = none)
      (hlocked : tx.lockedHandle = none) : Move m (m.start tx)
  | renew {handle : HandleRow} (hget : m.s.handles.get handle.id = some handle)
      (hlive : handle.live m.s.now)
      (hunlocked : m.handleLocked handle.id = false) :
      Move m (m.start (.renewing (handle.renew m.s.now)))
  | close {row : HandleRow} {nodeLocked : Bool} (hunlocked : m.handleLocked row.id = false)
      (hclosed : row.closed) :
      Move m (m.start (.closing row nodeLocked))
  | proceed {i : ℕ} {tx tx' : Transaction} (hi : m.txs[i]? = some tx)
      (hclaim : tx'.claim = none ∨ tx'.claim = tx.claim)
      (hlocked : tx'.lockedHandle = none) : Move m (m.put i tx')
  | clear {i : ℕ} {opening : Opening} {version : Option Uuid}
      (hi : m.txs[i]? = some (.locked opening version))
      (hconflict : opening.conflict m.s = false)
      (hcleared : ∀ tx ∈ m.txs, tx.clearedNode ≠ some opening.request.target)
      (hrenews : ∀ tx ∈ m.txs, tx.renewsLive m.s opening.request.target) :
      Move m (m.put i (.cleared opening version))
  | publish {i : ℕ} {row : HandleRow} {handles : Table HandleRow.id}
      (hi : m.txs[i]? = some (.inserted row))
      (hinsert : m.s.handles.insert row = some handles) :
      Move m ({ m with s := { m.s with handles := handles } }.put i (.ended none))
  | write {i : ℕ} {tx : Transaction} {row : HandleRow} {s : MountState}
      (hi : m.txs[i]? = some tx) (htx : tx.lockedHandle = some row.id)
      (hrow : tx.claim = some row.mode ∨ ∃ nodeLocked, tx = .closing row nodeLocked)
      (hhandles : s.handles = (writeHandle m.s row).handles)
      (hnow : s.now = m.s.now) :
      Move m ({ m with s := s }.put i (.ended none))

theorem lockNode_move (h : m.lockNode i = .ok m') : m.Move m' := by
  unfold lockNode at h
  split at h
  · next opening hi =>
    obtain ⟨-, h⟩ := else_of_ok h
    split at h
    · cases h
      exact .proceed hi (.inl rfl) rfl
    · cases h
      exact .proceed hi (.inl rfl) rfl
  · cases h

theorem checkConflict_move (halone : m.checksAlone (.checkConflict i))
    (h : m.checkConflict i = .ok m') : m.Move m' := by
  unfold checkConflict at h
  split at h
  · next opening version hi =>
    split at h
    · cases h
      exact .proceed hi (.inl rfl) rfl
    · split at h
      · cases h
        exact .proceed hi (.inl rfl) rfl
      · next hconflict =>
        cases h
        simp only [checksAlone, hi, List.all_eq_true, decide_eq_true_eq] at halone
        exact .clear hi (Bool.eq_false_iff.mpr hconflict)
          (fun tx htx => (halone tx htx).1) fun tx htx => (halone tx htx).2
  · cases h

theorem insert_move (h : m.insert i = .ok m') : m.Move m' := by
  unfold insert at h
  split at h
  · next opening version hi =>
    split at h
    · cases h
      exact .proceed hi (.inl rfl) rfl
    · cases h
      exact .proceed hi (.inr rfl) rfl
  · cases h

theorem use_move {fence : MountSessionFence} {action : HandleAction}
    (h : m.use fence id action = .ok m') : m.Move m' := by
  unfold use at h
  split at h
  · next handle hhandle =>
    obtain ⟨hget, hadmits⟩ := Option.filter_eq_some_iff.mp hhandle
    have hid : handle.id = id := Table.get_key hget
    subst hid
    obtain ⟨hunlocked, h⟩ := else_of_ok h
    cases h
    simp only [admitsHandle, Bool.and_eq_true] at hadmits
    exact .renew hget hadmits.1.1.1 (Bool.eq_false_iff.mpr hunlocked)
  · cases h

theorem close_move (h : m.close sessionId id = .ok m') : m.Move m' := by
  unfold close at h
  split at h
  · next handle hhandle =>
    obtain ⟨hget, -⟩ := Option.filter_eq_some_iff.mp hhandle
    have hid : handle.id = id := Table.get_key hget
    subst hid
    obtain ⟨hunlocked, h⟩ := else_of_ok h
    cases h
    refine .close ?_ rfl
    exact Bool.eq_false_iff.mpr hunlocked
  · cases h

theorem closeNfs_move {admitted : Bool} (h : m.closeNfs sessionId id admitted = .ok m') :
    m.Move m' := by
  unfold closeNfs at h
  split at h
  · next handle hhandle =>
    obtain ⟨hget, -⟩ := Option.filter_eq_some_iff.mp (okOr_eq_ok hhandle)
    have hid : handle.id = id := Table.get_key hget
    subst hid
    obtain ⟨hunlocked, h⟩ := else_of_ok h
    cases h
    refine .close ?_ rfl
    rw [not_or] at hunlocked
    exact Bool.eq_false_iff.mpr hunlocked.1
  · cases h

theorem commit_move (h : m.commit i = .ok m') : m.Move m' := by
  unfold commit at h
  split at h
  · next row hi =>
    split at h
    · next s hs =>
      obtain ⟨_, -, hs⟩ := bind_eq_ok hs
      obtain ⟨handles, hinsert, hs⟩ := bind_eq_ok hs
      rw [← Except.ok.inj h, ← Except.ok.inj hs]
      exact .publish hi (okOr_eq_ok hinsert)
    · cases h
  · next row hi =>
    cases h
    exact .write hi rfl (.inl rfl) rfl rfl
  · next row nodeLocked hi =>
    cases h
    exact .write hi rfl (.inr ⟨nodeLocked, rfl⟩) rfl rfl
  · cases h

theorem abort_move (h : m.abort i = .ok m') : m.Move m' := by
  unfold abort at h
  split at h
  · cases h
  · next tx hi =>
    cases h
    exact .proceed hi (.inl rfl) rfl
  · cases h

theorem step_move {event : TxEvent} (halone : m.checksAlone event)
    (h : m.step event = .ok m') : m.Move m' := by
  cases event with
  | tick =>
    cases h
    exact .pass rfl (Nat.le_add_right _ _)
  | other =>
    cases h
    exact .pass rfl le_rfl
  | beginOpen =>
    cases h
    exact .begin rfl rfl
  | lockNode => exact lockNode_move h
  | checkConflict => exact checkConflict_move halone h
  | insert => exact insert_move h
  | use => exact use_move h
  | close => exact close_move h
  | closeNfs => exact closeNfs_move h
  | commit => exact commit_move h
  | abort => exact abort_move h

/-! ## Each move keeps the claims compatible -/

theorem mem_put (h : tx' ∈ (m.put i tx).txs) : tx' ∈ m.txs ∨ tx' = tx := List.mem_or_eq_of_mem_set h

theorem mem_start (h : tx' ∈ (m.start tx).txs) : tx' ∈ m.txs ∨ tx' = tx := by
  simpa [start] using h

theorem claims_of_txs {txs : List Transaction} (htxs : ∀ {tx'}, tx' ∈ txs → tx' ∈ m.txs ∨ tx' = tx)
    (h : Claims { m with txs := txs } mode) : m.Claims mode ∨ tx.claim = some mode := by
  rcases h with hstored | ⟨tx', hmem, hclaim⟩
  · exact .inl (.inl hstored)
  · rcases htxs hmem with hmem | rfl
    · exact .inl (.inr ⟨tx', hmem, hclaim⟩)
    · exact .inr hclaim

theorem claims_put (h : (m.put i tx).Claims mode) : m.Claims mode ∨ tx.claim = some mode :=
  claims_of_txs mem_put h

section

variable (hm : m.Sound)
include hm

theorem Sound.compatible_of_claims (hclaims : ∀ {mode}, m'.Claims mode → m.Claims mode)
    {a b : HandleMode} (ha : m'.Claims a) (hb : m'.Claims b) (hid : a.id ≠ b.id)
    (htarget : a.target = b.target) : a.Compatible b :=
  hm.compatible (hclaims ha) (hclaims hb) hid htarget

/-- The row locks stay exclusive when a transaction starts with a free row. -/
theorem Sound.exclusive_start (hfree : ∀ id, tx.lockedHandle = some id → m.handleLocked id = false)
    (hi : (m.start tx).txs[i]? = some tx₁) (hj : (m.start tx).txs[j]? = some tx₂)
    (h₁ : tx₁.lockedHandle = some id) (h₂ : tx₂.lockedHandle = some id) : i = j := by
  have hother : ∀ {k : ℕ} {tx' : Transaction}, m.txs[k]? = some tx' →
      tx'.lockedHandle = some id → tx.lockedHandle ≠ some id := by
    intro k tx' hk hlocked hnew
    have hunlocked := List.any_eq_false.mp (hfree id hnew) tx' (List.mem_of_getElem? hk)
    simp [hlocked] at hunlocked
  rcases getElem?_append_singleton hi with hi' | ⟨hi', htx₁⟩
  · rcases getElem?_append_singleton hj with hj' | ⟨-, htx₂⟩
    · exact hm.exclusive hi' hj' h₁ h₂
    · exact absurd (htx₂ ▸ h₂) (hother hi' h₁)
  · rcases getElem?_append_singleton hj with hj' | ⟨hj', -⟩
    · exact absurd (htx₁ ▸ h₁) (hother hj' h₂)
    · rw [hi', hj']

theorem Sound.exclusive_put (hlocked : tx.lockedHandle = none)
    (hj : (m.put i tx).txs[j]? = some tx₁) (hk : (m.put i tx).txs[k]? = some tx₂)
    (h₁ : tx₁.lockedHandle = some id) (h₂ : tx₂.lockedHandle = some id) : j = k := by
  have hkept : ∀ {k : ℕ} {tx' : Transaction},
      (m.put i tx).txs[k]? = some tx' → tx'.lockedHandle = some id →
      m.txs[k]? = some tx' := by
    intro k tx' hk hid
    rcases getElem?_set_eq_some hk with ⟨-, hk⟩ | ⟨-, rfl⟩
    · exact hk
    · rw [hlocked] at hid
      cases hid
  exact hm.exclusive (hkept hj h₁) (hkept hk h₂) h₁ h₂

/-- A transaction that goes on without a locked handle row; `s` is the committed
state afterwards. -/
theorem Sound.put (hlocked : tx.lockedHandle = none)
    (hcompatible : ∀ {a b : HandleMode}, ({ m with s := s }.put i tx).Claims a →
      ({ m with s := s }.put i tx).Claims b → a.id ≠ b.id → a.target = b.target →
      a.Compatible b)
    (hstored : ∀ {j : ℕ} {row : HandleRow}, j ≠ i → m.txs[j]? = some (.renewing row) →
      ∃ handle, s.handles.get row.id = some handle ∧ handle.mode = row.mode) :
    Sound ({ m with s := s }.put i tx) where
  compatible := hcompatible
  renewing := by
    intro row hmem
    obtain ⟨j, hj⟩ := List.mem_iff_getElem?.mp hmem
    rcases getElem?_set_eq_some hj with ⟨hne, hj⟩ | ⟨-, rfl⟩
    · exact hstored hne hj
    · cases hlocked
  closing := by
    intro row nodeLocked hmem
    rcases List.mem_or_eq_of_mem_set hmem with hmem | rfl
    · exact hm.closing hmem
    · cases hlocked
  exclusive := hm.exclusive_put hlocked

theorem Sound.pass (hhandles : s.handles = m.s.handles) (hnow : m.s.now ≤ s.now) :
    Sound { m with s := s } where
  compatible := by
    refine hm.compatible_of_claims ?_
    rintro mode (⟨handle, hmem, hlive, hmode⟩ | htx)
    · rw [hhandles] at hmem
      refine .inl ⟨handle, hmem, ?_, hmode⟩
      simp only [HandleRow.live, decide_eq_true_eq] at hlive ⊢
      exact ⟨hlive.1, hnow.trans_lt hlive.2⟩
    · exact .inr htx
  renewing := by
    intro row hmem
    rw [hhandles]
    exact hm.renewing hmem
  closing := hm.closing
  exclusive := hm.exclusive

/-- A transaction that starts, on a free handle row and with no new claim. -/
theorem Sound.start (hclaim : ∀ mode, tx.claim = some mode → m.Claims mode)
    (hrenewing : ∀ row, tx = .renewing row →
      ∃ handle, m.s.handles.get row.id = some handle ∧ handle.mode = row.mode)
    (hclosing : ∀ row nodeLocked, tx = .closing row nodeLocked → row.closed)
    (hfree : ∀ id, tx.lockedHandle = some id → m.handleLocked id = false) : Sound (m.start tx) where
  compatible := by
    refine hm.compatible_of_claims ?_
    intro mode hmode
    rcases claims_of_txs mem_start hmode with hmode | hmode
    · exact hmode
    · exact hclaim mode hmode
  renewing := by
    intro row hmem
    rcases mem_start hmem with hmem | hrow
    · exact hm.renewing hmem
    · exact hrenewing row hrow.symm
  closing := by
    intro row nodeLocked hmem
    rcases mem_start hmem with hmem | hrow
    · exact hm.closing hmem
    · exact hclosing row nodeLocked hrow.symm
  exclusive := hm.exclusive_start hfree

theorem Sound.proceed (hi : m.txs[i]? = some tx) (hclaim : tx'.claim = none ∨ tx'.claim = tx.claim)
    (hlocked : tx'.lockedHandle = none) : Sound (m.put i tx') := by
  refine Sound.put hm hlocked ?_ ?_
  · refine hm.compatible_of_claims ?_
    intro mode hmode
    rcases claims_put hmode with hmode | hmode
    · exact hmode
    · rcases hclaim with hclaim | hclaim
      · rw [hclaim] at hmode
        cases hmode
      · rw [hclaim] at hmode
        exact .inr ⟨tx, List.mem_of_getElem? hi, hmode⟩
  · intro j row _ hj
    exact hm.renewing (List.mem_of_getElem? hj)

theorem Sound.compatible_cleared (hconflict : opening.conflict m.s = false)
    (hcleared : ∀ tx ∈ m.txs, tx.clearedNode ≠ some opening.request.target)
    (hrenews : ∀ tx ∈ m.txs, tx.renewsLive m.s opening.request.target) (hmode : m.Claims mode)
    (htarget : mode.target = opening.request.target) : opening.request.mode.Compatible mode := by
  rcases hmode with ⟨handle, hmem, hlive, rfl⟩ | ⟨tx, hmem, hclaim⟩
  · exact opening.compatible_of_conflict hconflict hmem hlive htarget
  · cases tx with
    | cleared =>
      rw [← Option.some.inj hclaim] at htarget
      exact absurd (congrArg some htarget) (hcleared _ hmem)
    | inserted =>
      rw [← Option.some.inj hclaim] at htarget
      exact absurd (congrArg some htarget) (hcleared _ hmem)
    | renewing =>
      rw [← Option.some.inj hclaim] at htarget ⊢
      obtain ⟨handle, hget, hmode⟩ := hm.renewing hmem
      have hlive : handle.live m.s.now := by
        have hrenew := of_decide_eq_true (hrenews _ hmem) htarget
        rwa [hget, Option.any_some] at hrenew
      rw [← hmode] at htarget ⊢
      exact opening.compatible_of_conflict hconflict (Table.get_eq_some.mp hget).1 hlive htarget
    | _ => cases hclaim

theorem Sound.clear {version : Option Uuid} (hconflict : opening.conflict m.s = false)
    (hcleared : ∀ tx ∈ m.txs, tx.clearedNode ≠ some opening.request.target)
    (hrenews : ∀ tx ∈ m.txs, tx.renewsLive m.s opening.request.target) :
    Sound (m.put i (.cleared opening version)) := by
  have hnew : ∀ {mode : HandleMode}, m.Claims mode → mode.target = opening.request.target →
      opening.request.mode.Compatible mode :=
    hm.compatible_cleared hconflict hcleared hrenews
  refine Sound.put hm rfl ?_ ?_
  · intro a b ha hb hid htarget
    rcases claims_put ha with ha | ha
    · rcases claims_put hb with hb | hb
      · exact hm.compatible ha hb hid htarget
      · rw [← Option.some.inj hb] at htarget ⊢
        exact (hnew ha htarget).symm
    · rw [← Option.some.inj ha] at hid htarget ⊢
      rcases claims_put hb with hb | hb
      · exact hnew hb htarget.symm
      · rw [← Option.some.inj hb] at hid
        exact absurd rfl hid
  · intro j row _ hj
    exact hm.renewing (List.mem_of_getElem? hj)

theorem Sound.publish {handles : Table HandleRow.id}
    (hi : m.txs[i]? = some (.inserted row)) (hinsert : m.s.handles.insert row = some handles) :
    Sound ({ m with s := { m.s with handles := handles } }.put i (.ended none)) := by
  refine Sound.put hm rfl ?_ ?_
  · refine hm.compatible_of_claims ?_
    intro mode hmode
    rcases claims_put hmode with (⟨handle, hmem, hlive, hmode⟩ | htx) | hmode
    · rw [(Table.insert_eq_some hinsert).2, List.mem_append, List.mem_singleton] at hmem
      rcases hmem with hmem | rfl
      · exact .inl ⟨handle, hmem, hlive, hmode⟩
      · exact .inr ⟨_, List.mem_of_getElem? hi, congrArg some hmode⟩
    · exact .inr htx
    · cases hmode
  · intro j row' _ hj
    obtain ⟨handle, hget, hmode⟩ := hm.renewing (List.mem_of_getElem? hj)
    refine ⟨handle, ?_, hmode⟩
    rw [Table.get_insert hinsert, if_neg, hget]
    intro hid
    rw [hid, (Table.insert_eq_some hinsert).1] at hget
    cases hget

/-- A committed renewal was a claim before, and a closed handle is none. -/
theorem Sound.write (hi : m.txs[i]? = some tx) (htx : tx.lockedHandle = some row.id)
    (hrow : tx.claim = some row.mode ∨ ∃ nodeLocked, tx = .closing row nodeLocked)
    (hhandles : s.handles = (writeHandle m.s row).handles) (hnow : s.now = m.s.now) :
    Sound ({ m with s := s }.put i (.ended none)) := by
  refine Sound.put hm rfl ?_ ?_
  · refine hm.compatible_of_claims ?_
    intro mode hmode
    rcases claims_put hmode with (⟨handle, hmem, hlive, hmode⟩ | hother) | hmode
    · rw [hhandles] at hmem
      rw [hnow] at hlive
      rcases mem_writeHandle hmem with hmem | rfl
      · exact .inl ⟨handle, hmem, hlive, hmode⟩
      · rcases hrow with hclaim | ⟨nodeLocked, rfl⟩
        · rw [hmode] at hclaim
          exact .inr ⟨tx, List.mem_of_getElem? hi, hclaim⟩
        · have hclosed := hm.closing (List.mem_of_getElem? hi)
          simp [HandleRow.live, hclosed] at hlive
    · exact .inr hother
    · cases hmode
  · intro j row' hne hj
    have hid : row'.id ≠ row.id := by
      intro hid
      exact hne (hm.exclusive hj hi (congrArg some hid) htx)
    rw [hhandles, get_writeHandle_of_ne hid]
    exact hm.renewing (List.mem_of_getElem? hj)

theorem Sound.move (h : m.Move m') : m'.Sound := by
  cases h with
  | pass hhandles hnow => exact hm.pass hhandles hnow
  | begin hclaim hlocked =>
    refine hm.start ?_ ?_ ?_ ?_
    · exact fun mode hmode => nomatch hclaim.symm.trans hmode
    · rintro row rfl
      cases hlocked
    · rintro row nodeLocked rfl
      cases hlocked
    · exact fun id hid => nomatch hlocked.symm.trans hid
  | @renew handle hget hlive hunlocked =>
    -- a handle in use already is a claim
    refine hm.start ?_ ?_ (fun _ _ hrow => nomatch hrow) ?_
    · exact fun mode hmode => .inl ⟨handle, (Table.get_eq_some.mp hget).1, hlive,
        Option.some.inj hmode⟩
    · rintro row ⟨⟩
      exact ⟨handle, hget, rfl⟩
    · exact fun id hid => Option.some.inj hid ▸ hunlocked
  | close hunlocked hclosed =>
    refine hm.start (fun _ hmode => nomatch hmode) (fun _ hrow => nomatch hrow) ?_ ?_
    · rintro row nodeLocked ⟨⟩
      exact hclosed
    · exact fun id hid => Option.some.inj hid ▸ hunlocked
  | proceed hi hclaim hlocked => exact hm.proceed hi hclaim hlocked
  | clear hi hconflict hcleared hrenews =>
    exact hm.clear hconflict hcleared hrenews
  | publish hi hinsert => exact hm.publish hi hinsert
  | write hi htx hrow hhandles hnow => exact hm.write hi htx hrow hhandles hnow

end

/-! ## Runs -/

def serve (events : List TxEvent) : Machine := run step empty events

theorem serve_sound {events : List TxEvent}
    (hevents : Meets step (fun m event => m.checksAlone event) empty events) :
    (serve events).Sound :=
  run_invariant (I := Sound) (fun _ _ _ hm halone hstep => hm.move (step_move halone hstep))
    sound_empty hevents

/-- In every run whose conflict checks run alone, two live handles of one node
hold no access that the other's share mode excludes. -/
theorem live_handles_share {events : List TxEvent}
    (hevents : Meets step (fun m event => m.checksAlone event) empty events)
    {a b : HandleRow} (ha : a ∈ (serve events).s.handles.rows)
    (hb : b ∈ (serve events).s.handles.rows) (hne : a ≠ b)
    (htarget : a.target = b.target)
    (halive : a.live (serve events).s.now)
    (hblive : b.live (serve events).s.now) :
    (a.holds .readContent → b.shareRead) ∧
      (a.holds .writeContent → b.shareWrite) ∧
      (a.holds .delete → b.shareDelete) := by
  have hid : a.id ≠ b.id := fun hid =>
    hne (List.inj_on_of_nodup_map (serve events).s.handles.nodup ha hb hid)
  have hwithin : a.mode.Within b.mode :=
    ((serve_sound hevents).compatible (.inl ⟨a, ha, halive, rfl⟩)
      (.inl ⟨b, hb, hblive, rfl⟩) hid htarget).1
  simp only [HandleRow.holds, List.contains_iff_mem]
  exact hwithin

end Machine

/-! ## Two opens of one file -/

/-- A drive with one file below its root. -/
def oneFile : Database.State :=
  { Database.State.empty with
    drives :=
      { rows := [⟨1, 1, 1, 1⟩]
        nodup := by decide }
    space :=
      { nodes :=
          { rows :=
              [.inserted 1 4 none .directory "" "" none,
                ⟨1, 5, some 4, .file, "a", "a", none, some 9, 1, 1, 1, none⟩]
            nodup := by decide }
        ancestry :=
          { rows := [⟨1, 4, 4, 0⟩, ⟨1, 5, 5, 0⟩, ⟨1, 4, 5, 1⟩]
            nodup := by decide } } }

def oneFileSessions : Table MountSessionRow.id where
  rows := [11, 12].map fun id =>
    ⟨id, id, 1, .smb, 1, 1, 1, 1, 1, .active, hour, hour⟩
  nodup := by decide

/-- An open by the session of the same number. -/
def oneFileOpen (id : Uuid) (actions : List HandleAction) (share : Bool) : OpenRequest where
  fence := ⟨id, id, 1, 1, 1, 1⟩
  handleId := id
  target := ⟨1, 5⟩
  expectedVersionId := none
  accessActions := actions
  shareRead := share
  shareWrite := share
  shareDelete := share
  driveAclGeneration := 1
  namespaceGeneration := 1
  resourceAclGeneration := 1

def opensInTurn : List TxEvent :=
  [.other oneFile MountState.empty.authority oneFileSessions,
    .beginOpen (.mount (oneFileOpen 11 [.readContent] true)), .lockNode 0,
    .checkConflict 0, .insert 0, .commit 0,
    .beginOpen (.mount (oneFileOpen 12 [.readContent, .writeContent] true)),
    .lockNode 1, .checkConflict 1, .insert 1, .commit 1]

def inTurnReader : HandleRow := (oneFileOpen 11 [.readContent] true).row (some 9) handleLifetime

def inTurnWriter : HandleRow :=
  (oneFileOpen 12 [.readContent, .writeContent] true).row (some 9) handleLifetime

theorem live_handles_share_inTurn :
    inTurnReader ∈ (Machine.serve opensInTurn).s.handles.rows ∧
      inTurnWriter ∈ (Machine.serve opensInTurn).s.handles.rows ∧
      (inTurnWriter.holds .readContent →
        inTurnReader.shareRead) ∧
      (inTurnWriter.holds .writeContent →
        inTurnReader.shareWrite) ∧
      (inTurnWriter.holds .delete → inTurnReader.shareDelete) :=
  ⟨by decide +kernel, by decide +kernel,
    Machine.live_handles_share (a := inTurnWriter) (b := inTurnReader)
      (show Meets Machine.step _ Machine.empty opensInTurn by decide +kernel) (by decide +kernel)
      (by decide +kernel) (by decide) rfl (by decide +kernel)
      (by decide +kernel)⟩

/-- Both opens hold the node's share lock when they check for a conflict. -/
def opensAtOnce : List TxEvent :=
  [.other oneFile MountState.empty.authority oneFileSessions,
    .beginOpen (.mount (oneFileOpen 11 [.readContent] false)),
    .beginOpen (.mount (oneFileOpen 12 [.readContent] false)), .lockNode 0,
    .lockNode 1, .checkConflict 0, .checkConflict 1, .insert 0, .insert 1,
    .commit 0, .commit 1]

/-- Two handles that deny shared reading are live and read. -/
theorem live_handles_excluded :
    ∃ a ∈ (Machine.serve opensAtOnce).s.handles.rows,
      ∃ b ∈ (Machine.serve opensAtOnce).s.handles.rows,
        a ≠ b ∧ a.target = b.target ∧
          a.live (Machine.serve opensAtOnce).s.now ∧
          b.live (Machine.serve opensAtOnce).s.now ∧
          a.holds .readContent ∧ b.shareRead = false := by
  decide +kernel

end FileBelt.Mount
