import FileBelt.Authz.Fence
import FileBelt.Tree.ETag

/-!
# What a step can do to one node

A live node stays live under an unchanged generation unless a step takes it along in
the trash of an ancestor.  The stored ancestors of a node change only when the node or
one of its ancestors is moved.
-/

namespace FileBelt.Database

open Support

/-! ## Liveness -/

/-- The same node later; `taken` says that it may have been trashed or restored
with an ancestor. -/
structure NodeRow.Lives (taken : Prop) (n n' : NodeRow) : Prop where
  namespaceGeneration : n.namespaceGeneration ≤ n'.namespaceGeneration
  live : ¬taken → n'.namespaceGeneration = n.namespaceGeneration →
    n.trashRootId = none → n'.trashRootId = none

theorem NodeRow.Lives.refl (taken : Prop) (n : NodeRow) : n.Lives taken n :=
  ⟨le_rfl, fun _ _ h => h⟩

variable {taken : Prop} {n n' n'' : NodeRow} {db db' : State} {op : Operation} {drive : DriveId}
  {id : NodeId} {permit : Permit}

theorem NodeRow.Lives.trans (h : n.Lives taken n') (h' : n'.Lives taken n'') :
    n.Lives taken n'' := by
  refine ⟨h.namespaceGeneration.trans h'.namespaceGeneration, ?_⟩
  intro hnot hsame hlive
  have hn := h.namespaceGeneration
  have hn' := h'.namespaceGeneration
  exact h'.live hnot (by omega) (h.live hnot (by omega) hlive)

theorem NodeRow.lives_of_same (h : n.namespaceGeneration ≤ n'.namespaceGeneration)
    (htrash : n'.trashRootId = n.trashRootId) : n.Lives taken n' :=
  ⟨h, fun _ _ hlive => htrash.trans hlive⟩

namespace Namespace

def NodeLives (taken : Prop) (s s' : Namespace) (drive : DriveId) (id : NodeId) : Prop :=
  ∀ n, s.nodes.get (drive, id) = some n →
    ∃ n', s'.nodes.get (drive, id) = some n' ∧ n.Lives taken n'

variable {s s' : Namespace} {drive : DriveId} {id : NodeId}

theorem nodeLives_setHeadOnly (taken : Prop) (s : Namespace) (d : DriveId)
    (v : NodeId) (version : Uuid) : s.NodeLives taken (s.setHeadOnly d v version) drive id := by
  intro n hn
  refine exists_row_map (nodes_get_update s _ _ _) ?_ hn
  split
  · exact NodeRow.lives_of_same le_rfl rfl
  · exact .refl _ n

theorem nodeLives_edit (hedit : Edit permit s s') :
    s.NodeLives (permit.silent drive id) s' drive id := by
  intro n hn
  obtain ⟨n', hn', hrow⟩ := rowEdit_of_edit hedit hn
  refine ⟨n', hn', ?_⟩
  cases hrow with
  | advances h => exact NodeRow.lives_of_same h.namespaceGeneration h.trashRootId
  | bump hnamespace _ _ => exact ⟨by omega, fun _ hsame _ => by omega⟩
  | silent h hnamespace => exact ⟨hnamespace, fun hnot => absurd h hnot⟩

theorem nodeLives_edits (h : Edits permit s s') :
    s.NodeLives (permit.silent drive id) s' drive id := by
  induction h with
  | refl => exact fun n hn => ⟨n, hn, .refl _ n⟩
  | tail _ hedit ih =>
    intro n hn
    obtain ⟨n', hn', hlives⟩ := ih n hn
    obtain ⟨n'', hn'', hlives'⟩ := nodeLives_edit hedit n' hn'
    exact ⟨n'', hn'', hlives.trans hlives'⟩

end Namespace

/-- The operation trashes a proper ancestor of the node. -/
def takesAlong (db : State) (drive : DriveId) (id : NodeId) : Operation → Bool
  | .setNodeTrashState request =>
    request.trash && request.drive == drive && request.resource != id &&
      db.space.below drive request.resource id
  | .nfsRemove request =>
    request.drive == drive && request.node != id && db.space.below drive request.node id
  | _ => false

/-- A head that changes silently: the two operations that move it without a new
generation. -/
def Operation.setsHeadOnly : Operation → Bool
  | .restoreFileVersion _ => true
  | .commitDocumentRevision _ => true
  | _ => false

theorem nodeLives_setsHeadOnly (hop : op.setsHeadOnly)
    (h : step db op = .ok db') (taken : Prop) : db.space.NodeLives taken db'.space drive id := by
  cases op with
  | restoreFileVersion =>
    obtain ⟨-, -, h⟩ := bind_eq_ok h
    obtain ⟨node, -, h⟩ := bind_eq_ok h
    obtain ⟨-, h⟩ := else_of_ok h
    obtain ⟨versions, -, h⟩ := bind_eq_ok h
    cases h
    exact Namespace.nodeLives_setHeadOnly _ _ _ _ _
  | commitDocumentRevision =>
    obtain ⟨-, -, h⟩ := bind_eq_ok h
    obtain ⟨-, -, h⟩ := bind_eq_ok h
    obtain ⟨_, -, h⟩ := bind_eq_ok h
    split at h
    · cases h
      exact fun n hn => ⟨n, hn, .refl _ n⟩
    · obtain ⟨_, -, h⟩ := bind_eq_ok h
      obtain ⟨-, h⟩ := else_of_ok h
      cases h
      exact Namespace.nodeLives_setHeadOnly _ _ _ _ _
  | _ => cases hop

theorem changesVisibly_of_live (hn : db.node drive id = some n) (hlive : n.trashRootId = none)
    (hhead : op.setsHeadOnly = false) (htaken : takesAlong db drive id op = false) :
    ChangesVisibly drive id db op := by
  cases op with
  | setNodeTrashState request =>
    intro m hm hmark hdrive hbelow
    rw [hn] at hm
    rw [← Option.some.inj hm, hlive] at hmark
    by_contra hne
    have htrash : request.trash := by
      by_contra hfalse
      rw [if_neg hfalse] at hmark
      cases hmark
    simp [takesAlong, htrash, hdrive, hbelow, Ne.symm hne] at htaken
  | nfsRemove =>
    intro m _ _ hdrive hbelow
    by_contra hne
    simp [takesAlong, hdrive, hbelow, Ne.symm hne] at htaken
  | restoreFileVersion => cases hhead
  | commitDocumentRevision => cases hhead
  | _ => trivial

/-- A step keeps a node and its liveness, unless it takes the node along. -/
theorem step_lives (h : step db op = .ok db') (hn : db.node drive id = some n) :
    ∃ n', db'.node drive id = some n' ∧ n.Lives (takesAlong db drive id op) n' := by
  have hedits : Edits .any db.space db'.space :=
    step_edits (fun _ _ _ _ => trivial) (permitted_any db op) h
  obtain ⟨n', hn', hany⟩ := Namespace.nodeLives_edits hedits n hn
  refine ⟨n', hn', hany.namespaceGeneration, ?_⟩
  intro htaken hsame hlive
  cases hhead : op.setsHeadOnly with
  | true =>
    obtain ⟨m, hm, hlives⟩ := nodeLives_setsHeadOnly hhead h False n hn
    obtain rfl := Option.some.inj (hm.symm.trans hn')
    exact hlives.live not_false hsame hlive
  | false =>
    have hvisible := changesVisibly_of_live hn hlive hhead (Bool.not_eq_true _ ▸ htaken)
    have hnode : db.node drive id ≠ none := by simp [hn]
    obtain ⟨m, hm, hlives⟩ := Namespace.nodeLives_edits
      (step_edits (fun _ _ _ _ => trivial) (permitted_visibleEdits hnode hvisible) h) n hn
    obtain rfl := Option.some.inj (hm.symm.trans hn')
    exact hlives.live (not_not.mpr ⟨rfl, rfl⟩) hsame hlive

/-! ## Ancestors -/

/-- The operation moves the node or one of its ancestors to another parent. -/
def regrafts (db : State) (drive : DriveId) (id : NodeId) : Operation → Bool
  | .nfsRename request =>
    request.drive == drive && request.oldParent != request.targetParent &&
      db.space.below drive request.node id
  | _ => false

/-- A move changes the ancestors of the moved subtree only. -/
theorem ancestorRows_move {s : Namespace} {ancestry : Table AncestryRow.key} {v target : NodeId}
    (hmove : Namespace.moveAncestry s.ancestry drive v target = .ok ancestry)
    (hout : s.below drive v id = false) :
    (ancestry.rows.filter fun r => r.driveId = drive ∧ r.descendantId = id) =
      s.ancestorRows drive id := by
  have hnone : s.ancestry.get (drive, v, id) = none := by
    rw [Namespace.below, Option.isSome_eq_false_iff, Option.isNone_iff_eq_none] at hout
    exact hout
  have hno : ∀ r ∈ s.ancestry.rows, r.driveId = drive → r.ancestorId = v → r.descendantId ≠ id := by
    rintro r hr rfl rfl rfl
    exact Table.get_eq_none.mp hnone r hr rfl
  rw [Namespace.insertAncestry_eq_ok hmove, filter_append_fresh]
  · change (s.ancestry.rows.filter _).filter _ = _
    rw [List.filter_filter]
    refine List.filter_congr fun r _ => ?_
    by_cases hid : r.descendantId = id
    · have hstays : Namespace.leavesSubtree s.ancestry drive v r = false := by
        rw [Namespace.leavesSubtree, decide_eq_false_iff_not]
        rintro ⟨-, -, hsubtree⟩
        obtain ⟨r', hr', hcond⟩ := List.any_eq_true.mp hsubtree
        obtain ⟨hd, hv, hdesc⟩ := of_decide_eq_true hcond
        exact hno r' hr' hd hv (hdesc.symm.trans hid)
      simp [hstays]
    · simp [hid]
  · rintro r hr ⟨-, hid⟩
    simp only [Namespace.graftedRows, List.mem_flatMap, List.mem_map,
      List.mem_filter, decide_eq_true_eq] at hr
    obtain ⟨_, -, sub, ⟨hsub, hd, hv⟩, rfl⟩ := hr
    exact hno sub (List.mem_of_mem_filter hsub) hd hv hid

theorem ancestorRows_step (h : step db op = .ok db') (hnode : db.space.HasNode drive id)
    (hregrafts : regrafts db drive id op = false) :
    db'.space.ancestorRows drive id = db.space.ancestorRows drive id := by
  by_cases hother : ∀ request, op = .nfsRename request → request.drive ≠ drive
  · exact (ancestorRows_edits (step_edits (fun _ _ _ _ => trivial)
      (permitted_otherDrives hother) h) hnode).2
  · push Not at hother
    obtain ⟨_, rfl, rfl⟩ := hother
    obtain ⟨-, -, _, _, -, -, -, hancestry, hspace⟩ := (nfsRename_eq_ok h).1
    rw [hspace]
    rcases hancestry with ⟨-, rfl⟩ | ⟨hne, hmove⟩
    · rfl
    · refine ancestorRows_move hmove ?_
      simpa [regrafts, hne] using hregrafts

/-- The operation moves a proper ancestor of the node to another parent. -/
def movesAncestor (db : State) (drive : DriveId) (id : NodeId) : Operation → Bool
  | .nfsRename request =>
    request.node != id && regrafts db drive id (.nfsRename request)
  | _ => false

theorem nfsRename_generation {request : NfsRename} (h : nfsRename db request = .ok db')
    (hn : db.node request.drive request.node = some n)
    (hn' : db'.node request.drive request.node = some n') :
    n'.namespaceGeneration = n.namespaceGeneration + 1 := by
  obtain ⟨-, -, _, _, -, -, -, -, hspace⟩ := (nfsRename_eq_ok h).1
  obtain ⟨hdrive, hid⟩ := Namespace.row_drive hn
  have hnode : db.space.nodes.get (request.drive, request.node) = some n := hn
  change db'.space.nodes.get _ = _ at hn'
  rw [hspace] at hn'
  have hbumped := (congrArg (Option.map _) ((Namespace.nodes_get_updateWhere _ _ _ _).trans
    (congrArg _ hnode))).symm.trans ((Namespace.nodes_get_updateWhere _ _ _ _).symm.trans hn')
  rw [← Option.some.inj hbumped]
  simp [hdrive, hid]

/-- Under an unchanged generation a node keeps its ancestors, unless one of them
moves. -/
theorem ancestorRows_of_generation (h : step db op = .ok db') (hn : db.node drive id = some n)
    (hn' : db'.node drive id = some n') (hmoves : movesAncestor db drive id op = false)
    (hsame : n'.namespaceGeneration = n.namespaceGeneration) :
    db'.space.ancestorRows drive id = db.space.ancestorRows drive id := by
  refine ancestorRows_step h ⟨n, hn⟩ ?_
  by_contra hregrafts
  rw [Bool.not_eq_false] at hregrafts
  cases op with
  | nfsRename request =>
    have hself : request.node = id := by
      by_contra hne
      simp [movesAncestor, hne, hregrafts] at hmoves
    have hdrive : request.drive = drive := by
      simp only [regrafts, Bool.and_eq_true, beq_iff_eq] at hregrafts
      exact hregrafts.1.1
    subst hself hdrive
    have hbump := nfsRename_generation h hn hn'
    omega
  | _ => cases hregrafts

end FileBelt.Database
