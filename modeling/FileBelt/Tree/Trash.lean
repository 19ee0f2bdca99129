import FileBelt.Tree.TrashEdges

/-!
# Trash and the tree

A node is live exactly when its ancestors are live and it was not itself trashed.  What
was trashed and not restored is read off the calls of a run.

The directory creation and the commit of a new file do not check the parent, so the
statement fails without a condition on their parents.
-/

namespace FileBelt.Database

open Support

variable {trashed : DriveId × NodeId → Bool} {parent a : NodeId} {row : NodeRow}

namespace Namespace

/-! ## Nodes trashed themselves -/

def SelfTrashed (s : Namespace) (drive : DriveId) (id : NodeId) : Prop :=
  ∃ n, s.nodes.get (drive, id) = some n ∧ n.trashRootId = some id

variable {s s' inserted : Namespace} {drive d : DriveId} {id root : NodeId}

theorem selfTrashed_map {g : NodeRow → NodeRow} (hget : ∀ k, s'.nodes.get k = (s.nodes.get k).map g)
    (htrash : ∀ n, s.nodes.get (drive, id) = some n →
      ((g n).trashRootId = some id ↔ n.trashRootId = some id)) :
    s'.SelfTrashed drive id ↔ s.SelfTrashed drive id := by
  rw [SelfTrashed, hget]
  constructor
  · rintro ⟨_, hn', hmark⟩
    obtain ⟨n, hn, rfl⟩ := Option.map_eq_some_iff.mp hn'
    exact ⟨n, hn, (htrash n hn).mp hmark⟩
  · rintro ⟨n, hn, hmark⟩
    exact ⟨g n, by rw [hn, Option.map_some], (htrash n hn).mpr hmark⟩

theorem selfTrashed_update (p : NodeRow → Bool) (f : NodeRow → NodeRow)
    (hf : ∀ r, NodeRow.key (f r) = NodeRow.key r)
    (htrash : ∀ r, (f r).trashRootId = r.trashRootId) :
    (s.update p f hf).SelfTrashed drive id ↔ s.SelfTrashed drive id := by
  refine selfTrashed_map (nodes_get_update s p f hf) ?_
  intro n _
  split
  · rw [htrash]
  · rfl

theorem NodeInserted.selfTrashed (h : NodeInserted s row inserted) (hlive : row.trashRootId = none)
    {ancestry : Table AncestryRow.key} :
    { inserted with ancestry := ancestry }.SelfTrashed drive id ↔ s.SelfTrashed drive id := by
  constructor
  · rintro ⟨n, hn, hmark⟩
    by_cases hkey : (drive, id) = NodeRow.key row
    · rw [hkey] at hn
      rw [← Option.some.inj (h.get_self.symm.trans hn), hlive] at hmark
      cases hmark
    · rw [h.get_other hkey] at hn
      exact ⟨n, hn, hmark⟩
  · rintro ⟨n, hn, hmark⟩
    exact ⟨n, h.get_of_some hn, hmark⟩

theorem selfTrashed_subtree_other (hne : ¬(d = drive ∧ id = root)) :
    ((s.trashSubtree drive root).SelfTrashed d id ↔ s.SelfTrashed d id) ∧
      ((s.restoreSubtree drive root).SelfTrashed d id ↔ s.SelfTrashed d id) := by
  have hid : ∀ {n}, s.nodes.get (d, id) = some n → n.driveId = drive → root ≠ id :=
    fun hn hdrive heq => hne ⟨(row_drive hn).1.symm.trans hdrive, heq.symm⟩
  constructor <;> refine selfTrashed_map (nodes_get_updateWhere s _ _) fun n hn => ?_
  all_goals
    split
    · next hcond => simp [hcond.2.2, hid hn hcond.1]
    · rfl

theorem selfTrashed_trash (h : s.Closed) (hrow : s.nodes.get (drive, root) = some row)
    (hlive : row.trashRootId = none) : (s.trashSubtree drive root).SelfTrashed drive root := by
  obtain ⟨hdrive, hid⟩ := row_drive hrow
  refine ⟨_, (nodes_get_updateWhere s _ _ _).trans (congrArg _ hrow), ?_⟩
  dsimp only
  rw [if_pos ⟨hdrive, by rw [hid]; exact below_self h hrow, hlive⟩]

theorem selfTrashed_restore (h : s.Closed) :
    ¬(s.restoreSubtree drive root).SelfTrashed drive root := by
  rintro ⟨_, hn', hmark⟩
  obtain ⟨_, hn, rfl⟩ := Option.map_eq_some_iff.mp ((nodes_get_updateWhere _ _ _ _).symm.trans hn')
  obtain ⟨hdrive, hid⟩ := row_drive hn
  split at hmark
  · cases hmark
  · next hcond =>
    exact hcond ⟨hdrive, by rw [hid]; exact below_self h hn, hmark⟩

/-- Trash and restore edits of other nodes only. -/
def otherTrash (drive : DriveId) (id : NodeId) : Permit :=
  { Permit.any with
    trashes := fun d root => ¬(d = drive ∧ root = id)
    restores := fun d root => ¬(d = drive ∧ root = id) }

theorem selfTrashed_edit (hedit : Edit (otherTrash drive id) s s') :
    s'.SelfTrashed drive id ↔ s.SelfTrashed drive id := by
  cases hedit with
  | generations p f hf honly =>
    exact selfTrashed_update p f hf fun n => (honly n).trashRootId
  | head =>
    apply selfTrashed_update
    intro r
    rfl
  | headOnly =>
    apply selfTrashed_update
    intro r
    rfl
  | root _ _ _ _ hnode =>
    exact (insertNode_eq_ok hnode).selfTrashed rfl
  | child _ _ _ _ _ hlive hnode =>
    exact (insertNode_eq_ok hnode).selfTrashed hlive
  | move _ _ _ _ _ _ _ ancestry =>
    refine selfTrashed_map (nodes_get_updateWhere { s with ancestry := ancestry } _ _) ?_
    intro n _
    split
    · rfl
    · rfl
  | trash _ _ _ _ _ _ htrashes =>
    exact (selfTrashed_subtree_other fun h => htrashes ⟨h.1.symm, h.2.symm⟩).1
  | restore _ _ _ _ _ _ _ _ hrestores =>
    exact (selfTrashed_subtree_other fun h => hrestores ⟨h.1.symm, h.2.symm⟩).2

theorem selfTrashed_edits (h : Edits (otherTrash drive id) s s') :
    s'.SelfTrashed drive id ↔ s.SelfTrashed drive id := by
  induction h with
  | refl => rfl
  | tail _ hedit ih => exact (selfTrashed_edit hedit).trans ih

/-! ## Consistency -/

def Live (s : Namespace) (drive : DriveId) (id : NodeId) : Prop :=
  ∃ n, s.nodes.get (drive, id) = some n ∧ n.trashRootId = none

/-- Parents are directories; a node is live exactly when all its proper ancestors are and
it has not itself been trashed. -/
structure TrashConsistent (s : Namespace) (trashed : DriveId × NodeId → Bool) : Prop where
  directory : ∀ drive id parent, s.parentOf drive id = some parent →
    ∃ q, s.nodes.get (drive, parent) = some q ∧ q.kind = .directory
  live : ∀ drive id, s.HasNode drive id → (s.Live drive id ↔
    (∀ k a, ancestorAt (s.parentOf drive) (k + 1) id = some a →
      s.Live drive a) ∧ trashed (drive, id) = false)

theorem TrashInvariant.edge_of_parentOf (h : s.TrashInvariant)
    (hparent : s.parentOf drive id = some parent) : ∃ n q, s.Edge drive id n parent q := by
  obtain ⟨n, hn⟩ := HasNode.of_parentOf hparent
  obtain ⟨q, hq⟩ := h.closed.parent_exists drive id parent hparent
  exact ⟨n, q, hn, (parentOf_of_get hn).symm.trans hparent, hq⟩

theorem TrashInvariant.live_ancestor (h : s.TrashInvariant) {k : ℕ} (hlive : s.Live drive id)
    (hk : ancestorAt (s.parentOf drive) k id = some a) : s.Live drive a := by
  induction k generalizing id with
  | zero =>
    rw [← Option.some.inj hk]
    exact hlive
  | succ k ih =>
    obtain ⟨parent, hparent, hk⟩ := Option.bind_eq_some_iff.mp hk
    obtain ⟨_, q, he⟩ := h.edge_of_parentOf hparent
    obtain ⟨n', hn', hlive'⟩ := hlive
    obtain rfl := Option.some.inj (hn'.symm.trans he.child)
    refine ih ⟨q, he.row, ?_⟩ hk
    by_contra hq
    exact h.inherited drive id n' parent q he hq hlive'

theorem TrashInvariant.consistent (h : s.TrashInvariant)
    (hmarks : ∀ drive id, trashed (drive, id) ↔ s.SelfTrashed drive id) :
    s.TrashConsistent trashed := by
  refine ⟨?_, ?_⟩
  · intro drive id parent hparent
    obtain ⟨n, q, he⟩ := h.edge_of_parentOf hparent
    exact ⟨q, he.row, h.directory drive id n parent q he⟩
  · rintro drive id ⟨n, hn⟩
    rw [← Bool.not_eq_true, hmarks]
    constructor
    · intro hlive
      refine ⟨fun k a hk => h.live_ancestor hlive hk, ?_⟩
      rintro ⟨m, hm, hmark⟩
      obtain ⟨_, hm', hlive⟩ := hlive
      rw [Option.some.inj (hm.symm.trans hm'), hlive] at hmark
      cases hmark
    · rintro ⟨hancestors, hself⟩
      refine ⟨n, hn, ?_⟩
      by_contra htrashed
      obtain ⟨root, hroot⟩ := Option.ne_none_iff_exists'.mp htrashed
      rcases h.origin drive id n root hn hroot with rfl | ⟨parent, q, he, hq⟩
      · exact hself ⟨n, hn, hroot⟩
      · -- The parent carries the same mark, so it is no live ancestor.
        have hfirst : ancestorAt (s.parentOf drive) (0 + 1) id = some parent := by
          rw [ancestorAt_succ, he.parentOf_eq, Option.bind_some, ancestorAt_zero]
        obtain ⟨_, hm, hlive⟩ := hancestors 0 parent hfirst
        rw [Option.some.inj (he.row.symm.trans hm), hlive] at hq
        cases hq

end Namespace

/-! ## Runs -/

/-- The node an operation trashes or restores, and which of the two. -/
def Operation.trashMark : Operation → Option ((DriveId × NodeId) × Bool)
  | .setNodeTrashState request =>
    some ((request.drive, request.resource), request.trash)
  | .nfsRemove request => some ((request.drive, request.node), true)
  | _ => none

/-- The nodes trashed and not restored so far, after one more operation. -/
def recordTrash (trashed : DriveId × NodeId → Bool) (op : Operation) : DriveId × NodeId → Bool :=
  match op.trashMark with
  | some (key, mark) => Function.update trashed key mark
  | none => trashed

/-- The database with the record of its trash and restore calls. -/
def trackedStep (t : State × (DriveId × NodeId → Bool)) (op : Operation) :
    Except DatabaseError (State × (DriveId × NodeId → Bool)) := do
  let db ← step t.1 op
  .ok (db, recordTrash t.2 op)

/-- The nodes trashed and not restored by the calls of a run. -/
def trashedBy (ops : List Operation) : DriveId × NodeId → Bool :=
  (run trackedStep (State.empty, fun _ => false) ops).2

/-- The directory creation and the commit of a new file find a live directory
as parent. -/
def CreatesUnderLiveDirectory (db : State) : Operation → Prop
  | .createDirectory request =>
    db.space.LiveDirectory request.drive request.parent
  | .commitUpload request => ∀ upload,
      db.uploads.get request.uploadId = some upload → upload.nodeId = none →
        db.space.LiveDirectory upload.driveId upload.parentId
  | _ => True

variable {db db' : State} {op : Operation} {drive : DriveId} {id : NodeId} {s : Namespace}

theorem permitted_liveParents (h : CreatesUnderLiveDirectory db op) :
    op.Permitted Namespace.liveParents db := by
  cases op <;>
    simp_all [Operation.Permitted, CreatesUnderLiveDirectory, Namespace.liveParents, Permit.any]

theorem permitted_otherTrash (h : ∀ mark, op.trashMark ≠ some ((drive, id), mark)) :
    op.Permitted (Namespace.otherTrash drive id) db := by
  cases op <;> simp_all [Operation.Permitted, Operation.trashMark, Namespace.otherTrash, Permit.any]

theorem trashInvariant_step (h : db.space.TrashInvariant) (hop : CreatesUnderLiveDirectory db op)
    (hstep : step db op = .ok db') : db'.space.TrashInvariant :=
  edits_invariant (fun _ _ => Namespace.trashInvariant_edit) h
    (step_edits (fun _ _ _ hlive => hlive) (permitted_liveParents hop) hstep)

/-- A successful trash or restore call leaves its node as it says. -/
theorem selfTrashed_marked {mark : Bool} (hclosed : db.space.Closed)
    (hmark : op.trashMark = some ((drive, id), mark)) (hstep : step db op = .ok db') :
    mark ↔ db'.space.SelfTrashed drive id := by
  cases op with
  | setNodeTrashState =>
    cases hmark
    obtain ⟨node, _, hnode, rfl,
      ⟨hmode, -, hlive, rfl⟩ | ⟨hmode, -, -, rfl⟩⟩ := setNodeTrashState_eq_ok hstep
    · rw [hmode]
      exact iff_of_true rfl (Namespace.selfTrashed_trash hclosed hnode hlive)
    · rw [hmode]
      exact iff_of_false Bool.false_ne_true (Namespace.selfTrashed_restore hclosed)
  | nfsRemove =>
    cases hmark
    obtain ⟨_, hnode, -, hlive, rfl⟩ := nfsRemove_eq_ok hstep
    refine iff_of_true rfl ?_
    have hself := Namespace.selfTrashed_trash hclosed hnode hlive
    apply (Namespace.selfTrashed_update _ _ _ _).mpr hself
    intro r
    rfl
  | _ => cases hmark

/-- The record of the calls agrees with the marks in the tree. -/
theorem recordTrash_selfTrashed (hclosed : db.space.Closed)
    (hmarks : ∀ drive id, trashed (drive, id) ↔ db.space.SelfTrashed drive id)
    (hstep : step db op = .ok db') (drive : DriveId) (id : NodeId) :
    recordTrash trashed op (drive, id) ↔ db'.space.SelfTrashed drive id := by
  by_cases hmark : ∃ mark, op.trashMark = some ((drive, id), mark)
  · obtain ⟨mark, hmark⟩ := hmark
    rw [recordTrash, hmark]
    dsimp only
    rw [Function.update_self]
    exact selfTrashed_marked hclosed hmark hstep
  · have hother : ∀ mark, op.trashMark ≠ some ((drive, id), mark) := fun mark h => hmark ⟨mark, h⟩
    have hsame : recordTrash trashed op (drive, id) = trashed (drive, id) := by
      unfold recordTrash
      cases hnode : op.trashMark with
      | none => rfl
      | some entry =>
        refine Function.update_of_ne ?_ _ _
        intro hkey
        exact hother entry.2 (hnode.trans (by rw [hkey]))
    rw [hsame, hmarks]
    exact (Namespace.selfTrashed_edits (step_edits (fun _ _ _ _ => trivial)
      (permitted_otherTrash hother) hstep)).symm

theorem advance_trackedStep (t : State × (DriveId × NodeId → Bool))
    (op : Operation) : (advance trackedStep t op).1 = advance step t.1 op := by
  unfold advance trackedStep
  cases step t.1 op with
  | error => rfl
  | ok => rfl

theorem trashInvariant_empty : State.empty.space.TrashInvariant := by
  refine ⟨Namespace.closed_empty, ?_, ?_, ?_⟩
  · intro drive id n parent q he
    cases he.child
  · intro drive id n parent q he
    cases he.child
  · intro drive id n root hn
    cases hn

/-- In every run that creates nodes below live directories, the database and
the record of the trash calls are consistent. -/
theorem trash_consistent (ops : List Operation)
    (hops : Meets step CreatesUnderLiveDirectory State.empty ops) :
    (reached ops).space.TrashConsistent (trashedBy ops) := by
  have hrun : (run trackedStep (State.empty, fun _ => false) ops).1 =
      reached ops :=
    run_project (π := Prod.fst) advance_trackedStep _ ops
  have hmeets := meets_project (π := Prod.fst)
    (t := (State.empty, fun _ => false)) advance_trackedStep hops
  have hinvariant := run_invariant (I := fun t => t.1.space.TrashInvariant ∧
      ∀ drive id, t.2 (drive, id) ↔ t.1.space.SelfTrashed drive id)
    ?_ ⟨trashInvariant_empty, ?_⟩ hmeets
  · rw [hrun] at hinvariant
    exact hinvariant.1.consistent hinvariant.2
  · rintro t op t' ⟨hspace, hmarks⟩ hop hstep
    obtain ⟨_, hdb', hstep⟩ := bind_eq_ok hstep
    cases hstep
    exact ⟨trashInvariant_step hspace hop hdb', recordTrash_selfTrashed hspace.closed hmarks hdb'⟩
  · intro drive id
    refine iff_of_false Bool.false_ne_true ?_
    rintro ⟨_, hn, -⟩
    cases hn

/-- A user with a private drive and a directory in it. -/
def directoryRun : List Operation :=
  [.linkOidcIdentity
      { principalId := 1, userId := 2, verifiedEmail := none, driveId := 3,
        rootId := 4 },
    .createSession { id := 5, userId := 2, idleExpiresAt := 100, absoluteExpiresAt := 100 },
    .createDirectory
      { caller := ⟨0, 1, 5, ⟨1, 1, 1, 1⟩⟩, drive := 3, parent := 4, id := 10,
        displayName := "a", nameKey := "a", expectedGeneration := 1 }]

def trashDirectory : Operation :=
  .setNodeTrashState
    { caller := ⟨0, 1, 5, ⟨1, 1, 2, 1⟩⟩, drive := 3, resource := 10,
      expectedNamespaceGeneration := 1, trash := true }

theorem live_of_any :
    s.Live drive id ↔ (s.nodes.get (drive, id)).any (fun n => n.trashRootId = none) := by
  rw [Option.any_eq_true]
  simp [Namespace.Live]

theorem liveDirectory_of_any
    (h : (s.nodes.get (drive, id)).any (fun n => n.kind = .directory ∧ n.trashRootId = none) =
      true) :
    s.LiveDirectory drive id := by
  obtain ⟨n, hn, hcond⟩ := (Option.any_eq_true _ _).mp h
  exact ⟨n, hn, of_decide_eq_true hcond⟩

/-- The directory is created live and then trashed. -/
theorem trash_consistent_directoryRun :
    (reached (directoryRun ++ [trashDirectory])).space.TrashConsistent
        (trashedBy (directoryRun ++ [trashDirectory])) ∧
      trashedBy (directoryRun ++ [trashDirectory]) (3, 10) := by
  refine ⟨trash_consistent _ ?_, by decide +kernel⟩
  exact ⟨trivial, trivial, liveDirectory_of_any (by decide +kernel), trivial, trivial⟩

def createInTrash : List Operation :=
  directoryRun ++ [trashDirectory, .createDirectory
    { caller := ⟨0, 1, 5, ⟨1, 1, 3, 1⟩⟩, drive := 3, parent := 10, id := 11,
      displayName := "b", nameKey := "b", expectedGeneration := 2 }]

/-- An upload into the directory, up to its commit. -/
def finalizedUpload : List Operation :=
  directoryRun ++ [.beginUpload
      { caller := ⟨0, 1, 5, ⟨1, 1, 2, 1⟩⟩, drive := 3, parent := 10,
        nodeId := none, expectedParentGeneration := some 1,
        expectedHead := none, displayName := "c", nameKey := "c",
        uploadId := 20, layout := .whole, partCount := 1,
        checkpointId := none, importIntentId := none, admission := .ok () },
    .claimUploadFinalization 20 1 21 true,
    .markUploadFinalized 20 1 21]

/-- The upload is begun before the directory is trashed and committed after. -/
def commitInTrash : List Operation :=
  finalizedUpload ++ [trashDirectory, .commitUpload
      { caller := ⟨0, 1, 5, ⟨1, 1, 3, 1⟩⟩, uploadId := 20,
        expectedFencingToken := 1, createdNodeId := 11, versionId := 22,
        provenance := .ok () }]

def createInFile : List Operation :=
  directoryRun ++ [.nfsCreate
      { mount := ⟨1, 1, true⟩, drive := 3, parent := 4, id := 12,
        kind := .file, displayName := "f", nameKey := "f",
        symlinkTarget := none, generations := ⟨1, 1, 2, 1, 2⟩ },
    .createDirectory
      { caller := ⟨0, 1, 5, ⟨1, 1, 3, 1⟩⟩, drive := 3, parent := 12, id := 11,
        displayName := "d", nameKey := "d", expectedGeneration := 1 }]

theorem not_trashConsistent_of_live (trashed : DriveId × NodeId → Bool)
    (hparent : s.parentOf drive id = some parent) (hlive : s.Live drive id)
    (htrash : ¬s.Live drive parent) : ¬s.TrashConsistent trashed := by
  intro h
  obtain ⟨hancestors, -⟩ := (h.live drive id (Namespace.HasNode.of_parentOf hparent)).mp hlive
  refine htrash (hancestors 0 parent ?_)
  rw [ancestorAt_succ, hparent, Option.bind_some, ancestorAt_zero]

/-- All three runs leave the trash and the tree inconsistent. -/
theorem create_unchecked_parent :
    ¬(reached createInTrash).space.TrashConsistent (trashedBy createInTrash) ∧
    ¬(reached commitInTrash).space.TrashConsistent (trashedBy commitInTrash) ∧
    ¬(reached createInFile).space.TrashConsistent (trashedBy createInFile) := by
  refine ⟨?_, ?_, ?_⟩
  · have hparent : (reached createInTrash).space.parentOf 3 11 = some 10 := by
      decide +kernel
    refine not_trashConsistent_of_live _ hparent ?_ ?_
    · exact live_of_any.mpr (by decide +kernel)
    · exact fun h => absurd (live_of_any.mp h) (by decide +kernel)
  · have hparent : (reached commitInTrash).space.parentOf 3 11 = some 10 := by
      decide +kernel
    refine not_trashConsistent_of_live _ hparent ?_ ?_
    · exact live_of_any.mpr (by decide +kernel)
    · exact fun h => absurd (live_of_any.mp h) (by decide +kernel)
  · intro h
    have hparent : (reached createInFile).space.parentOf 3 11 = some 12 := by
      decide +kernel
    obtain ⟨_, hq, hkind⟩ := h.directory 3 11 12 hparent
    have hfile : ((reached createInFile).space.nodes.get (3, 12)).map
        NodeRow.kind = some .file := by decide +kernel
    rw [hq, Option.map_some, hkind] at hfile
    cases hfile

end FileBelt.Database
