import FileBelt.Tree.Trash

/-!
# Entity tags of nodes

The entity tag of a node is made of its identifier and three generations of its row.
An edit that changes a visible column moves one of them, unless it is silent: a version
restore, a document revision, and the trash or restore of an ancestor.
-/

namespace FileBelt.Database

open Support

/-! ## Reading a node -/

/-- The columns of a node that a modelled transaction writes. -/
structure NodeRecord where
  id : NodeId
  driveId : DriveId
  parentId : Option NodeId
  kind : NodeKind
  displayName : String
  nameKey : String
  headVersionId : Option Uuid
  (namespaceGeneration aclGeneration attributeGeneration : ℕ)
  trashed : Bool
  deriving DecidableEq, Repr

def nodeFromRow (row : NodeRow) : NodeRecord where
  id := row.id
  driveId := row.driveId
  parentId := row.parentId
  kind := row.kind
  displayName := row.displayName
  nameKey := row.nameKey
  headVersionId := row.headVersionId
  namespaceGeneration := row.namespaceGeneration
  aclGeneration := row.aclGeneration
  attributeGeneration := row.attributeGeneration
  trashed := row.trashRootId.isSome

/-- `ControlDatabase::node`. -/
def readNode (db : State) (drive : DriveId) (id : NodeId) : Except DatabaseError NodeRecord := do
  let row ← okOr (db.node drive id) .notFound
  .ok (nodeFromRow row)

structure NodeResponse where
  id : NodeId
  driveId : DriveId
  parentId : Option NodeId
  kind : NodeKind
  displayName : String
  headVersionId : Option Uuid
  (namespaceGeneration aclGeneration attributeGeneration : ℕ)
  trashed : Bool
  deriving DecidableEq, Repr

/-- `NodeResponse::try_from`. -/
def NodeResponse.ofRecord (value : NodeRecord) : NodeResponse where
  id := value.id
  driveId := value.driveId
  parentId := value.parentId
  kind := value.kind
  displayName := value.displayName
  headVersionId := value.headVersionId
  namespaceGeneration := value.namespaceGeneration
  aclGeneration := value.aclGeneration
  attributeGeneration := value.attributeGeneration
  trashed := value.trashed

/-- The text of an entity tag; `uuidText` renders an identifier. -/
def nodeEtag (uuidText : Uuid → String) (node : NodeRecord) : String :=
  "\"fb-node-" ++ uuidText node.id ++ "-" ++ node.namespaceGeneration.repr ++
    "-" ++ node.aclGeneration.repr ++ "-" ++ node.attributeGeneration.repr ++
    "\""

variable {db : State} {drive : DriveId} {id : NodeId} {n n' n'' : NodeRow} {c : Char}

theorem readNode_eq_ok {node : NodeRecord} (h : readNode db drive id = .ok node) :
    ∃ row, db.node drive id = some row ∧ node = nodeFromRow row := by
  obtain ⟨row, hrow, h⟩ := bind_eq_ok h
  exact ⟨row, okOr_eq_ok hrow, (Except.ok.inj h).symm⟩

/-! ## The text determines the generations -/

/-- A text up to the first separator and the rest are determined. -/
theorem append_separator_inj {α : Type*} {separator : α}
    {xs xs' ys ys' : List α} (hxs : separator ∉ xs) (hxs' : separator ∉ xs')
    (h : xs ++ separator :: ys = xs' ++ separator :: ys') : xs = xs' ∧ ys = ys' := by
  induction xs generalizing xs' with
  | nil =>
    cases xs' with
    | nil => exact ⟨rfl, (List.cons.inj h).2⟩
    | cons x' =>
      have hhead : separator = x' := (List.cons.inj h).1
      exact absurd (hhead ▸ List.mem_cons_self) hxs'
  | cons x xs ih =>
    cases xs' with
    | nil =>
      have hhead : x = separator := (List.cons.inj h).1
      exact absurd (hhead ▸ List.mem_cons_self) hxs
    | cons x' =>
      obtain ⟨hhead, htail⟩ := List.cons.inj h
      obtain ⟨hxs, hys⟩ := ih (fun hmem => hxs (List.mem_cons_of_mem x hmem))
        (fun hmem => hxs' (List.mem_cons_of_mem x' hmem)) htail
      exact ⟨by rw [hhead, hxs], hys⟩

theorem separator_notMem_repr (hc : c.isDigit = false) (n : ℕ) : c ∉ n.repr.toList := by
  intro hmem
  rw [Nat.toList_repr] at hmem
  have hdigit := Nat.isDigit_of_mem_toDigits (by decide) (by decide) hmem
  rw [hc] at hdigit
  cases hdigit

/-- A decimal number and what follows its separator are determined. -/
theorem repr_separator_inj (hc : c.isDigit = false) {m n : ℕ} {ys ys' : List Char}
    (h : m.repr.toList ++ c :: ys = n.repr.toList ++ c :: ys') : m = n ∧ ys = ys' := by
  obtain ⟨hrepr, hys⟩ := append_separator_inj (separator_notMem_repr hc m)
    (separator_notMem_repr hc n) h
  rw [Nat.toList_repr, Nat.toList_repr] at hrepr
  have hvalue := congrArg (fun digits => Nat.ofDigitChars 10 digits 0) hrepr
  simp only [Nat.ofDigitChars_toDigits (b := 10) (by decide) (by decide)] at hvalue
  exact ⟨hvalue, hys⟩

theorem nodeEtag_inj {uuidText : Uuid → String} {m n : NodeRecord}
    (hid : m.id = n.id) (h : nodeEtag uuidText m = nodeEtag uuidText n) :
    m.namespaceGeneration = n.namespaceGeneration ∧ m.aclGeneration = n.aclGeneration ∧
      m.attributeGeneration = n.attributeGeneration := by
  unfold nodeEtag at h
  rw [hid] at h
  have hchars := congrArg String.toList h
  simp only [String.toList_append, List.append_assoc] at hchars
  have htail := List.append_cancel_left (List.append_cancel_left (List.append_cancel_left hchars))
  obtain ⟨hnamespace, htail⟩ := repr_separator_inj rfl htail
  obtain ⟨hacl, htail⟩ := repr_separator_inj rfl htail
  obtain ⟨hattribute, -⟩ := repr_separator_inj rfl htail
  exact ⟨hnamespace, hacl, hattribute⟩

/-! ## Rows along a run -/

/-- Generations did not decrease; if none moved, what a response shows did not change. -/
structure NodeRow.Newer (n n' : NodeRow) : Prop where
  namespaceGeneration : n.namespaceGeneration ≤ n'.namespaceGeneration
  aclGeneration : n.aclGeneration ≤ n'.aclGeneration
  attributeGeneration : n.attributeGeneration ≤ n'.attributeGeneration
  visible : n'.namespaceGeneration = n.namespaceGeneration →
    n'.aclGeneration = n.aclGeneration →
    n'.attributeGeneration = n.attributeGeneration →
    n'.headVersionId = n.headVersionId ∧ n'.displayName = n.displayName ∧
      n'.parentId = n.parentId ∧
      n'.trashRootId.isSome = n.trashRootId.isSome

theorem NodeRow.Newer.refl (n : NodeRow) : n.Newer n :=
  ⟨le_rfl, le_rfl, le_rfl, fun _ _ _ => ⟨rfl, rfl, rfl, rfl⟩⟩

theorem NodeRow.Newer.trans (h : n.Newer n') (h' : n'.Newer n'') : n.Newer n'' := by
  refine ⟨h.namespaceGeneration.trans h'.namespaceGeneration,
    h.aclGeneration.trans h'.aclGeneration,
    h.attributeGeneration.trans h'.attributeGeneration, ?_⟩
  -- Equal at the ends, the generations are equal in between.
  intro hnamespace hacl hattribute
  have hn := h.namespaceGeneration
  have hn' := h'.namespaceGeneration
  have ha := h.aclGeneration
  have ha' := h'.aclGeneration
  have ht := h.attributeGeneration
  have ht' := h'.attributeGeneration
  obtain ⟨hhead, hname, hparent, htrash⟩ := h.visible (by omega) (by omega) (by omega)
  obtain ⟨hhead', hname', hparent', htrash'⟩ := h'.visible (by omega) (by omega) (by omega)
  exact ⟨hhead'.trans hhead, hname'.trans hname, hparent'.trans hparent, htrash'.trans htrash⟩

theorem NodeRow.OnlyAdvances.newer (h : n.OnlyAdvances n') : n.Newer n' := by
  refine ⟨h.namespaceGeneration, h.aclGeneration, h.attributeGeneration, ?_⟩
  intro _ _ _
  exact ⟨h.headVersionId, h.displayName, h.parentId, by rw [h.trashRootId]⟩

/-- A row whose namespace generation advances may change in every other
column. -/
theorem NodeRow.Newer.of_bump (hnamespace : n'.namespaceGeneration = n.namespaceGeneration + 1)
    (hacl : n'.aclGeneration = n.aclGeneration)
    (hattribute : n'.attributeGeneration = n.attributeGeneration) : n.Newer n' := by
  refine ⟨by omega, by omega, by omega, ?_⟩
  omega

namespace Namespace

/-- The row of a node and a newer one in a later tree. -/
def Kept (s s' : Namespace) (drive : DriveId) (id : NodeId) : Prop :=
  ∀ n, s.nodes.get (drive, id) = some n → ∃ n', s'.nodes.get (drive, id) = some n' ∧ n.Newer n'

theorem Kept.refl (s : Namespace) (drive : DriveId) (id : NodeId) : s.Kept s drive id :=
  fun n hn => ⟨n, hn, .refl n⟩

variable {s s' s'' : Namespace} {drive : DriveId} {id : NodeId}

theorem Kept.trans (h : s.Kept s' drive id) (h' : s'.Kept s'' drive id) : s.Kept s'' drive id := by
  intro n hn
  obtain ⟨n', hn', hnewer⟩ := h n hn
  obtain ⟨n'', hn'', hnewer'⟩ := h' n' hn'
  exact ⟨n'', hn'', hnewer.trans hnewer'⟩

/-- The row after an edit that changes it, where the permit allows what shows in no
generation. -/
inductive RowEdit (silent : Prop) (n n' : NodeRow) : Prop
  | advances (h : n.OnlyAdvances n')
  | bump (hnamespace : n'.namespaceGeneration = n.namespaceGeneration + 1)
    (hacl : n'.aclGeneration = n.aclGeneration)
    (hattribute : n'.attributeGeneration = n.attributeGeneration)
  | silent (h : silent) (hnamespace : n.namespaceGeneration ≤ n'.namespaceGeneration)

theorem RowEdit.refl (silent : Prop) (n : NodeRow) : RowEdit silent n n :=
  .advances ⟨rfl, rfl, rfl, rfl, rfl, le_rfl, le_rfl, le_rfl⟩

theorem exists_row_map {R : NodeRow → NodeRow → Prop} {g : NodeRow → NodeRow}
    (hget : ∀ k, s'.nodes.get k = (s.nodes.get k).map g) (hrow : R n (g n))
    (hn : s.nodes.get (drive, id) = some n) : ∃ n', s'.nodes.get (drive, id) = some n' ∧ R n n' :=
  ⟨g n, by rw [hget, hn, Option.map_some], hrow⟩

theorem rowEdit_of_edit {permit : Permit} (hedit : Edit permit s s')
    (hn : s.nodes.get (drive, id) = some n) :
    ∃ n', s'.nodes.get (drive, id) = some n' ∧ RowEdit (permit.silent drive id) n n' := by
  obtain ⟨rfl, rfl⟩ := row_drive hn
  -- the bulk updates advance the generation of their root only
  have hsubtree : ∀ {d root} {mark mark' : Option NodeId},
      (∀ i m, s.nodes.get (d, i) = some m → i ≠ root → s.below d root i →
        m.trashRootId = mark → permit.silent d i) →
      RowEdit (permit.silent n.driveId n.id) n
        (if n.driveId = d ∧ s.below d root n.id ∧ n.trashRootId = mark then
          { n with
            trashRootId := mark'
            namespaceGeneration :=
              if n.id = root then n.namespaceGeneration + 1
              else n.namespaceGeneration }
        else n) := by
    intro d root mark mark' hsilent
    split
    · next hcond =>
      obtain ⟨rfl, hbelow, hmark⟩ := hcond
      by_cases hroot : n.id = root
      · exact .bump (if_pos hroot) rfl rfl
      · exact .silent (hsilent n.id n hn hroot hbelow hmark) (if_neg hroot).ge
    · exact .refl _ n
  cases hedit with
  | generations p f hf honly =>
    refine exists_row_map (nodes_get_update s p f hf) ?_ hn
    split
    · exact .advances (honly n)
    · exact .refl _ n
  | head =>
    refine exists_row_map (nodes_get_updateWhere s _ _) ?_ hn
    split
    · exact .bump rfl rfl rfl
    · exact .refl _ n
  | headOnly d v version hsilent =>
    refine exists_row_map (nodes_get_updateWhere s _ _) ?_ hn
    split
    · next hcond =>
      obtain ⟨rfl, rfl⟩ := hcond
      exact .silent hsilent le_rfl
    · exact .refl _ n
  | root _ _ _ _ hnode =>
    exact ⟨n, (insertNode_eq_ok hnode).get_of_some hn, .refl _ n⟩
  | child _ _ _ _ _ _ hnode =>
    exact ⟨n, (insertNode_eq_ok hnode).get_of_some hn, .refl _ n⟩
  | move _ _ _ _ _ _ _ ancestry =>
    refine exists_row_map (nodes_get_updateWhere { s with ancestry := ancestry } _ _) ?_ hn
    split
    · exact .bump rfl rfl rfl
    · exact .refl _ n
  | trash _ _ _ _ _ _ _ hsilent =>
    exact exists_row_map (nodes_get_updateWhere s _ _) (hsubtree hsilent) hn
  | restore _ _ _ _ _ _ _ _ _ hsilent =>
    exact exists_row_map (nodes_get_updateWhere s _ _) (hsubtree hsilent) hn

/-- Silent edits of other nodes only. -/
def visibleEdits (drive : DriveId) (id : NodeId) : Permit :=
  { Permit.any with silent := fun d i => ¬(d = drive ∧ i = id) }

theorem kept_edit (hedit : Edit (visibleEdits drive id) s s') : s.Kept s' drive id := by
  intro n hn
  obtain ⟨n', hn', hrow⟩ := rowEdit_of_edit hedit hn
  refine ⟨n', hn', ?_⟩
  cases hrow with
  | advances h => exact h.newer
  | bump hnamespace hacl hattribute => exact .of_bump hnamespace hacl hattribute
  | silent h => exact absurd ⟨rfl, rfl⟩ h

theorem kept_edits (h : Edits (visibleEdits drive id) s s') : s.Kept s' drive id := by
  induction h with
  | refl => exact Kept.refl s drive id
  | tail _ hedit ih => exact ih.trans (kept_edit hedit)

end Namespace

/-! ## Runs between two reads -/

/-- No version restore or document revision of the node, and no trash, restore or remove
of a proper ancestor that takes the node along. -/
def ChangesVisibly (drive : DriveId) (id : NodeId) (db : State) : Operation → Prop
  | .restoreFileVersion request => ¬(request.drive = drive ∧ request.node = id)
  | .commitDocumentRevision request =>
    ¬(request.drive = drive ∧ request.node = id)
  | .setNodeTrashState request => ∀ n, db.node drive id = some n →
      n.trashRootId = (if request.trash then none else some request.resource) →
      request.drive = drive → db.space.below drive request.resource id →
      id = request.resource
  | .nfsRemove request => ∀ n, db.node drive id = some n →
      n.trashRootId = none → request.drive = drive →
      db.space.below drive request.node id → id = request.node
  | _ => True

theorem permitted_visibleEdits {op : Operation} (hnode : db.node drive id ≠ none)
    (h : ChangesVisibly drive id db op) : op.Permitted (Namespace.visibleEdits drive id) db := by
  cases op with
  | createDocumentConflictCopy =>
    rintro hfresh ⟨rfl, rfl⟩
    exact hnode hfresh
  | setNodeTrashState request =>
    refine ⟨?_, ?_⟩
    · split
      · trivial
      · trivial
    · rintro i n hn hne hbelow hmark ⟨rfl, rfl⟩
      exact hne (h n hn hmark rfl hbelow)
  | nfsRemove request =>
    refine ⟨trivial, ?_⟩
    rintro i n hn hne hbelow hmark ⟨rfl, rfl⟩
    exact hne (h n hn hmark rfl hbelow)
  | commitUpload request => exact fun _ _ _ => trivial
  | restoreFileVersion => exact h
  | commitDocumentRevision => exact h
  | _ => trivial

/-- Along a run of visible changes the row of a node stays and is kept. -/
theorem kept_run (hn : db.node drive id = some n) {ops : List Operation}
    (hops : Meets step (ChangesVisibly drive id) db ops) :
    ∃ n', (run step db ops).node drive id = some n' ∧ n.Newer n' := by
  refine run_invariant (I := fun db => ∃ n', db.node drive id = some n' ∧
    n.Newer n') ?_ ⟨n, hn, .refl n⟩ hops
  rintro db op db' ⟨n', hn', hnewer⟩ hop hstep
  have hnode : db.node drive id ≠ none := by simp [hn']
  have hkept := Namespace.kept_edits (step_edits (fun _ _ _ _ => trivial)
    (permitted_visibleEdits hnode hop) hstep)
  obtain ⟨n'', hn'', hnewer'⟩ := hkept n' hn'
  exact ⟨n'', hn'', hnewer.trans hnewer'⟩

/-- Two reads of a node with equal entity tags show the same head version,
name, parent and trashed flag, when between them the node only changes
visibly. -/
theorem equal_etags_agree (uuidText : Uuid → String)
    (before between : List Operation) (drive : DriveId) (id : NodeId)
    (first second : NodeRecord)
    (hfirst : readNode (reached before) drive id = .ok first)
    (hsecond : readNode (reached (before ++ between)) drive id = .ok second)
    (hbetween : Meets step (ChangesVisibly drive id) (reached before) between)
    (hetag : nodeEtag uuidText first = nodeEtag uuidText second) :
    (NodeResponse.ofRecord first).headVersionId =
        (NodeResponse.ofRecord second).headVersionId ∧
      (NodeResponse.ofRecord first).displayName =
        (NodeResponse.ofRecord second).displayName ∧
      (NodeResponse.ofRecord first).parentId =
        (NodeResponse.ofRecord second).parentId ∧
      (NodeResponse.ofRecord first).trashed = (NodeResponse.ofRecord second).trashed := by
  obtain ⟨n, hn, rfl⟩ := readNode_eq_ok hfirst
  obtain ⟨_, hm, rfl⟩ := readNode_eq_ok hsecond
  obtain ⟨n', hn', hnewer⟩ := kept_run hn hbetween
  have hrun : reached (before ++ between) = run step (reached before) between :=
    run_append _ before between
  rw [hrun, hn'] at hm
  obtain rfl := Option.some.inj hm
  have hid : n.id = n'.id := (Namespace.row_drive hn).2.trans (Namespace.row_drive hn').2.symm
  obtain ⟨hnamespace, hacl, hattribute⟩ := nodeEtag_inj hid hetag
  obtain ⟨hhead, hname, hparent, htrash⟩ := hnewer.visible hnamespace.symm hacl.symm hattribute.symm
  exact ⟨hhead.symm, hname.symm, hparent.symm, htrash.symm⟩

/-- A file uploaded into the directory of `directoryRun`. -/
def uploadRun : List Operation :=
  finalizedUpload ++ [.commitUpload
      { caller := ⟨0, 1, 5, ⟨1, 1, 2, 1⟩⟩, uploadId := 20,
        expectedFencingToken := 1, createdNodeId := 12, versionId := 22,
        provenance := .ok () }]

def uploadedFile : NodeRecord where
  id := 12
  driveId := 3
  parentId := some 10
  kind := .file
  displayName := "c"
  nameKey := "c"
  headVersionId := some 22
  namespaceGeneration := 2
  aclGeneration := 1
  attributeGeneration := 1
  trashed := false

def restoreUploaded : Operation :=
  .restoreFileVersion
    { caller := ⟨0, 1, 5, ⟨1, 1, 3, 1⟩⟩, drive := 3, node := 12,
      sourceVersion := 22, expectedHead := some 22, versionId := 23 }

def trashParent : Operation :=
  .setNodeTrashState
    { caller := ⟨0, 1, 5, ⟨1, 1, 3, 1⟩⟩, drive := 3, resource := 10,
      expectedNamespaceGeneration := 1, trash := true }

def createSibling : Operation :=
  .createDirectory
    { caller := ⟨0, 1, 5, ⟨1, 1, 3, 1⟩⟩, drive := 3, parent := 10, id := 13,
      displayName := "d", nameKey := "d", expectedGeneration := 1 }

theorem readNode_uploadRun : readNode (reached uploadRun) 3 12 = .ok uploadedFile := by
  decide +kernel

/-- A directory is created between two reads of the file. -/
theorem equal_etags_agree_uploadRun :
    ∃ second, readNode (reached (uploadRun ++ [createSibling])) 3 12 =
        .ok second ∧
      uploadedFile.headVersionId = second.headVersionId := by
  have hsecond : readNode (reached (uploadRun ++ [createSibling])) 3 12 =
      .ok uploadedFile := by decide +kernel
  have hagree := equal_etags_agree Nat.repr uploadRun [createSibling] 3 12
    uploadedFile uploadedFile readNode_uploadRun hsecond ⟨trivial, trivial⟩ rfl
  exact ⟨uploadedFile, hsecond, hagree.1⟩

/-- Restoring a version and trashing the parent keep the entity tag. -/
theorem equal_etags_disagree :
    (∃ second, readNode (reached (uploadRun ++ [restoreUploaded])) 3 12 =
        .ok second ∧
      nodeEtag Nat.repr uploadedFile = nodeEtag Nat.repr second ∧
      second.headVersionId ≠ uploadedFile.headVersionId) ∧
    ∃ second, readNode (reached (uploadRun ++ [trashParent])) 3 12 =
        .ok second ∧
      nodeEtag Nat.repr uploadedFile = nodeEtag Nat.repr second ∧
      second.trashed ≠ uploadedFile.trashed := by
  refine ⟨⟨{ uploadedFile with headVersionId := some 23 }, ?_, rfl, ?_⟩,
    ⟨{ uploadedFile with trashed := true }, ?_, rfl, ?_⟩⟩
  · decide +kernel
  · decide
  · decide +kernel
  · decide

end FileBelt.Database
