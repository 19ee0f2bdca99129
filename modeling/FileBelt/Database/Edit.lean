import FileBelt.Database.Run
import Mathlib.Logic.Relation

/-!
# What a transaction does to the node tree

Every successful operation changes the node tree by a chain of a few kinds of edits.
A `Permit` lets a theorem demand something of the places where nodes are created, of
the drives where nodes are moved, of the nodes trashed and restored and of those whose
visible columns change without a new generation; `Operation.Permitted` is that demand
in the state before the operation.
-/

namespace FileBelt.Database

open Support Relation

/-- Where nodes may be created and moved, which may be trashed and restored, and which may
change visibly without a new generation. -/
structure Permit where
  under : Namespace → DriveId → NodeId → Prop
  moves : DriveId → Prop
  (trashes restores silent : DriveId → NodeId → Prop)

/-- No demand at all. -/
def Permit.any : Permit where
  under := fun _ _ _ => True
  moves := fun _ => True
  trashes := fun _ _ => True
  restores := fun _ _ => True
  silent := fun _ _ => True

/-- The row changes in its generations only, and they do not decrease. -/
structure NodeRow.OnlyAdvances (n n' : NodeRow) : Prop where
  parentId : n'.parentId = n.parentId
  kind : n'.kind = n.kind
  displayName : n'.displayName = n.displayName
  headVersionId : n'.headVersionId = n.headVersionId
  trashRootId : n'.trashRootId = n.trashRootId
  namespaceGeneration : n.namespaceGeneration ≤ n'.namespaceGeneration
  aclGeneration : n.aclGeneration ≤ n'.aclGeneration
  attributeGeneration : n.attributeGeneration ≤ n'.attributeGeneration

def Namespace.LiveDirectory (s : Namespace) (drive : DriveId) (id : NodeId) : Prop :=
  ∃ n, s.nodes.get (drive, id) = some n ∧ n.kind = .directory ∧ n.trashRootId = none

/-- One change of the node tree. -/
inductive Edit (permit : Permit) (s : Namespace) : Namespace → Prop
  | generations (p : NodeRow → Bool) (f : NodeRow → NodeRow)
      (hf : ∀ n, NodeRow.key (f n) = NodeRow.key n)
      (honly : ∀ n : NodeRow, n.OnlyAdvances (f n)) :
      Edit permit s (s.update p f hf)
  | head (drive : DriveId) (id : NodeId) (version : Uuid) :
      Edit permit s (s.setHead drive id version)
  | headOnly (drive : DriveId) (id : NodeId) (version : Uuid) (hsilent : permit.silent drive id) :
      Edit permit s (s.setHeadOnly drive id version)
  | root (drive : DriveId) (id : NodeId) (space : Namespace) (ancestry : Table AncestryRow.key)
      (hnode : s.insertNode (.inserted drive id none .directory "" "" none) = .ok space)
      (hancestry : Namespace.insertAncestry space.ancestry
        [{ driveId := drive, ancestorId := id, descendantId := id,
           depth := 0 }] = .ok ancestry) :
      Edit permit s { space with ancestry := ancestry }
  | child (row : NodeRow) (parent : NodeId) (space : Namespace) (ancestry : Table AncestryRow.key)
      (hparent : row.parentId = some parent) (hlive : row.trashRootId = none)
      (hnode : s.insertNode row = .ok space)
      (hancestry : Namespace.insertAncestry space.ancestry
        (Namespace.childRows space.ancestry row.driveId parent row.id) = .ok ancestry)
      (hunder : permit.under s row.driveId parent) :
      Edit permit s { space with ancestry := ancestry }
  | move (drive : DriveId) (v target : NodeId) (displayName nameKey : String)
      (row : NodeRow) (old : NodeId) (ancestry : Table AncestryRow.key)
      (hrow : s.nodes.get (drive, v) = some row)
      (hold : row.parentId = some old) (hlive : row.trashRootId = none)
      (htarget : s.LiveDirectory drive target)
      (hbelow : s.below drive v target = false)
      (hancestry : (old = target ∧ ancestry = s.ancestry) ∨
        (old ≠ target ∧ Namespace.moveAncestry s.ancestry drive v target = .ok ancestry))
      (hmoves : permit.moves drive) :
      Edit permit s ({ s with ancestry := ancestry }.setPlace drive v target displayName nameKey)
  | trash (drive : DriveId) (root : NodeId) (row : NodeRow)
      (hrow : s.nodes.get (drive, root) = some row)
      (hparent : row.parentId ≠ none) (hlive : row.trashRootId = none)
      (htrashes : permit.trashes drive root)
      (hsilent : ∀ id n, s.nodes.get (drive, id) = some n → id ≠ root →
        s.below drive root id → n.trashRootId = none → permit.silent drive id) :
      Edit permit s (s.trashSubtree drive root)
  | restore (drive : DriveId) (root parent : NodeId) (row : NodeRow)
      (hrow : s.nodes.get (drive, root) = some row)
      (hparent : row.parentId = some parent)
      (htrashed : row.trashRootId = some root)
      (hlive : ∃ n, s.nodes.get (drive, parent) = some n ∧ n.trashRootId = none)
      (hrestores : permit.restores drive root)
      (hsilent : ∀ id n, s.nodes.get (drive, id) = some n → id ≠ root →
        s.below drive root id → n.trashRootId = some root →
        permit.silent drive id) :
      Edit permit s (s.restoreSubtree drive root)

abbrev Edits (permit : Permit) : Namespace → Namespace → Prop := ReflTransGen (Edit permit)

/-- The demand of a permit on one operation.  Only the operations that check
nothing themselves appear. -/
def Operation.Permitted (permit : Permit) (db : State) : Operation → Prop
  | .createDirectory request =>
    permit.under db.space request.drive request.parent
  | .commitUpload request => ∀ upload,
      db.uploads.get request.uploadId = some upload → upload.nodeId = none →
        permit.under db.space upload.driveId upload.parentId
  | .restoreFileVersion request => permit.silent request.drive request.node
  | .commitDocumentRevision request => permit.silent request.drive request.node
  | .createDocumentConflictCopy request =>
    db.node request.drive request.id = none → permit.silent request.drive request.id
  | .nfsRename request => permit.moves request.drive
  | .setNodeTrashState request =>
    (if request.trash then permit.trashes request.drive request.resource
      else permit.restores request.drive request.resource) ∧
    ∀ id n, db.node request.drive id = some n → id ≠ request.resource →
      db.space.below request.drive request.resource id →
      n.trashRootId = (if request.trash then none else some request.resource) →
      permit.silent request.drive id
  | .nfsRemove request =>
    permit.trashes request.drive request.node ∧
    ∀ id n, db.node request.drive id = some n → id ≠ request.node →
      db.space.below request.drive request.node id → n.trashRootId = none →
      permit.silent request.drive id
  | _ => True

variable {permit : Permit} {s space space' s' : Namespace} {db db' : State} {request : NfsRename}
  {generation : ℕ} {drive : DriveId} {parent id : NodeId}

theorem edit_bumpNamespaceGeneration (s : Namespace) (drive : DriveId) (p : NodeId → Bool) :
    Edit permit s (s.bumpNamespaceGeneration drive p) :=
  .generations _ _ _ fun _ =>
    ⟨rfl, rfl, rfl, rfl, rfl, Nat.le_succ _, le_rfl, le_rfl⟩

theorem edit_bumpAttributeGeneration (s : Namespace) (drive : DriveId)
    (id : NodeId) : Edit permit s (s.bumpAttributeGeneration drive id) :=
  .generations _ _ _ fun _ =>
    ⟨rfl, rfl, rfl, rfl, rfl, le_rfl, le_rfl, Nat.le_succ _⟩

theorem edit_bumpAcl (db : State) (changed : List AclEntryRow) :
    Edit permit db.space (db.bumpAcl changed).space :=
  .generations _ _ _ fun _ =>
    ⟨rfl, rfl, rfl, rfl, rfl, le_rfl, Nat.le_succ _, le_rfl⟩

theorem edit_insertChild {ancestryError : SqlError → DatabaseError} {row : NodeRow}
    (hparent : row.parentId = some parent) (hlive : row.trashRootId = none)
    (hunder : permit.under s row.driveId parent)
    (h : insertChild s ancestryError parent row = .ok space) : Edit permit s space := by
  obtain ⟨inserted, ancestry, hnode, hancestry, rfl⟩ := insertChild_eq_ok h
  exact .child row parent inserted ancestry hparent hlive hnode hancestry hunder

theorem liveDirectory_of_check (h : liveDirectory (s.nodes.get (drive, id)) generation) :
    s.LiveDirectory drive id := by
  obtain ⟨n, hget, hn⟩ := (Option.any_eq_true _ _).mp h
  obtain ⟨hkind, hlive, -⟩ := of_decide_eq_true hn
  exact ⟨n, hget, hkind, hlive⟩

theorem movable_of_check (h : movableNode (s.nodes.get (drive, id)) parent generation) :
    ∃ n, s.nodes.get (drive, id) = some n ∧ n.parentId = some parent ∧ n.trashRootId = none := by
  obtain ⟨n, hget, hn⟩ := (Option.any_eq_true _ _).mp h
  obtain ⟨hparent, hlive, -⟩ := of_decide_eq_true hn
  exact ⟨n, hget, hparent, hlive⟩

theorem setNodeTrashState_eq_ok {request : SetNodeTrashState}
    (h : setNodeTrashState db request = .ok db') :
    ∃ node space, db.node request.drive request.resource = some node ∧
      db' = { db with space := space }.bumpDriveNamespace request.drive ∧
      ((request.trash ∧ node.parentId ≠ none ∧ node.trashRootId = none ∧
          space = db.space.trashSubtree request.drive request.resource) ∨
        (request.trash = false ∧ node.trashRootId = some request.resource ∧
          (∃ parent n, node.parentId = some parent ∧
            db.node request.drive parent = some n ∧ n.trashRootId = none) ∧
          space = db.space.restoreSubtree request.drive request.resource)) := by
  obtain ⟨-, -, h⟩ := bind_eq_ok h
  obtain ⟨node, hnode, h⟩ := bind_eq_ok h
  obtain ⟨hcurrent, h⟩ := else_of_ok h
  obtain ⟨space, hspace, h⟩ := bind_eq_ok h
  cases h
  refine ⟨node, space, okOr_eq_ok hnode, rfl, ?_⟩
  simp only [trashTargetStale, decide_eq_true_eq, not_or] at hcurrent
  obtain ⟨-, hparent, htrash, hrestore⟩ := hcurrent
  unfold writeTrashState at hspace
  split at hspace
  · next hmode =>
    cases hspace
    have hlive : node.trashRootId = none := by
      simpa [hmode] using htrash
    exact .inl ⟨hmode, hparent, hlive, rfl⟩
  · next hmode =>
    have hroot : node.trashRootId = some request.resource := by
      simpa [hmode] using hrestore
    obtain ⟨parent, hparent⟩ := Option.ne_none_iff_exists'.mp hparent
    obtain ⟨hlive, hspace⟩ := then_of_ok hspace
    obtain ⟨-, hspace⟩ := then_of_ok hspace
    cases hspace
    rw [hparent] at hlive
    obtain ⟨p, hp, hplive⟩ := (Option.any_eq_true _ _).mp hlive
    exact .inr ⟨Bool.eq_false_iff.mpr hmode, hroot,
      ⟨parent, p, hparent, hp, of_decide_eq_true hplive⟩, rfl⟩

/-- A removal marks the subtree of a live node below its parent. -/
theorem nfsRemove_eq_ok {request : NfsRemove} (h : nfsRemove db request = .ok db') :
    ∃ node, db.node request.drive request.node = some node ∧
      node.parentId = some request.parent ∧ node.trashRootId = none ∧
      db' = { db with
        space := (db.space.trashSubtree request.drive
          request.node).bumpNamespaceGeneration request.drive
            (· = request.parent) }.bumpDriveNamespace request.drive := by
  obtain ⟨-, -, h⟩ := bind_eq_ok h
  obtain ⟨-, -, h⟩ := bind_eq_ok h
  obtain ⟨hmovable, h⟩ := else_of_ok h
  obtain ⟨row, hrow, hparent, hlive⟩ := movable_of_check (not_not.mp hmovable)
  exact ⟨row, hrow, hparent, hlive, (Except.ok.inj h).symm⟩

theorem renameNode_eq_ok (h : renameNode space request = .ok space') :
    space' = space.setPlace request.drive request.node request.targetParent
      request.displayName request.nameKey := by
  obtain ⟨-, h⟩ := else_of_ok h
  obtain ⟨-, h⟩ := else_of_ok h
  exact (Except.ok.inj h).symm

theorem renameAncestry_eq_ok {ancestry : Table AncestryRow.key}
    (h : renameAncestry db request = .ok ancestry) :
    (request.oldParent = request.targetParent ∧ ancestry = db.space.ancestry) ∨
      (request.oldParent ≠ request.targetParent ∧
        Namespace.moveAncestry db.space.ancestry request.drive request.node
          request.targetParent = .ok ancestry) := by
  unfold renameAncestry at h
  split at h
  · next hsame => exact .inl ⟨hsame, (Except.ok.inj h).symm⟩
  · next hmoved => exact .inr ⟨hmoved, mapError_eq_ok h⟩

/-- What a successful rename checked and wrote. -/
structure Renamed (db : State) (request : NfsRename) (space : Namespace) : Prop where
  outside : db.space.below request.drive request.node request.targetParent = false
  target : db.space.LiveDirectory request.drive request.targetParent
  moved : ∃ row ancestry,
    db.space.nodes.get (request.drive, request.node) = some row ∧
    row.parentId = some request.oldParent ∧ row.trashRootId = none ∧
    ((request.oldParent = request.targetParent ∧
        ancestry = db.space.ancestry) ∨
      (request.oldParent ≠ request.targetParent ∧
        Namespace.moveAncestry db.space.ancestry request.drive request.node
          request.targetParent = .ok ancestry)) ∧
    space = ({ db.space with ancestry := ancestry }.setPlace request.drive
      request.node request.targetParent request.displayName
      request.nameKey).bumpNamespaceGeneration request.drive fun id =>
        (id = request.oldParent ∨ id = request.targetParent) ∧ id ≠ request.node

/-- A rename moves a live node with its subtree below a live directory. -/
theorem nfsRename_eq_ok (h : nfsRename db request = .ok db') :
    Renamed db request db'.space ∧ ∃ space,
      db' = { db with space := space }.bumpDriveNamespace request.drive := by
  obtain ⟨-, -, h⟩ := bind_eq_ok h
  obtain ⟨-, -, h⟩ := bind_eq_ok h
  obtain ⟨-, -, h⟩ := bind_eq_ok h
  obtain ⟨haccepted, h⟩ := else_of_ok h
  rw [not_or, not_not, Bool.not_eq_true] at haccepted
  obtain ⟨hmovable, hbelow⟩ := haccepted
  obtain ⟨htarget, h⟩ := else_of_ok h
  obtain ⟨ancestry, hancestry, h⟩ := bind_eq_ok h
  obtain ⟨_, hspace, h⟩ := bind_eq_ok h
  cases h
  obtain ⟨row, hrow, hparent, hlive⟩ := movable_of_check hmovable
  refine ⟨⟨hbelow, liveDirectory_of_check (not_not.mp htarget), row,
    ancestry, hrow, hparent, hlive, renameAncestry_eq_ok hancestry, ?_⟩, _, rfl⟩
  dsimp only [State.bumpDriveNamespace]
  rw [renameNode_eq_ok hspace]

theorem permitted_any (db : State) (op : Operation) : op.Permitted .any db := by
  cases op <;> simp [Operation.Permitted, Permit.any]

/-- What every edit keeps, a chain of edits keeps. -/
theorem edits_invariant {I : Namespace → Prop} (hedit : ∀ s s', I s → Edit permit s s' → I s')
    (hs : I s) (h : Edits permit s s') : I s' := by
  induction h with
  | refl => exact hs
  | tail _ hlast ih => exact hedit _ _ ih hlast

end FileBelt.Database
