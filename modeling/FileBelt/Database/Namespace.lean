import FileBelt.Database.Schema

/-!
# Statements on the node tree

The statements that change `nodes` and `node_ancestry`, from which the transactions
are composed.  Constraints are checked in the order of the engine: `CHECK`
constraints, unique indexes, foreign keys.  The foreign key to the drive is left out,
since every transaction has read the drive row before.
-/

namespace FileBelt.Database

open Support

namespace Namespace

variable (space : Namespace)

/-- `EXISTS` of an ancestry row. -/
def below (drive : DriveId) (root id : NodeId) : Bool :=
  (space.ancestry.get (drive, root, id)).isSome

/-- The unique index over live sibling names. -/
def liveNamesUnique (nodes : Table NodeRow.key) : Bool :=
  ((nodes.rows.filter fun n => n.trashRootId.isNone).map
    fun n => (n.driveId, n.parentId, n.nameKey)).Nodup

/-- The shape of a symbolic link target. -/
def symlinkShape (kind : NodeKind) : Option String → Bool
  | some target => kind = .symlink ∧ 1 ≤ target.utf8ByteSize ∧
      target.utf8ByteSize ≤ 4096 ∧ target.front ≠ '/'
  | none => kind ≠ .symlink

/-- `CHECK` constraints of a node row. -/
def nodeChecks (row : NodeRow) : Bool :=
  (row.parentId = none ↔ row.displayName = "") ∧
    (row.kind = .file ∨ row.headVersionId = none) ∧
    symlinkShape row.kind row.symlinkTarget

def insertNode (row : NodeRow) : Except SqlError Namespace :=
  if ¬nodeChecks row then .error .other
  else if row.parentId = none ∧ (space.nodes.rows.any fun n =>
      n.driveId = row.driveId ∧ n.parentId = none) then
    .error .uniqueViolation
  else do
    let nodes ← okOr (space.nodes.insert row) .uniqueViolation
    if ¬liveNamesUnique nodes then .error .uniqueViolation
    else if row.parentId.any fun parent =>
        (space.nodes.get (row.driveId, parent)).isNone then .error .other
    else .ok { space with nodes := nodes }

variable (ancestry : Table AncestryRow.key)

def insertAncestryRow (row : AncestryRow) : Except SqlError (Table AncestryRow.key) :=
  if ¬(row.depth ≤ 128 ∧ (row.depth = 0 ↔ row.ancestorId = row.descendantId))
  then .error .other
  else if ancestry.rows.any fun r =>
      r.driveId = row.driveId ∧ r.descendantId = row.descendantId ∧ r.depth = row.depth
  then .error .uniqueViolation
  else okOr (ancestry.insert row) .uniqueViolation

def insertAncestry (ancestry : Table AncestryRow.key) :
    List AncestryRow → Except SqlError (Table AncestryRow.key)
  | [] => .ok ancestry
  | row :: rest => do
      let ancestry ← insertAncestryRow ancestry row
      insertAncestry ancestry rest

/-- The closure rows of a new child: those of its parent one step longer, and
its own. -/
def childRows (drive : DriveId) (parent id : NodeId) : List AncestryRow :=
  ((ancestry.rows.filter fun r => r.driveId = drive ∧ r.descendantId = parent).map
    fun r => { r with descendantId := id, depth := r.depth + 1 }) ++
    [{ driveId := drive, ancestorId := id, descendantId := id, depth := 0 }]

/-- The closure rows deleted by a rename of `v`: from a proper ancestor of `v`
to a node of its subtree. -/
def leavesSubtree (drive : DriveId) (v : NodeId) (path : AncestryRow) : Bool :=
  path.driveId = drive ∧
    (ancestry.rows.any fun old => old.driveId = drive ∧
      old.descendantId = v ∧ old.ancestorId ≠ v ∧
      path.ancestorId = old.ancestorId) ∧
    (ancestry.rows.any fun subtree => subtree.driveId = drive ∧
      subtree.ancestorId = v ∧ path.descendantId = subtree.descendantId)

/-- The closure rows inserted by a rename: every path to the target continued
through `v` into its subtree. -/
def graftedRows (drive : DriveId) (v target : NodeId) : List AncestryRow :=
  (ancestry.rows.filter fun r =>
    r.driveId = drive ∧ r.descendantId = target).flatMap fun targetPath =>
      (ancestry.rows.filter fun r =>
        r.driveId = drive ∧ r.ancestorId = v).map fun subtree =>
          { driveId := drive
            ancestorId := targetPath.ancestorId
            descendantId := subtree.descendantId
            depth := targetPath.depth + 1 + subtree.depth }

/-- The ancestry statements of a rename to another parent. -/
def moveAncestry (drive : DriveId) (v target : NodeId) : Except SqlError (Table AncestryRow.key) :=
  let cut := ancestry.delete (leavesSubtree ancestry drive v)
  insertAncestry cut (graftedRows cut drive v target)

def update (space : Namespace) (p : NodeRow → Bool) (f : NodeRow → NodeRow)
    (hf : ∀ r, NodeRow.key (f r) = NodeRow.key r) : Namespace :=
  { space with nodes := space.nodes.update p f hf }

def bumpNamespaceGeneration (drive : DriveId) (p : NodeId → Bool) : Namespace :=
  space.update (fun n => n.driveId = drive ∧ p n.id)
    (fun n => { n with namespaceGeneration := n.namespaceGeneration + 1 })
    (fun _ => rfl)

/-- Publication of a new head with a new generation. -/
def setHead (drive : DriveId) (id : NodeId) (version : Uuid) : Namespace :=
  space.update (fun n => n.driveId = drive ∧ n.id = id)
    (fun n => { n with
      headVersionId := some version
      namespaceGeneration := n.namespaceGeneration + 1 })
    (fun _ => rfl)

/-- A new head without a new generation: version restore and document transactions. -/
def setHeadOnly (drive : DriveId) (id : NodeId) (version : Uuid) : Namespace :=
  space.update (fun n => n.driveId = drive ∧ n.id = id)
    (fun n => { n with headVersionId := some version }) (fun _ => rfl)

def bumpAttributeGeneration (drive : DriveId) (id : NodeId) : Namespace :=
  space.update (fun n => n.driveId = drive ∧ n.id = id)
    (fun n => { n with attributeGeneration := n.attributeGeneration + 1 })
    (fun _ => rfl)

/-- New parent and name of a renamed node. -/
def setPlace (drive : DriveId) (id parent : NodeId) (displayName nameKey : String) : Namespace :=
  space.update (fun n => n.driveId = drive ∧ n.id = id)
    (fun n => { n with
      parentId := some parent
      displayName := displayName
      nameKey := nameKey
      namespaceGeneration := n.namespaceGeneration + 1 })
    (fun _ => rfl)

/-- The bulk update that trashes the live nodes below `root`; only the root's
generation advances. -/
def trashSubtree (drive : DriveId) (root : NodeId) : Namespace :=
  space.update (fun n => n.driveId = drive ∧ space.below drive root n.id ∧ n.trashRootId = none)
    (fun n => { n with
      trashRootId := some root
      namespaceGeneration :=
        if n.id = root then n.namespaceGeneration + 1
        else n.namespaceGeneration })
    (fun _ => rfl)

/-- The bulk update that restores what was trashed together with `root`. -/
def restoreSubtree (drive : DriveId) (root : NodeId) : Namespace :=
  space.update (fun n => n.driveId = drive ∧ space.below drive root n.id ∧
      n.trashRootId = some root)
    (fun n => { n with
      trashRootId := none
      namespaceGeneration :=
        if n.id = root then n.namespaceGeneration + 1
        else n.namespaceGeneration })
    (fun _ => rfl)

theorem nodes_get_update (p : NodeRow → Bool)
    (f : NodeRow → NodeRow) (hf : ∀ r, NodeRow.key (f r) = NodeRow.key r) (k : DriveId × NodeId) :
    (space.update p f hf).nodes.get k = (space.nodes.get k).map fun r => if p r then f r else r :=
  Table.get_update space.nodes p f hf k

theorem nodes_get_updateWhere {P : NodeRow → Prop} [DecidablePred P]
    (f : NodeRow → NodeRow) (hf : ∀ r, NodeRow.key (f r) = NodeRow.key r) (k : DriveId × NodeId) :
    (space.update (fun n => P n) f hf).nodes.get k =
      (space.nodes.get k).map fun n => if P n then f n else n := by
  rw [nodes_get_update]
  simp only [decide_eq_true_eq]

structure NodeInserted (space : Namespace) (row : NodeRow) (space' : Namespace) : Prop where
  fresh : space.nodes.get row.key = none
  get : ∀ k, space'.nodes.get k = if k = row.key then some row else space.nodes.get k
  ancestry : space'.ancestry = space.ancestry
  parent : ∀ id, row.parentId = some id → ∃ n, space.nodes.get (row.driveId, id) = some n

theorem insertNode_eq_ok {space space' : Namespace} {row : NodeRow}
    (h : space.insertNode row = .ok space') : NodeInserted space row space' := by
  obtain ⟨-, h⟩ := else_of_ok h
  obtain ⟨-, h⟩ := else_of_ok h
  obtain ⟨_, hinsert, h⟩ := bind_eq_ok h
  have hinsert := okOr_eq_ok hinsert
  obtain ⟨-, h⟩ := else_of_ok h
  obtain ⟨hparent, h⟩ := else_of_ok h
  cases h
  refine ⟨(Table.insert_eq_some hinsert).1, Table.get_insert hinsert, rfl, ?_⟩
  intro id hid
  rw [hid] at hparent
  cases hget : space.nodes.get (row.driveId, id) with
  | none => simp [hget] at hparent
  | some n => exact ⟨n, rfl⟩

theorem insertAncestryRow_eq_ok {ancestry ancestry' : Table AncestryRow.key} {row : AncestryRow}
    (h : insertAncestryRow ancestry row = .ok ancestry') :
    ancestry'.rows = ancestry.rows ++ [row] := by
  obtain ⟨-, h⟩ := else_of_ok h
  obtain ⟨-, h⟩ := else_of_ok h
  exact (Table.insert_eq_some (okOr_eq_ok h)).2

theorem insertAncestry_eq_ok {ancestry ancestry' : Table AncestryRow.key} {rows : List AncestryRow}
    (h : insertAncestry ancestry rows = .ok ancestry') :
    ancestry'.rows = ancestry.rows ++ rows := by
  induction rows generalizing ancestry with
  | nil =>
    cases h
    rw [List.append_nil]
  | cons row rest ih =>
    obtain ⟨_, hrow, hrest⟩ := bind_eq_ok h
    rw [ih hrest, insertAncestryRow_eq_ok hrow, List.append_assoc]
    rfl

/-- A node is below another if the ancestry table says so. -/
theorem below_iff {space : Namespace} {drive : DriveId} {root id : NodeId} :
    space.below drive root id ↔ ∃ depth, (⟨drive, root, id, depth⟩ : AncestryRow) ∈
        space.ancestry.rows := by
  rw [below, Option.isSome_iff_exists]
  constructor
  · rintro ⟨row, hrow⟩
    obtain ⟨hmem, hkey⟩ := Table.get_eq_some.mp hrow
    obtain ⟨hdrive, hkey⟩ := Prod.mk.inj hkey
    obtain ⟨hancestor, hdescendant⟩ := Prod.mk.inj hkey
    refine ⟨row.depth, ?_⟩
    rw [← hdrive, ← hancestor, ← hdescendant]
    exact hmem
  · rintro ⟨_, hmem⟩
    exact ⟨_, Table.get_eq_some.mpr ⟨hmem, rfl⟩⟩

end Namespace

end FileBelt.Database
