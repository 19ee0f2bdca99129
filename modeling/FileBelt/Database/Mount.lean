import FileBelt.Database.Mutations

/-!
# Namespace transactions of the NFS gateway

The branches of `mutate_nfs_namespace` that write the node tree, and
`commit_nfs_write`.  A replayed request returns its stored receipt and writes
nothing, so only first executions are modelled.
-/

namespace FileBelt.Database

open Support

structure NfsCreate where
  mount : MountSession
  drive : DriveId
  parent : NodeId
  id : NodeId
  kind : NodeKind
  displayName : String
  nameKey : String
  symlinkTarget : Option String
  generations : NfsGenerations

def liveDirectory (node : Option NodeRow) (generation : ℕ) : Bool :=
  node.any fun n => n.kind = .directory ∧ n.trashRootId = none ∧ n.namespaceGeneration = generation

/-- `create`, `mkdir` and `symlink`; the operation is the kind of the node. -/
def nfsCreate (db : State) (request : NfsCreate) : Except DatabaseError State := do
  authorizeNfsMutation db request.mount request.drive request.parent request.generations
  if ¬liveDirectory (db.node request.drive request.parent)
      request.generations.resourceNamespace then .error .staleGeneration
  else
    let space ← insertChild db.space mapConflict request.parent
      (.inserted request.drive request.id (some request.parent) request.kind
        request.displayName request.nameKey
        (if request.kind = .symlink then request.symlinkTarget else none))
    let space := space.bumpNamespaceGeneration request.drive
      (· = request.parent)
    .ok ({ db with space := space }.bumpDriveNamespace request.drive)

structure NfsRename where
  mount : MountSession
  drive : DriveId
  (node oldParent targetParent : NodeId)
  displayName : String
  nameKey : String
  generations : NfsGenerations
  (targetAclGeneration targetNamespaceGeneration oldParentAclGeneration oldParentNamespaceGeneration
    : ℕ)

/-- The renamed node is live, below its declared parent and at its expected
generation. -/
def movableNode (node : Option NodeRow) (parent : NodeId) (generation : ℕ) : Bool :=
  node.any fun n => n.parentId = some parent ∧ n.trashRootId = none ∧
    n.namespaceGeneration = generation

/-- The ancestry statements run only when the parent changes. -/
def renameAncestry (db : State) (request : NfsRename) :
    Except DatabaseError (Table AncestryRow.key) :=
  if request.oldParent = request.targetParent then .ok db.space.ancestry
  else
    (Namespace.moveAncestry db.space.ancestry request.drive request.node
      request.targetParent).mapError mapConflict

/-- The name and place written by a rename, under the constraints of the node
row. -/
def renameNode (space : Namespace) (request : NfsRename) : Except DatabaseError Namespace :=
  let space := space.setPlace request.drive request.node request.targetParent
    request.displayName request.nameKey
  if request.displayName = "" then .error .sql
  else if ¬Namespace.liveNamesUnique space.nodes then .error .conflict
  else .ok space

def nfsRename (db : State) (request : NfsRename) : Except DatabaseError State := do
  authorizeNfsMutation db request.mount request.drive request.node request.generations
  authorizeNfsMutation db request.mount request.drive request.targetParent
    { request.generations with
      resourceAcl := request.targetAclGeneration
      resourceNamespace := request.targetNamespaceGeneration }
  authorizeNfsMutation db request.mount request.drive request.oldParent
    { request.generations with
      resourceAcl := request.oldParentAclGeneration
      resourceNamespace := request.oldParentNamespaceGeneration }
  if ¬movableNode (db.node request.drive request.node) request.oldParent
        request.generations.resourceNamespace ∨
      db.space.below request.drive request.node request.targetParent then
    .error .staleGeneration
  else if ¬liveDirectory (db.node request.drive request.targetParent)
      request.targetNamespaceGeneration then .error .staleGeneration
  else
    let ancestry ← renameAncestry db request
    let space ← renameNode { db.space with ancestry := ancestry } request
    let space := space.bumpNamespaceGeneration request.drive fun id =>
      (id = request.oldParent ∨ id = request.targetParent) ∧ id ≠ request.node
    .ok ({ db with space := space }.bumpDriveNamespace request.drive)

structure NfsRemove where
  mount : MountSession
  drive : DriveId
  node : NodeId
  parent : NodeId
  generations : NfsGenerations
  parentAclGeneration : ℕ
  parentNamespaceGeneration : ℕ

def nfsRemove (db : State) (request : NfsRemove) : Except DatabaseError State := do
  authorizeNfsMutation db request.mount request.drive request.node request.generations
  authorizeNfsMutation db request.mount request.drive request.parent
    { request.generations with
      resourceAcl := request.parentAclGeneration
      resourceNamespace := request.parentNamespaceGeneration }
  if ¬movableNode (db.node request.drive request.node) request.parent
      request.generations.resourceNamespace then .error .staleGeneration
  else
    let space := db.space.trashSubtree request.drive request.node
    let space := space.bumpNamespaceGeneration request.drive
      (· = request.parent)
    .ok ({ db with space := space }.bumpDriveNamespace request.drive)

/-- `accepted` is the verdict on the attribute tables. -/
structure NfsSetAttributes where
  mount : MountSession
  drive : DriveId
  node : NodeId
  generations : NfsGenerations
  accepted : Except DatabaseError Unit

/-- `set_attributes`, `set_xattr` and `remove_xattr`. -/
def nfsSetAttributes (db : State) (request : NfsSetAttributes) : Except DatabaseError State := do
  authorizeNfsMutation db request.mount request.drive request.node request.generations
  request.accepted
  let space := db.space.bumpNamespaceGeneration request.drive
    (· = request.node)
  .ok ({ db with space := space }.bumpDriveNamespace request.drive)

/-- `staged` is the verdict on the write session, its handle and its payload, `reserved`
that on the quota reservation. -/
structure CommitNfsWrite where
  mount : MountSession
  drive : DriveId
  node : NodeId
  generations : NfsGenerations
  expectedHead : Option Uuid
  versionId : Uuid
  staged : Except DatabaseError Unit
  reserved : Except DatabaseError Unit

/-- `commit_nfs_write`.  A changed head retains the bytes as a conflict and
writes no node. -/
def commitNfsWrite (db : State) (request : CommitNfsWrite) : Except DatabaseError State := do
  authorizeNfsMutation db request.mount request.drive request.node request.generations
  request.staged
  let node ← okOr (db.node request.drive request.node) .staleGeneration
  if node.headVersionId ≠ request.expectedHead then .ok db
  else
    let versions ← insertVersion db
      { nodeId := request.node, id := request.versionId,
        ordinal := nextOrdinal db request.node }
    if ¬headAllowed db.space request.drive request.node then .error .sql
    else
      request.reserved
      let space := db.space.setHead request.drive request.node
        request.versionId
      .ok ({ db with
        space := space
        versions := versions }.bumpDriveNamespace request.drive)

end FileBelt.Database
