import FileBelt.Domain.Identity
import FileBelt.Nfs.Listing
import FileBelt.Nfs.Response

/-!
# The directory listing of the common VFS

`list_directory` and `stat_node` serve the protocols without persistent handles.
A listing has no cursor: it stops when it has as many entries as the request
allows.
-/

namespace FileBelt.Vfs

open Support.Protobuf Nfs

/-- What a listing reads of a row of `nodes`; the time stamp has been parsed. -/
structure DriveNode where
  id : Uuid
  parentId : Option Uuid
  kind : ChildKind
  displayName : List Char
  sizeBytes : UInt64
  headVersionId : Option Uuid
  namespaceGeneration : UInt64
  aclGeneration : UInt64
  updatedAt : Int64
  deriving DecidableEq

/-- The length of a text in bytes. -/
def utf8Length (text : List Char) : ℕ := text.foldl (fun n c => n + c.utf8Size) 0

def isAsciiControl (c : Char) : Bool := c.toNat < 0x20 || c.toNat == 0x7F

/-- `char::is_control`. -/
def isControl (c : Char) : Bool := c.toNat < 0x20 || (0x7F ≤ c.toNat && c.toNat < 0xA0)

/-- The characters that `NormalizedName` forbids. -/
def isForbiddenNameCharacter (c : Char) : Bool :=
  isAsciiControl c || "/\\<>:\"|?*".toList.contains c

/-- What `NormalizedName` checks of a name, apart from its last character and the
names of devices. -/
structure StorableName (name : List Char) : Prop where
  ne_nil : name ≠ []
  ne_dot : name ≠ ['.']
  ne_dots : name ≠ ['.', '.']
  characters : ∀ c ∈ name, isForbiddenNameCharacter c = false
  length_le : utf8Length name ≤ 255

/-- The live nodes of a drive, in the order of `list_children`.  The fields are constraints
of the table, and what is checked when a name is stored. -/
structure DriveTree where
  nodes : List DriveNode
  id_lt : ∀ n ∈ nodes, n.id < 2 ^ 128
  ids_nodup : (nodes.map DriveNode.id).Nodup
  name_storable : ∀ n ∈ nodes, n.parentId ≠ none → StorableName n.displayName
  name_unique : ∀ n ∈ nodes, ∀ m ∈ nodes, n.parentId = m.parentId →
    n.parentId ≠ none → n.displayName = m.displayName → n = m
  namespace_pos : ∀ n ∈ nodes, n.namespaceGeneration ≠ 0
  acl_pos : ∀ n ∈ nodes, n.aclGeneration ≠ 0
  version_lt : ∀ n ∈ nodes, ∀ version ∈ n.headVersionId, version < 2 ^ 128
  directory_empty : ∀ n ∈ nodes, n.kind = .directory → n.headVersionId = none ∧ n.sizeBytes = 0

/-- The rows below a directory, in no order. -/
def DriveTree.children (drive : DriveTree) (directory : Uuid) : List DriveNode :=
  drive.nodes.filter fun n => n.parentId = some directory

def nodeKind : ChildKind → NodeKind
  | .file => .file
  | .directory => .directory
  | .symlink => .symlink

/-- Directories can be searched, files cannot be executed. -/
def nodeMode (kind : ChildKind) (readOnly : Bool) : UInt32 :=
  match decide (kind = .directory), readOnly with
  | true, true => 0o555
  | true, false => 0o770
  | false, true => 0o444
  | false, false => 0o660

/-- The attributes the server sends for a node. -/
def nodeAttributes (node : DriveNode) (readOnly : Bool) : NodeAttributes where
  kind := nodeKind node.kind
  sizeBytes := node.sizeBytes
  headVersionId := (node.headVersionId.map uuidText).getD []
  namespaceGeneration := node.namespaceGeneration
  aclGeneration := node.aclGeneration
  modifiedAtUnixSeconds := node.updatedAt
  readOnly := readOnly
  mode := nodeMode node.kind readOnly
  projectedUid := 0
  projectedGid := 0
  linkCount := if node.kind = .directory then 2 else 1
  sparse := false
  accessedAtUnixSeconds := 0
  createdAtUnixSeconds := 0
  changedAtUnixSeconds := 0
  ownerName := []
  groupName := []

/-- A mount session; `allows` is the outcome of `policy::authorize`. -/
structure ReaderSession where
  driveAllowed : Bool
  readOnly : Bool
  allows : Uuid → Action → Bool

/-- A directory entry of a response. -/
structure ListedEntry where
  resourceId : List Byte
  displayName : List Char
  attributes : Option NodeAttributes
  deriving DecidableEq

/-- `policy::authorize` for the metadata of a node. -/
def ReaderSession.shows (session : ReaderSession) (node : DriveNode) : Bool :=
  session.allows node.id .readMetadata

/-- The actions on the directory that a listing asks for. -/
def directoryListingActions : List Action := [.readMetadata, .listChildren]

def listedEntry (session : ReaderSession) (child : DriveNode) : ListedEntry where
  resourceId := uuidText child.id
  displayName := child.displayName
  attributes := some (nodeAttributes child session.readOnly)

/-- The loop of `list_directory`. -/
def entriesLoop (session : ReaderSession) (limit : ℕ) :
    List DriveNode → List ListedEntry → List ListedEntry
  | [], entries => entries
  | child :: children, entries =>
    if entries.length = limit then entries
    else if session.shows child then
      entriesLoop session limit children (entries ++ [listedEntry session child])
    else entriesLoop session limit children entries

/-- At most `limit` children that the session may see. -/
def listDirectory (drive : DriveTree) (session : ReaderSession) (directory : Uuid)
    (limit : ℕ) : Except VfsError (List ListedEntry) :=
  if ¬session.driveAllowed then .error .notFound
  else if ¬directoryListingActions.all (session.allows directory) then
    .error .notFound
  else .ok (entriesLoop session limit (drive.children directory) [])

/-- A node that the session may not see is not found. -/
def statNode (drive : DriveTree) (session : ReaderSession) (resource : Uuid) :
    Except VfsError NodeAttributes :=
  if ¬session.driveAllowed ∨ ¬session.allows resource .readMetadata then
    .error .notFound
  else
    match drive.nodes.find? fun n => n.id = resource with
    | some node => .ok (nodeAttributes node session.readOnly)
    | none => .error .notFound

/-- A lower case letter or underscore, then letters, digits and `_.-`. -/
def validLowercasePosixName (value : List Byte) : Bool :=
  value.head?.any (fun b => (0x61 ≤ b && b ≤ 0x7A) || b == 0x5F) &&
    value.length ≤ 255 &&
    value.tail.all fun b =>
      (0x61 ≤ b && b ≤ 0x7A) || (0x30 ≤ b && b ≤ 0x39) || b == 0x5F || b == 0x2E || b == 0x2D

def maxProjectedId : UInt64 := 4294967294

/-- The check of received attributes. -/
def validateAttributes (a : NodeAttributes) : Bool :=
  !(a.kind == .unspecified || a.namespaceGeneration == 0 || a.aclGeneration == 0 ||
    a.mode &&& (~~~0o777) != 0 ||
    a.projectedUid == 0 && a.projectedGid != 0 ||
    a.projectedGid == 0 && a.projectedUid != 0 ||
    maxProjectedId < a.projectedUid || maxProjectedId < a.projectedGid ||
    a.ownerName.isEmpty != a.groupName.isEmpty ||
    !a.ownerName.isEmpty && !validLowercasePosixName a.ownerName ||
    !a.groupName.isEmpty && !validLowercasePosixName a.groupName) &&
  (a.headVersionId.isEmpty || (parseUuid a.headVersionId).isSome) &&
  !(a.kind == .directory && (!a.headVersionId.isEmpty || a.sizeBytes != 0))

/-- The check of a received name. -/
def validateDisplayName (value : List Char) : Bool :=
  !(value.isEmpty || 255 < utf8Length value || value == ['.'] || value == ['.', '.'] ||
    value.any fun c => c == '/' || c == '\\' || isControl c)

def maxDirectoryEntries : ℕ := 1000

/-- The part of `validate_for` that is about the entries. -/
def validateEntries (entries : List ListedEntry) : Bool :=
  entries.length ≤ maxDirectoryEntries &&
    entries.all fun entry =>
      (parseUuid entry.resourceId).isSome && validateDisplayName entry.displayName &&
        entry.attributes.all validateAttributes

variable {drive : DriveTree} {session : ReaderSession} {directory : Uuid} {node : DriveNode}
  {limit : ℕ}

/-- The children whose metadata the session may read. -/
def DriveTree.visibleChildren (drive : DriveTree) (session : ReaderSession)
    (directory : Uuid) : List DriveNode :=
  (drive.children directory).filter session.shows

theorem mem_visibleChildren : node ∈ drive.visibleChildren session directory ↔
      node ∈ drive.nodes ∧ node.parentId = some directory ∧ session.shows node := by
  rw [DriveTree.visibleChildren, DriveTree.children, List.mem_filter, List.mem_filter,
    decide_eq_true_iff, and_assoc]

theorem entriesLoop_eq {children : List DriveNode} {entries : List ListedEntry}
    (h : entries.length ≤ limit) :
    entriesLoop session limit children entries = entries ++ (((children.filter session.shows).take
        (limit - entries.length)).map (listedEntry session)) := by
  induction children generalizing entries with
  | nil => simp [entriesLoop]
  | cons child children ih =>
    rw [entriesLoop]
    by_cases hfull : entries.length = limit
    · rw [if_pos hfull, hfull, Nat.sub_self, List.take_zero, List.map_nil, List.append_nil]
    · rw [if_neg hfull]
      by_cases hallowed : session.shows child = true
      · have hlength : (entries ++ [listedEntry session child]).length =
            entries.length + 1 := List.length_append
        have hroom : limit - entries.length = limit - (entries.length + 1) + 1 := by
          omega
        rw [if_pos hallowed, ih (by omega), hlength, List.filter_cons_of_pos hallowed,
          hroom, List.append_assoc]
        rfl
      · rw [if_neg hallowed, ih h, List.filter_cons_of_neg hallowed]

theorem listDirectory_eq (hdrive : session.driveAllowed)
    (hread : session.allows directory .readMetadata)
    (hlist : session.allows directory .listChildren) :
    listDirectory drive session directory limit =
      .ok (((drive.visibleChildren session directory).take limit).map (listedEntry session)) := by
  have hactions : directoryListingActions.all (session.allows directory) := by
    simp [directoryListingActions, hread, hlist]
  rw [listDirectory, if_neg (not_not.mpr hdrive), if_neg (not_not.mpr hactions),
    entriesLoop_eq (Nat.zero_le limit)]
  rfl

theorem statNode_eq (hdrive : session.driveAllowed)
    (hread : session.shows node) (hnode : node ∈ drive.nodes) :
    statNode drive session node.id = .ok (nodeAttributes node session.readOnly) := by
  have hfind : drive.nodes.find? (fun n => n.id = node.id) = some node := by
    cases hfound : drive.nodes.find? fun n => n.id = node.id with
    | none => simpa using List.find?_eq_none.mp hfound node hnode
    | some =>
      have hid := List.find?_some hfound
      have hmem := List.mem_of_find?_eq_some hfound
      rw [List.inj_on_of_nodup_map drive.ids_nodup hmem hnode (of_decide_eq_true hid)]
  have hread : session.allows node.id .readMetadata := hread
  rw [statNode, if_neg (by simp [hdrive, hread]), hfind]

theorem nodeMode_valid (kind : ChildKind) (readOnly : Bool) :
    nodeMode kind readOnly &&& (~~~0o777) = 0 := by
  cases kind <;> cases readOnly <;> decide

theorem nodeKind_ne_unspecified (kind : ChildKind) : nodeKind kind ≠ .unspecified := by
  cases kind <;> decide

theorem kind_of_nodeKind {kind : ChildKind} (h : nodeKind kind = .directory) :
    kind = .directory := by
  cases kind with
  | file => cases h
  | directory => rfl
  | symlink => cases h

theorem validateAttributes_nodeAttributes (hnode : node ∈ drive.nodes)
    (readOnly : Bool) : validateAttributes (nodeAttributes node readOnly) := by
  have hnamespace := drive.namespace_pos node hnode
  have hacl := drive.acl_pos node hnode
  have hversion : (nodeAttributes node readOnly).headVersionId = [] ∨
      (parseUuid (nodeAttributes node readOnly).headVersionId).isSome := by
    rw [nodeAttributes]
    cases hhead : node.headVersionId with
    | none => exact .inl rfl
    | some version =>
      right
      rw [Option.map_some, Option.getD_some,
        parseUuid_uuidText version (drive.version_lt node hnode version hhead)]
      rfl
  have hdirectory : (nodeAttributes node readOnly).kind = .directory →
      (nodeAttributes node readOnly).headVersionId = [] ∧ node.sizeBytes = 0 := by
    intro hkind
    obtain ⟨hhead, hsize⟩ := drive.directory_empty node hnode (kind_of_nodeKind hkind)
    rw [nodeAttributes, hhead]
    exact ⟨rfl, hsize⟩
  have hkind := nodeKind_ne_unspecified node.kind
  have hmode := nodeMode_valid node.kind readOnly
  rw [validateAttributes, Bool.and_eq_true, Bool.and_eq_true]
  refine ⟨⟨?_, ?_⟩, ?_⟩
  · simp [nodeAttributes, hkind, hnamespace, hacl, hmode]
  · simpa using hversion
  · simpa [nodeAttributes, imp_iff_not_or] using hdirectory

/-- What is stored as a name is refused only for a control character. -/
theorem validateDisplayName_storable_iff {name : List Char} (h : StorableName name) :
    validateDisplayName name ↔ ∀ c ∈ name, isControl c = false := by
  have hcharacters : name.any (fun c => c == '/' || c == '\\' || isControl c) =
      name.any isControl := by
    rw [Bool.eq_iff_iff, List.any_eq_true, List.any_eq_true]
    refine exists_congr fun c => and_congr_right fun hc => ?_
    have hallowed := h.characters c hc
    have hslash : c ≠ '/' := by
      rintro rfl
      revert hallowed
      decide
    have hbackslash : c ≠ '\\' := by
      rintro rfl
      revert hallowed
      decide
    simp [hslash, hbackslash]
  have hlength := h.length_le
  rw [validateDisplayName, hcharacters]
  simp [h.ne_nil, h.ne_dot, h.ne_dots, hlength]

/-- Visible children that are not too many pass if and only if no name has a control
character. -/
theorem validateEntries_map {nodes : List DriveNode}
    (hvisible : ∀ n ∈ nodes, n ∈ drive.visibleChildren session directory)
    (hlength : nodes.length ≤ maxDirectoryEntries) :
    validateEntries (nodes.map (listedEntry session)) ↔
      ∀ n ∈ nodes, ∀ c ∈ n.displayName, isControl c = false := by
  rw [validateEntries, List.length_map, decide_eq_true hlength, Bool.true_and, List.all_map,
    List.all_eq_true]
  refine forall₂_congr fun n hn => ?_
  obtain ⟨hnode, hparent, -⟩ := mem_visibleChildren.mp (hvisible n hn)
  have hname := drive.name_storable n hnode (by rw [hparent]; exact Option.some_ne_none _)
  have hid : (parseUuid (listedEntry session n).resourceId).isSome := by
    rw [listedEntry, parseUuid_uuidText n.id (drive.id_lt n hnode)]
    rfl
  have hattributes : (listedEntry session n).attributes.all validateAttributes :=
    validateAttributes_nodeAttributes hnode session.readOnly
  rw [Function.comp_apply, hid, hattributes, Bool.true_and, Bool.and_true]
  exact validateDisplayName_storable_iff hname

end FileBelt.Vfs
