import FileBelt.Domain.Errors
import FileBelt.Vfs.Directory

/-!
# The read-only FTPS adapter

The adapter resolves a path component by component: it lists each directory through
the VFS and looks for the entry with the name.  It asks for one listing of a
thousand entries and does not go on from there.
-/

namespace FileBelt.Ftps

open Support.Protobuf Nfs Vfs

/-- The answers of the gateway client. -/
inductive GatewayError
  | authorizationDenied | notFound | sessionRevoked | conflict | quotaExceeded | unsupportedCommand
  | storageUnavailable
  deriving DecidableEq, Repr

/-- The reply codes of the FTP server. -/
inductive ErrorKind
  | permanentFileNotAvailable | permanentDirectoryNotAvailable | permissionDenied
  | transientFileNotAvailable | exceededStorageAllocationError | commandNotImplemented | localError
  deriving DecidableEq, Repr

/-- The error of a response, in `validate_response`. -/
def gatewayError : VfsError → Option GatewayError
  | .ok => none
  | .unauthenticated => some .sessionRevoked
  | .accessDenied | .notFound | .notDirectory | .isDirectory | .directoryNotEmpty
  | .nameInvalid => some .authorizationDenied
  | .alreadyExists | .conflict | .staleGeneration | .lockConflict
  | .leaseBreakRequired => some .conflict
  | .quotaExceeded => some .quotaExceeded
  | .invalidRequest | .notSupported => some .unsupportedCommand
  | .storageUnavailable | .rateLimited | .unavailable | .unspecified =>
    some .storageUnavailable

/-- Denial, absence and revocation look the same to a client. -/
def storageError : GatewayError → ErrorKind
  | .authorizationDenied | .notFound | .sessionRevoked => .permissionDenied
  | .conflict => .transientFileNotAvailable
  | .quotaExceeded => .exceededStorageAllocationError
  | .unsupportedCommand => .commandNotImplemented
  | .storageUnavailable => .localError

/-- `call`: the response is validated before it is read. -/
def call {α : Type} (valid : α → Bool) (response : Except VfsError α) : Except ErrorKind α :=
  match response with
  | .ok value =>
    if valid value then .ok value else .error (storageError .storageUnavailable)
  | .error error =>
    .error (storageError ((gatewayError error).getD .storageUnavailable))

/-- A component of `Path::components` in `clean`: empty ones and `.` are passed
over, and `..` is refused. -/
def cleanStep (output : List (List Char)) (component : List Char) :
    Except ErrorKind (List (List Char)) :=
  if component = [] ∨ component = ['.'] then .ok output
  else if component = ['.', '.'] then .error .permanentFileNotAvailable
  else .ok (output ++ [component])

/-- The components of a requested path. -/
def clean (path : List Char) : Except ErrorKind (List (List Char)) :=
  (path.splitOn '/').foldlM cleanStep []

/-- A node of the session with what the server last said of it. -/
structure Node where
  id : Uuid
  attributes : NodeAttributes
  deriving DecidableEq

/-- `ReadOnlyStorage`, with the VFS that it calls. -/
structure ReadOnlyStorage where
  drive : DriveTree
  session : ReaderSession
  rootId : Uuid

namespace ReadOnlyStorage

variable (storage : ReadOnlyStorage)

/-- The first thousand children of a directory. -/
def listNode (node : Uuid) : Except ErrorKind (List ListedEntry) :=
  call validateEntries (listDirectory storage.drive storage.session node 1000)

/-- The attributes of one node. -/
def stat (id : Uuid) : Except ErrorKind NodeAttributes :=
  call validateAttributes (statNode storage.drive storage.session id)

/-- One component of `resolve`. -/
def descend (node : Node) (component : List Char) : Except ErrorKind Node :=
  if node.attributes.kind ≠ .directory then .error .permanentDirectoryNotAvailable
  else do
    let entries ← storage.listNode node.id
    let entry ← okOr (entries.find? fun entry => entry.displayName = component)
      .permanentFileNotAvailable
    let attributes ← okOr entry.attributes .localError
    let id ← okOr (parseUuid entry.resourceId) .localError
    return ⟨id, attributes⟩

/-- The walk from the root along the components of a path. -/
def resolve (path : List Char) : Except ErrorKind Node := do
  let attributes ← storage.stat storage.rootId
  let components ← clean path
  components.foldlM storage.descend ⟨storage.rootId, attributes⟩

/-- The entry as the server prints it. -/
def fileinfo (entry : ListedEntry) : Except ErrorKind (List Char × NodeAttributes) := do
  let attributes ← okOr entry.attributes .localError
  return (entry.displayName, attributes)

/-- The `LIST` command. -/
def list (path : List Char) : Except ErrorKind (List (List Char × NodeAttributes)) := do
  let node ← storage.resolve path
  if node.attributes.kind ≠ .directory then .error .permanentDirectoryNotAvailable
  else do
    let entries ← storage.listNode node.id
    entries.mapM fileinfo

end ReadOnlyStorage

/-- The path that a client sends for a list of names. -/
def pathText (names : List (List Char)) : List Char := '/' :: ['/'].intercalate names

/-- A name that a component of a path can be. -/
structure Component (name : List Char) : Prop where
  ne_nil : name ≠ []
  ne_dot : name ≠ ['.']
  ne_dots : name ≠ ['.', '.']
  slash : '/' ∉ name

theorem component_of_storable {name : List Char} (h : StorableName name) : Component name := by
  refine ⟨h.ne_nil, h.ne_dot, h.ne_dots, fun hslash => ?_⟩
  have hforbidden := h.characters '/' hslash
  revert hforbidden
  decide

variable {names : List (List Char)} {n : DriveNode} {first i : ℕ}

section

variable (h : ∀ name ∈ names, Component name)
include h

theorem splitOn_pathText :
    (pathText names).splitOn '/' = [] :: (if names = [] then [[]] else names) := by
  by_cases hnil : names = []
  · subst hnil
    rfl
  · have hjoined : pathText names = ['/'].intercalate ([] :: names) := by
      obtain ⟨name, _, rfl⟩ := List.exists_cons_of_ne_nil hnil
      rfl
    rw [if_neg hnil, hjoined]
    apply List.splitOn_intercalate
    · exact List.forall_mem_cons.mpr ⟨List.not_mem_nil, fun name hname => (h name hname).slash⟩
    · exact List.cons_ne_nil _ _

theorem foldlM_cleanStep
    (output : List (List Char)) : names.foldlM cleanStep output = .ok (output ++ names) := by
  induction names generalizing output with
  | nil =>
    rw [List.append_nil]
    rfl
  | cons name names ih =>
    obtain ⟨hname, hnames⟩ := List.forall_mem_cons.mp h
    have hstep : cleanStep output name = .ok (output ++ [name]) := by
      rw [cleanStep, if_neg (by simp [hname.ne_nil, hname.ne_dot]), if_neg hname.ne_dots]
    rw [List.foldlM_cons, hstep, ok_bind, ih hnames, List.append_assoc]
    rfl

theorem clean_pathText : clean (pathText names) = .ok names := by
  rw [clean, splitOn_pathText h]
  change (if names = [] then [[]] else names).foldlM cleanStep [] = _
  by_cases hnil : names = []
  · subst hnil
    rfl
  · rw [if_neg hnil, foldlM_cleanStep h, List.nil_append]

end

/-! ## What a session sees -/

namespace ReadOnlyStorage

/-- The session may list every directory above the node and read every node on the way. -/
inductive Sees (storage : ReadOnlyStorage) : List (List Char) → DriveNode → Prop
  | root {node : DriveNode} (hnode : node ∈ storage.drive.nodes) (hid : node.id = storage.rootId)
      (hdrive : storage.session.driveAllowed)
      (hread : storage.session.shows node) : Sees storage [] node
  | child {path : List (List Char)} {directory node : DriveNode}
      (habove : Sees storage path directory) (hkind : directory.kind = .directory)
      (hlist : storage.session.allows directory.id .listChildren)
      (hnode : node ∈ storage.drive.nodes) (hparent : node.parentId = some directory.id)
      (hread : storage.session.shows node) :
      Sees storage (path ++ [node.displayName]) node

variable (storage : ReadOnlyStorage)

/-- The children that a listing of a directory has room for. -/
def firstChildren (directory : DriveNode) : List DriveNode :=
  (storage.drive.visibleChildren storage.session directory.id).take 1000

/-- None of these has a control character in its name. -/
def Printable (directory : DriveNode) : Prop :=
  ∀ node ∈ storage.firstChildren directory, ∀ c ∈ node.displayName, isControl c = false

/-- All that the session sees in a directory fits one listing. -/
structure Fits (storage : ReadOnlyStorage) (directory : DriveNode) : Prop where
  length_le : (storage.drive.visibleChildren storage.session directory.id).length ≤ 1000
  printable : storage.Printable directory

/-- The listing of every directory on the way shows the next node. -/
inductive Listed (storage : ReadOnlyStorage) : List (List Char) → DriveNode → Prop
  | root {node : DriveNode} (hnode : node ∈ storage.drive.nodes) : Listed storage [] node
  | child {path : List (List Char)} {directory node : DriveNode}
      (habove : Listed storage path directory) (hprintable : storage.Printable directory)
      (hfirst : node ∈ storage.firstChildren directory) :
      Listed storage (path ++ [node.displayName]) node

/-- A node as the adapter keeps it. -/
def nodeOf (node : DriveNode) : Node :=
  ⟨node.id, nodeAttributes node storage.session.readOnly⟩

section

variable {storage : ReadOnlyStorage} {path : List (List Char)} {node directory : DriveNode}
  {m : Node} {entries : List ListedEntry} {entry : ListedEntry}

theorem Sees.shows (h : storage.Sees path node) : storage.session.shows node := by
  cases h with
  | root _ _ _ hread => exact hread
  | child _ _ _ _ _ hread => exact hread

theorem Sees.driveAllowed (h : storage.Sees path node) : storage.session.driveAllowed := by
  induction h with
  | root _ _ hdrive => exact hdrive
  | child _ _ _ _ _ _ ih => exact ih

theorem Sees.components (h : storage.Sees path node) : ∀ name ∈ path, Component name := by
  induction h with
  | root => exact fun _ hname => absurd hname List.not_mem_nil
  | @child path directory node _ _ _ hnode hparent _ ih =>
    intro name hname
    rcases List.mem_append.mp hname with hname | hname
    · exact ih name hname
    · obtain rfl := List.mem_singleton.mp hname
      have hchild : node.parentId ≠ none := by
        rw [hparent]
        exact Option.some_ne_none _
      exact component_of_storable (storage.drive.name_storable node hnode hchild)

theorem mem_of_mem_firstChildren (h : node ∈ storage.firstChildren directory) :
    node ∈ storage.drive.nodes ∧ node.parentId = some directory.id := by
  obtain ⟨hnode, hparent, -⟩ := mem_visibleChildren.mp (List.mem_of_mem_take h)
  exact ⟨hnode, hparent⟩

theorem Listed.mem (h : storage.Listed path node) : node ∈ storage.drive.nodes := by
  cases h with
  | root hnode => exact hnode
  | child _ _ hfirst => exact (mem_of_mem_firstChildren hfirst).1

theorem Sees.mem (h : storage.Sees path node) : node ∈ storage.drive.nodes := by
  cases h with
  | root hnode => exact hnode
  | child _ _ _ hnode => exact hnode

theorem listed_child_iff (hsees : storage.Sees path directory)
    (hparent : node.parentId = some directory.id) :
    storage.Listed (path ++ [node.displayName]) node ↔ storage.Listed path directory ∧
      storage.Printable directory ∧ node ∈ storage.firstChildren directory := by
  constructor
  · intro h
    generalize hpath : path ++ [node.displayName] = whole at h
    cases h with
    | root => simp at hpath
    | @child path' directory' _ habove hprintable hfirst =>
      obtain rfl := List.append_cancel_right hpath
      -- both are the row of the parent
      have hid := hparent.symm.trans (mem_of_mem_firstChildren hfirst).2
      obtain rfl := List.inj_on_of_nodup_map storage.drive.ids_nodup hsees.mem habove.mem
        (Option.some.inj hid)
      exact ⟨habove, hprintable, hfirst⟩
  · rintro ⟨habove, hprintable, hfirst⟩
    exact .child habove hprintable hfirst

theorem listNode_eq_ok_iff (hsees : storage.Sees path directory)
    (hlist : storage.session.allows directory.id .listChildren) :
    storage.listNode directory.id = .ok entries ↔ storage.Printable directory ∧
      (storage.firstChildren directory).map (listedEntry storage.session) = entries := by
  have hvalid : validateEntries
      ((storage.firstChildren directory).map (listedEntry storage.session)) ↔
        storage.Printable directory :=
    validateEntries_map (fun _ hn => List.mem_of_mem_take hn) (List.length_take_le _ _)
  have hlisted : listDirectory storage.drive storage.session directory.id 1000 =
      .ok ((storage.firstChildren directory).map (listedEntry storage.session)) :=
    listDirectory_eq hsees.driveAllowed hsees.shows hlist
  rw [listNode, hlisted, call, ← hvalid]
  split
  · next h => exact ⟨fun heq => ⟨h, Except.ok.inj heq⟩, fun heq => congrArg Except.ok heq.2⟩
  · next h => exact ⟨nofun, fun heq => absurd heq.1 h⟩

/-- Names are unique in a directory. -/
theorem find?_listedEntry (hnode : node ∈ storage.drive.nodes)
    (hparent : node.parentId = some directory.id) :
    ((storage.firstChildren directory).map (listedEntry storage.session)).find?
        (fun entry => entry.displayName = node.displayName) = some entry ↔
      node ∈ storage.firstChildren directory ∧ listedEntry storage.session node = entry := by
  have hfound : ∀ {entry}, ((storage.firstChildren directory).map
      (listedEntry storage.session)).find? (fun entry => entry.displayName = node.displayName) =
        some entry → node ∈ storage.firstChildren directory ∧
          listedEntry storage.session node = entry := by
    intro entry hfound
    have hname := List.find?_some hfound
    obtain ⟨found, hmem, rfl⟩ := List.mem_map.mp (List.mem_of_find?_eq_some hfound)
    obtain ⟨hfoundNode, hfoundParent⟩ := mem_of_mem_firstChildren hmem
    have hchild : node.parentId ≠ none := by
      rw [hparent]
      exact Option.some_ne_none _
    obtain rfl := storage.drive.name_unique node hnode found hfoundNode
      (hparent.trans hfoundParent.symm) hchild (of_decide_eq_true hname).symm
    exact ⟨hmem, rfl⟩
  refine ⟨hfound, ?_⟩
  rintro ⟨hfirst, rfl⟩
  cases hsearch : ((storage.firstChildren directory).map (listedEntry storage.session)).find?
      (fun entry => entry.displayName = node.displayName) with
  | none =>
    have hnone := List.find?_eq_none.mp hsearch _ (List.mem_map_of_mem hfirst)
    exact absurd (decide_eq_true rfl) hnone
  | some => rw [(hfound hsearch).2]

theorem nodeOf_kind : (storage.nodeOf node).attributes.kind = .directory ↔
    node.kind = .directory := by
  refine ⟨kind_of_nodeKind, fun hkind => ?_⟩
  rw [nodeOf, nodeAttributes, hkind]
  rfl

theorem descend_eq_ok_iff (hsees : storage.Sees path directory)
    (hkind : directory.kind = .directory)
    (hlist : storage.session.allows directory.id .listChildren)
    (hnode : node ∈ storage.drive.nodes) (hparent : node.parentId = some directory.id) :
    storage.descend (storage.nodeOf directory) node.displayName = .ok m ↔
      (storage.Printable directory ∧ node ∈ storage.firstChildren directory) ∧
        storage.nodeOf node = m := by
  have hid : parseUuid (listedEntry storage.session node).resourceId = some node.id :=
    parseUuid_uuidText node.id (storage.drive.id_lt node hnode)
  rw [descend, if_neg (not_not.mpr (nodeOf_kind.mpr hkind))]
  constructor
  · intro h
    obtain ⟨_, hlisted, h⟩ := bind_eq_ok h
    obtain ⟨hprintable, rfl⟩ := (listNode_eq_ok_iff hsees hlist).mp hlisted
    obtain ⟨_, hfind, h⟩ := bind_eq_ok h
    obtain ⟨hfirst, rfl⟩ := (find?_listedEntry hnode hparent).mp (okOr_eq_ok hfind)
    rw [hid] at h
    exact ⟨⟨hprintable, hfirst⟩, Except.ok.inj h⟩
  · rintro ⟨⟨hprintable, hfirst⟩, rfl⟩
    have hlisted : storage.listNode (storage.nodeOf directory).id = _ :=
      (listNode_eq_ok_iff hsees hlist).mpr ⟨hprintable, rfl⟩
    rw [hlisted, ok_bind, (find?_listedEntry hnode hparent).mpr ⟨hfirst, rfl⟩, okOr_some, ok_bind,
      hid]
    rfl

theorem stat_root (hnode : node ∈ storage.drive.nodes) (hid : node.id = storage.rootId)
    (hdrive : storage.session.driveAllowed) (hread : storage.session.shows node) :
    storage.stat storage.rootId = .ok (nodeAttributes node storage.session.readOnly) := by
  rw [stat, ← hid, statNode_eq hdrive hread hnode, call,
    if_pos (validateAttributes_nodeAttributes hnode _)]

/-- A path leads to the node that is seen there if and only if the listings show it. -/
theorem Sees.foldlM_descend (h : storage.Sees path node) :
    ∃ root, storage.stat storage.rootId = .ok root ∧
      ∀ m, path.foldlM storage.descend ⟨storage.rootId, root⟩ = .ok m ↔
        storage.Listed path node ∧ storage.nodeOf node = m := by
  induction h with
  | @root node hnode hid hdrive hread =>
    refine ⟨_, stat_root hnode hid hdrive hread, fun m => ?_⟩
    rw [← hid]
    exact ⟨fun h => ⟨.root hnode, Except.ok.inj h⟩, fun h => congrArg Except.ok h.2⟩
  | @child path directory node habove hkind hlist hnode hparent hread ih =>
    obtain ⟨root, hroot, hfold⟩ := ih
    refine ⟨root, hroot, fun m => ?_⟩
    rw [listed_child_iff habove hparent, and_assoc,
      ← descend_eq_ok_iff habove hkind hlist hnode hparent, List.foldlM_append]
    constructor
    · intro h
      obtain ⟨_, hinitial, h⟩ := bind_eq_ok h
      obtain ⟨hlisted, rfl⟩ := (hfold _).mp hinitial
      obtain ⟨_, hdescend, h⟩ := bind_eq_ok h
      obtain rfl := Except.ok.inj h
      exact ⟨hlisted, hdescend⟩
    · rintro ⟨hlisted, hdescend⟩
      rw [(hfold _).mpr ⟨hlisted, rfl⟩, ok_bind, List.foldlM_cons, hdescend]
      rfl

theorem Sees.resolve_eq_ok_iff (h : storage.Sees path node) :
    storage.resolve (pathText path) = .ok m ↔
      storage.Listed path node ∧ storage.nodeOf node = m := by
  obtain ⟨_, hroot, hfold⟩ := h.foldlM_descend
  rw [← hfold, resolve, hroot, ok_bind, clean_pathText h.components, ok_bind]

theorem mapM_fileinfo (nodes : List DriveNode) :
    (nodes.map (listedEntry storage.session)).mapM fileinfo = .ok (nodes.map fun n =>
        (n.displayName, nodeAttributes n storage.session.readOnly)) := by
  induction nodes with
  | nil => rfl
  | cons n nodes ih =>
    rw [List.map_cons, List.mapM_cons, ih]
    rfl

end

end ReadOnlyStorage

open ReadOnlyStorage in
/-- A node that the session sees is found by its path if and only if the listing of every
directory above it shows the next node on the way; and if it is a directory that the session
may list, all that the session sees in it is listed if and only if that fits one listing. -/
theorem seen_nodes_are_found_iff {storage : ReadOnlyStorage} {path : List (List Char)}
    {node : DriveNode} (hsees : storage.Sees path node) :
    (storage.resolve (pathText path) = .ok (storage.nodeOf node) ↔ storage.Listed path node) ∧
      (node.kind = .directory → storage.session.allows node.id .listChildren →
        (storage.list (pathText path) =
          .ok ((storage.drive.visibleChildren storage.session node.id).map fun n =>
            (n.displayName, nodeAttributes n storage.session.readOnly)) ↔
          storage.Listed path node ∧ storage.Fits node)) := by
  refine ⟨hsees.resolve_eq_ok_iff.trans (and_iff_left rfl), fun hkind hlist => ?_⟩
  have hdirectory : (storage.nodeOf node).attributes.kind = .directory := nodeOf_kind.mpr hkind
  rw [ReadOnlyStorage.list]
  constructor
  · intro h
    obtain ⟨_, hresolve, h⟩ := bind_eq_ok h
    obtain ⟨hlisted, rfl⟩ := hsees.resolve_eq_ok_iff.mp hresolve
    rw [if_neg (not_not.mpr hdirectory)] at h
    obtain ⟨_, hentries, h⟩ := bind_eq_ok h
    obtain ⟨hprintable, rfl⟩ := (listNode_eq_ok_iff hsees hlist).mp hentries
    rw [mapM_fileinfo] at h
    have hlength := congrArg List.length (Except.ok.inj h)
    rw [List.length_map, List.length_map, firstChildren, List.length_take] at hlength
    exact ⟨hlisted, by omega, hprintable⟩
  · rintro ⟨hlisted, hfits⟩
    have hentries : storage.listNode (storage.nodeOf node).id = _ :=
      (listNode_eq_ok_iff hsees hlist).mpr ⟨hfits.printable, rfl⟩
    rw [hsees.resolve_eq_ok_iff.mpr ⟨hlisted, rfl⟩, ok_bind, if_neg (not_not.mpr hdirectory),
      hentries, ok_bind, mapM_fileinfo, firstChildren, List.take_of_length_le hfits.length_le]

/-! ## A drive of files -/

section

/-- The `i`-th of consecutive characters. -/
def letter (first i : ℕ) : Char := Char.ofNat (first + i)

def rootRow : DriveNode := ⟨1, none, .directory, [], 0, none, 1, 1, 0⟩

def fileRow (first i : ℕ) : DriveNode :=
  ⟨i + 2, some 1, .file, [letter first i], 0, none, 1, 1, 0⟩

theorem toNat_letter (h : first + i < 0xD800) : (letter first i).toNat = first + i := by
  rw [letter, Char.ofNat, dif_pos (.inl h)]
  rfl

theorem letter_storable (hfirst : 0x80 ≤ first) (h : first + i < 0xD800) :
    StorableName [letter first i] := by
  have hcode := toNat_letter h
  have hascii : ("/\\<>:\"|?*".toList).all fun d => d.toNat < 0x80 := by decide
  have hother : ∀ d : Char, d.toNat < 0x80 → letter first i ≠ d := by
    rintro _ hd rfl
    omega
  refine ⟨List.cons_ne_nil _ _, fun h => hother '.' (by decide) (List.singleton_inj.mp h),
    fun h => absurd (congrArg List.length h) (by simp), List.forall_mem_singleton.mpr ?_, ?_⟩
  · rw [isForbiddenNameCharacter, Bool.or_eq_false_iff]
    constructor
    · simp [isAsciiControl]
      omega
    · rw [List.contains_eq_mem, decide_eq_false_iff_not]
      exact fun hmem => hother _ (of_decide_eq_true (List.all_eq_true.mp hascii _ hmem)) rfl
  · have hsize := (letter first i).utf8Size_le_four
    change 0 + (letter first i).utf8Size ≤ 255
    omega

/-- Files named by consecutive characters behind the ASCII ones. -/
structure Letters where
  first : ℕ
  count : ℕ
  first_le : 0x80 ≤ first
  last_le : first + count ≤ 0xD800

def Letters.files (letters : Letters) : List DriveNode :=
  (List.range letters.count).map (fileRow letters.first)

def Letters.nodes (letters : Letters) : List DriveNode := rootRow :: letters.files

variable (letters : Letters)

theorem Letters.mem_files {letters : Letters} :
    n ∈ letters.files ↔ ∃ i < letters.count, n = fileRow letters.first i := by
  simp [Letters.files, eq_comm]

theorem Letters.mem_nodes {letters : Letters} (h : n ∈ letters.nodes) :
    n = rootRow ∨ ∃ i < letters.count, n = fileRow letters.first i := by
  rcases List.mem_cons.mp h with rfl | h
  · exact .inl rfl
  · exact .inr (Letters.mem_files.mp h)

theorem Letters.id_lt : ∀ n ∈ letters.nodes, n.id < 2 ^ 128 := by
  intro n hn
  rcases Letters.mem_nodes hn with rfl | ⟨i, hi, rfl⟩
  · decide
  · have hlast := letters.last_le
    have hid : i + 2 < 2 ^ 128 := by omega
    exact hid

theorem Letters.ids_nodup : (letters.nodes.map DriveNode.id).Nodup := by
  rw [Letters.nodes, Letters.files, List.map_cons, List.map_map, List.nodup_cons]
  constructor
  · intro h
    obtain ⟨i, -, hi⟩ := List.mem_map.mp h
    have hi : i + 2 = (1 : ℕ) := hi
    omega
  · exact List.nodup_range.map fun i j h => Nat.add_right_cancel h

theorem Letters.name_storable :
    ∀ n ∈ letters.nodes, n.parentId ≠ none → StorableName n.displayName := by
  intro n hn hparent
  have hlast := letters.last_le
  rcases Letters.mem_nodes hn with rfl | ⟨i, hi, rfl⟩
  · exact absurd rfl hparent
  · exact letter_storable letters.first_le (by omega)

theorem Letters.name_unique : ∀ n ∈ letters.nodes, ∀ m ∈ letters.nodes,
    n.parentId = m.parentId → n.parentId ≠ none → n.displayName = m.displayName → n = m := by
  intro n hn m hm hparents hparent hname
  have hlast := letters.last_le
  rcases Letters.mem_nodes hn with rfl | ⟨i, hi, rfl⟩
  · exact absurd rfl hparent
  rcases Letters.mem_nodes hm with rfl | ⟨j, hj, rfl⟩
  · cases hparents
  · have hcodes := congrArg Char.toNat (List.singleton_inj.mp hname)
    rw [toNat_letter (by omega), toNat_letter (by omega)] at hcodes
    rw [Nat.add_left_cancel hcodes]

theorem Letters.forall_nodes {P : DriveNode → Prop} (hroot : P rootRow)
    (hfile : ∀ first i, P (fileRow first i)) : ∀ n ∈ letters.nodes, P n := by
  intro n hn
  rcases Letters.mem_nodes hn with rfl | ⟨i, -, rfl⟩
  · exact hroot
  · exact hfile _ _

def Letters.drive : DriveTree where
  nodes := letters.nodes
  id_lt := letters.id_lt
  ids_nodup := letters.ids_nodup
  name_storable := letters.name_storable
  name_unique := letters.name_unique
  namespace_pos := letters.forall_nodes (by decide) fun _ _ => show (1 : UInt64) ≠ 0 by decide
  acl_pos := letters.forall_nodes (by decide) fun _ _ => show (1 : UInt64) ≠ 0 by decide
  version_lt := letters.forall_nodes nofun nofun
  directory_empty := letters.forall_nodes (fun _ => ⟨rfl, rfl⟩) nofun

/-- A session that may read everything. -/
def reader : ReaderSession := ⟨true, true, fun _ _ => true⟩

/-- A reader at the root of such a drive. -/
def Letters.storage : ReadOnlyStorage := ⟨letters.drive, reader, 1⟩

theorem Letters.visibleChildren :
    letters.drive.visibleChildren reader rootRow.id = letters.files := by
  have hfiles : letters.files.filter (fun n => n.parentId = some rootRow.id) = letters.files := by
    rw [List.filter_eq_self]
    intro n hn
    obtain ⟨_, -, rfl⟩ := Letters.mem_files.mp hn
    rfl
  have hchildren : letters.drive.children rootRow.id = letters.files :=
    (List.filter_cons_of_neg (by decide)).trans hfiles
  rw [DriveTree.visibleChildren, hchildren, List.filter_eq_self]
  exact fun _ _ => rfl

theorem Letters.sees_root : letters.storage.Sees [] rootRow := .root List.mem_cons_self rfl rfl rfl

theorem Letters.sees_file (hi : i < letters.count) :
    letters.storage.Sees [[letter letters.first i]] (fileRow letters.first i) :=
  .child letters.sees_root rfl rfl
    (List.mem_cons_of_mem _ (Letters.mem_files.mpr ⟨i, hi, rfl⟩)) rfl rfl

end

/-- Two ideographs. -/
def ideographs : Letters := ⟨0x4E00, 2, by decide, by decide⟩

theorem second_letter_is_found :
    ideographs.storage.resolve (pathText [[letter 0x4E00 1]]) =
      .ok (ideographs.storage.nodeOf (fileRow 0x4E00 1)) := by
  have hsees : ideographs.storage.Sees [[letter 0x4E00 1]] (fileRow 0x4E00 1) :=
    ideographs.sees_file (show 1 < 2 by decide)
  have hprintable : ideographs.storage.Printable rootRow := by
    have hall : (ideographs.storage.firstChildren rootRow).all (fun n =>
        n.displayName.all fun c => !isControl c) := by decide +kernel
    simpa [ReadOnlyStorage.Printable] using hall
  have hfirst : fileRow 0x4E00 1 ∈ ideographs.storage.firstChildren rootRow := by decide +kernel
  exact (seen_nodes_are_found_iff hsees).1.mpr
    (.child (.root List.mem_cons_self) hprintable hfirst)

/-- One file more than a listing has room for. -/
def crowd : Letters := ⟨0x4E00, 1001, by decide, by decide⟩

/-- The last control character, and the one behind it. -/
def controls : Letters := ⟨0x9F, 2, by decide, by decide⟩

theorem last_file_not_listed :
    ¬crowd.storage.Listed ([] ++ [[letter 0x4E00 1000]]) (fileRow 0x4E00 1000) := by
  intro h
  have hparent : (fileRow 0x4E00 1000).parentId = some rootRow.id := rfl
  have hfirst : _ ∈ (crowd.drive.visibleChildren reader rootRow.id).take 1000 :=
    ((ReadOnlyStorage.listed_child_iff crowd.sees_root hparent).mp h).2.2
  rw [crowd.visibleChildren, Letters.files, ← List.map_take, List.take_range] at hfirst
  obtain ⟨i, hi, hrow⟩ := List.mem_map.mp hfirst
  have hi : i < 1000 := List.mem_range.mp hi
  have hid : i + 2 = (1002 : ℕ) := congrArg DriveNode.id hrow
  omega

/-- The file behind the first thousand is missing, and all next to a control character. -/
theorem visible_files_are_missing :
    crowd.storage.Sees [[letter 0x4E00 1000]] (fileRow 0x4E00 1000) ∧
      (∀ m, crowd.storage.resolve (pathText [[letter 0x4E00 1000]]) ≠ .ok m) ∧
      controls.storage.Sees [[letter 0x9F 1]] (fileRow 0x9F 1) ∧
      controls.storage.resolve (pathText [[letter 0x9F 1]]) = .error .localError := by
  have hsees := crowd.sees_file (show 1000 < 1001 by decide)
  refine ⟨hsees, ?_, controls.sees_file (show 1 < 2 by decide), by decide +kernel⟩
  intro m h
  exact last_file_not_listed (hsees.resolve_eq_ok_iff.mp h).1

end FileBelt.Ftps
