import FileBelt.Vfs.DisplayName

/-!
# Logical paths

A logical path is a list of names within limits on its depth and on the length of its
display form.  The parser normalizes every component, so a path is read back from its
display form if normalization is idempotent.
-/

namespace FileBelt

open Vfs

/-- Why a path is refused; a component is named by its index. -/
inductive PathError
  | notAbsolute | emptyComponent | tooManyComponents | tooLong
  | invalidComponent (index : ℕ) (source : NameError)
  deriving DecidableEq

def maxPathComponents : ℕ := 128

def maxPathBytes : ℕ := 4096

variable (components : List NormalizedName)

/-- The bytes of the displayed path. -/
def absolutePathLen : ℕ :=
  components.foldl (fun n component => n + utf8Length component.display) 1 + (components.length - 1)

/-- The limits on a whole path. -/
def validatePathLimits : Except PathError Unit :=
  if maxPathComponents < components.length then .error .tooManyComponents
  else if maxPathBytes < absolutePathLen components then .error .tooLong
  else .ok ()

/-- An absolute path of a drive. -/
structure LogicalPath where
  components : List NormalizedName
  deriving DecidableEq

namespace LogicalPath

def root : LogicalPath := ⟨[]⟩

/-- The limits hold of what is built. -/
def fromComponents : Except PathError LogicalPath := do
  validatePathLimits components
  return ⟨components⟩

variable (path : LogicalPath) {value : List Char}

def fileName : Option NormalizedName := path.components.getLast?

/-- The root has no parent. -/
def parent : Option LogicalPath :=
  if path.components = [] then none else some ⟨path.components.dropLast⟩

/-- One component more, within the limits. -/
def join (component : NormalizedName) : Except PathError LogicalPath :=
  fromComponents (path.components ++ [component])

/-- The path as text. -/
def display : List Char := '/' :: ['/'].intercalate (path.components.map NormalizedName.display)

/-- `FromStr` of a path. -/
def fromStr (nfc caseFold : List Char → List Char) : List Char → Except PathError LogicalPath
  | [] => .error .notAbsolute
  | c :: remainder =>
    if c ≠ '/' then .error .notAbsolute
    else if remainder = [] then .ok root
    else if [] ∈ remainder.splitOn '/' then .error .emptyComponent
    else do
      let components ← (remainder.splitOn '/').zipIdx.mapM fun (value, index) =>
        (NormalizedName.new nfc caseFold value).mapError (.invalidComponent index)
      fromComponents components

/-- What a path value satisfies: its names were made by `NormalizedName::new`, and it
is within the limits. -/
structure Valid (nfc caseFold : List Char → List Char) : Prop where
  made : ∀ name ∈ path.components, ∃ value, NormalizedName.new nfc caseFold value = .ok name
  depth : path.components.length ≤ maxPathComponents
  bytes : utf8Length path.display ≤ maxPathBytes

variable {nfc caseFold : List Char → List Char} {path} {name : NormalizedName}
  {components : List NormalizedName}

theorem foldl_add {α : Type} (f : α → ℕ) (k : ℕ) (xs : List α) :
    xs.foldl (fun n x => n + f x) k = k + xs.foldl (fun n x => n + f x) 0 := by
  induction xs generalizing k with
  | nil => rfl
  | cons x xs ih =>
    rw [List.foldl_cons, List.foldl_cons, ih, ih (0 + f x)]
    omega

theorem utf8Length_append (xs ys : List Char) :
    utf8Length (xs ++ ys) = utf8Length xs + utf8Length ys := by
  rw [utf8Length, List.foldl_append, foldl_add]
  rfl

theorem utf8Length_intercalate (name : NormalizedName) (names : List NormalizedName) :
    utf8Length (['/'].intercalate ((name :: names).map NormalizedName.display)) =
      (name :: names).foldl (fun n name => n + utf8Length name.display) 0 + names.length := by
  induction names generalizing name with
  | nil => simp [List.intercalate]
  | cons name' names ih =>
    have hslash : utf8Length ['/'] = 1 := rfl
    have hfold := foldl_add (fun name => utf8Length name.display) (0 + utf8Length name.display)
      (name' :: names)
    rw [List.map_cons, List.map_cons, List.intercalate_cons_cons, utf8Length_append,
      utf8Length_append, ← List.map_cons, ih, hslash]
    change _ = (name' :: names).foldl _ (0 + utf8Length name.display) + (names.length + 1)
    rw [hfold]
    omega

theorem utf8Length_display (path : LogicalPath) :
    utf8Length path.display = absolutePathLen path.components := by
  have hslash : utf8Length ['/'] = 1 := rfl
  rw [display, ← List.singleton_append, utf8Length_append, hslash, absolutePathLen, foldl_add]
  cases path.components with
  | nil => rfl
  | cons name names =>
    rw [utf8Length_intercalate, List.length_cons]
    omega

theorem fromComponents_eq_ok : fromComponents components = .ok path ↔
    path.components = components ∧ components.length ≤ maxPathComponents ∧
      utf8Length path.display ≤ maxPathBytes := by
  rw [utf8Length_display, fromComponents]
  constructor
  · intro h
    obtain ⟨_, hlimits, h⟩ := bind_eq_ok h
    obtain ⟨hdepth, hlimits⟩ := else_of_ok hlimits
    obtain rfl := Except.ok.inj h
    exact ⟨rfl, Nat.le_of_not_lt hdepth, Nat.le_of_not_lt (else_of_ok hlimits).1⟩
  · rintro ⟨rfl, hdepth, hbytes⟩
    rw [validatePathLimits, if_neg (Nat.not_lt.mpr hdepth), if_neg (Nat.not_lt.mpr hbytes)]
    rfl

theorem new_display (hnfc : ∀ value, nfc (nfc value) = nfc value)
    (h : NormalizedName.new nfc caseFold value = .ok name) :
    NormalizedName.new nfc caseFold name.display = .ok name ∧ name.display ≠ [] ∧
      '/' ∉ name.display := by
  obtain ⟨_, hvalid, hname⟩ := bind_eq_ok h
  obtain rfl := Except.ok.inj hname
  have hstorable := storable_of_validateName hvalid
  refine ⟨?_, hstorable.ne_nil, ?_⟩
  · rw [NormalizedName.new]
    dsimp only
    rw [hnfc]
    exact h
  · intro hmem
    have := hstorable.characters '/' hmem
    revert this
    decide

theorem mapM_display (hnfc : ∀ value, nfc (nfc value) = nfc value)
    (h : ∀ name ∈ components, ∃ value, NormalizedName.new nfc caseFold value = .ok name) (k : ℕ) :
    ((components.map NormalizedName.display).zipIdx k).mapM (fun (value, index) =>
      (NormalizedName.new nfc caseFold value).mapError (.invalidComponent index)) =
        (.ok components : Except PathError _) := by
  induction components generalizing k with
  | nil => rfl
  | cons name components ih =>
    obtain ⟨⟨_, hname⟩, hrest⟩ := List.forall_mem_cons.mp h
    rw [List.map_cons, List.zipIdx_cons, List.mapM_cons, ih hrest]
    dsimp only
    rw [(new_display hnfc hname).1]
    rfl

theorem Valid.fromStr_display (hnfc : ∀ value, nfc (nfc value) = nfc value)
    (h : path.Valid nfc caseFold) : fromStr nfc caseFold path.display = .ok path := by
  have hname : ∀ name ∈ path.components, name.display ≠ [] ∧ '/' ∉ name.display := by
    intro name hname
    obtain ⟨_, hvalue⟩ := h.made name hname
    exact (new_display hnfc hvalue).2
  obtain ⟨components⟩ := path
  by_cases hroot : components = []
  · rw [hroot]
    rfl
  · have hnonempty : [] ∉ components.map NormalizedName.display := by
      rw [List.mem_map]
      exact fun ⟨name, hmem, hempty⟩ => (hname name hmem).1 hempty
    have hsplit : (['/'].intercalate (components.map NormalizedName.display)).splitOn '/' =
        components.map NormalizedName.display :=
      List.splitOn_intercalate '/' (List.forall_mem_map.mpr fun name h => (hname name h).2)
        (mt List.map_eq_nil_iff.mp hroot)
    rw [display, fromStr, if_neg (not_not.mpr rfl), if_neg, hsplit, if_neg hnonempty,
      mapM_display hnfc h.made, ok_bind]
    · exact fromComponents_eq_ok.mpr ⟨rfl, h.depth, h.bytes⟩
    · intro hempty
      rw [hempty] at hsplit
      exact hnonempty (hsplit ▸ List.mem_singleton_self [])

theorem valid_fromStr (h : fromStr nfc caseFold value = .ok path) : path.Valid nfc caseFold := by
  cases value with
  | nil => cases h
  | cons c remainder =>
    obtain ⟨-, h⟩ := else_of_ok h
    split at h
    · obtain rfl := Except.ok.inj h
      exact ⟨List.forall_mem_nil _, by decide, by decide⟩
    · obtain ⟨-, h⟩ := else_of_ok h
      obtain ⟨components, hcomponents, h⟩ := bind_eq_ok h
      obtain ⟨rfl, hdepth, hbytes⟩ := fromComponents_eq_ok.mp h
      refine ⟨fun name hname => ?_, hdepth, hbytes⟩
      obtain ⟨⟨value, _⟩, -, hnew⟩ := exists_of_mem_mapM hcomponents hname
      exact ⟨value, mapError_eq_ok hnew⟩

theorem Valid.join (h : path.Valid nfc caseFold)
    (hname : NormalizedName.new nfc caseFold value = .ok name) {joined : LogicalPath}
    (hjoin : path.join name = .ok joined) : joined.Valid nfc caseFold := by
  obtain ⟨hjoined, hdepth, hbytes⟩ := fromComponents_eq_ok.mp hjoin
  refine ⟨?_, hjoined ▸ hdepth, hbytes⟩
  rw [hjoined, List.forall_mem_append, List.forall_mem_singleton]
  exact ⟨h.made, value, hname⟩

theorem Valid.parent (h : path.Valid nfc caseFold) {parent : LogicalPath}
    (hparent : path.parent = some parent) :
    parent.Valid nfc caseFold ∧
      ∃ name, path.fileName = some name ∧ parent.join name = .ok path := by
  unfold LogicalPath.parent at hparent
  split at hparent
  · cases hparent
  · next hne =>
    obtain rfl := Option.some.inj hparent
    have hlast := List.getLast?_eq_some_getLast hne
    have hjoined := List.dropLast_append_getLast hne
    refine ⟨⟨fun name h' => h.made name (List.dropLast_subset _ h'), ?_, ?_⟩, _, hlast, ?_⟩
    · exact List.length_dropLast ▸ (Nat.sub_le _ _).trans h.depth
    · have hbytes := h.bytes
      rw [utf8Length_display, ← hjoined, absolutePathLen, List.foldl_append,
        List.length_append] at hbytes
      simp only [List.foldl_cons, List.foldl_nil] at hbytes
      rw [utf8Length_display, absolutePathLen]
      dsimp only
      omega
    · rw [LogicalPath.join, hjoined]
      exact fromComponents_eq_ok.mpr ⟨rfl, h.depth, h.bytes⟩

/-- Every path is read back from its display form, and parsing, joining and going to the
parent keep the limits. -/
theorem paths_read_back (nfc caseFold : List Char → List Char)
    (hnfc : ∀ value, nfc (nfc value) = nfc value) :
    (∀ path, Valid path nfc caseFold → fromStr nfc caseFold path.display = .ok path) ∧
    (∀ value path, fromStr nfc caseFold value = .ok path →
      path.Valid nfc caseFold ∧ fromStr nfc caseFold path.display = .ok path) ∧
    (∀ path parent, Valid path nfc caseFold → path.parent = some parent →
      parent.Valid nfc caseFold ∧
        ∃ name, path.fileName = some name ∧ parent.join name = .ok path) ∧
    ∀ path value name joined, Valid path nfc caseFold →
      NormalizedName.new nfc caseFold value = .ok name → path.join name = .ok joined →
        joined.Valid nfc caseFold :=
  ⟨fun _ h => h.fromStr_display hnfc,
    fun _ _ h => ⟨valid_fromStr h, (valid_fromStr h).fromStr_display hnfc⟩,
    fun _ _ h hparent => h.parent hparent, fun _ _ _ _ h hname hjoin => h.join hname hjoin⟩

/-- A file in a folder, with lower case for the case folding. -/
def lettersPath : LogicalPath :=
  mk [⟨['D', 'o', 'c', 's'], ['d', 'o', 'c', 's']⟩, ⟨['a', ' ', 'B'], ['a', ' ', 'b']⟩]

theorem lettersPath_reads_back :
    fromStr id (·.map Char.toLower) lettersPath.display = .ok lettersPath :=
  (paths_read_back id (·.map Char.toLower) fun _ => rfl).1 _
    ⟨by simpa [lettersPath] using ⟨⟨['D', 'o', 'c', 's'], rfl⟩, ['a', ' ', 'B'], rfl⟩, by decide,
      by decide⟩

end LogicalPath

end FileBelt
