import FileBelt.Nfs.Uuid
import FileBelt.Support.Base64
import FileBelt.Support.Paging
import Mathlib.Data.List.Lex
import Mathlib.Data.List.TakeWhile
import Mathlib.Data.Prod.Lex
import Mathlib.Order.Compare

/-!
# Listing a directory

The VFS lists the visible children of a directory page by page.  The database
returns them in the order of kind, name key and identifier; a cursor names the
last child of a page by these three.
-/

namespace FileBelt.Nfs

open Support Support.Protobuf

inductive ChildKind
  | file | directory | symlink
  deriving DecidableEq, Repr

def ChildKind.text : ChildKind → List Byte
  | .file => ascii "file"
  | .directory => ascii "directory"
  | .symlink => ascii "symlink"

/-- Kinds in the reverse order of their texts. -/
def ChildKind.place : ChildKind → ℕ
  | .symlink => 0
  | .file => 1
  | .directory => 2

/-- `visible` says that the child resolves and that its metadata may be read. -/
structure ChildRecord where
  kind : ChildKind
  nameKey : List Byte
  id : ℕ
  displayName : List Byte
  visible : Bool
  nameKeyNonempty : nameKey ≠ []
  nameKeyText : utf8Valid nameKey ∧ 0 ∉ nameKey
  idPositive : id ≠ 0
  idBound : id < 2 ^ 128
  displayNameText : displayName ≠ [] ∧ displayName.length ≤ 255 ∧ 0 ∉ displayName
  deriving DecidableEq, Repr

structure NodeCursor where
  kind : ChildKind
  nameKey : List Byte
  id : ℕ
  deriving DecidableEq, Repr

def ChildRecord.cursor (c : ChildRecord) : NodeCursor := ⟨c.kind, c.nameKey, c.id⟩

/-- Kinds backwards, then name keys, then identifiers. -/
def NodeCursor.key (cursor : NodeCursor) : ℕ ×ₗ List ℕ ×ₗ ℕ :=
  toLex (cursor.kind.place, toLex (cursor.nameKey.map UInt8.toNat, cursor.id))

def compareCursor (c : ChildRecord) (cursor : NodeCursor) : Ordering := cmp c.cursor.key cursor.key

/-! ## Cursors -/

/-- `format!("{}\0{}\0{}", node.kind, node.name_key, node.id)`. -/
def NodeCursor.text (cursor : NodeCursor) : List Byte :=
  cursor.kind.text ++ 0 :: (cursor.nameKey ++ 0 :: uuidText cursor.id)

def encodeCursor (c : ChildRecord) : List Byte := Base64.encode c.cursor.text

/-- The next field of a text that is split at null characters. -/
def nextField : Option (List Byte) → List Byte × Option (List Byte)
  | none => ([], none)
  | some text =>
    (text.takeWhile (· != 0), if 0 ∈ text then some (text.dropWhile (· != 0)).tail else none)

def ChildKind.parse (text : List Byte) : Option ChildKind :=
  if text = ascii "file" then some .file
  else if text = ascii "directory" then some .directory
  else if text = ascii "symlink" then some .symlink
  else none

/-- The fields of a decoded cursor. -/
def parseCursor (text : List Byte) : Option NodeCursor :=
  let kind := nextField (some text)
  let nameKey := nextField kind.2
  let id := nextField nameKey.2
  (parseUuid id.1).bind fun uuid =>
    if id.2.isSome ∨ uuid = 0 ∨ nameKey.1 = [] then none
    else (ChildKind.parse kind.1).map fun k => ⟨k, nameKey.1, uuid⟩

def decodeCursor (value : List Byte) : Option NodeCursor :=
  (Base64.decode value).bind fun text =>
    if ¬utf8Valid text then none else parseCursor text

variable {limit : ℕ} {field rest : List Byte}

theorem nextField_cons (h : 0 ∉ field) :
    nextField (some (field ++ 0 :: rest)) = (field, some rest) := by
  have hkeep : ∀ b ∈ field, (b != 0) := by
    intro b hb
    refine bne_iff_ne.mpr ?_
    rintro rfl
    exact h hb
  have htake : (field ++ 0 :: rest).takeWhile (· != 0) = field := by
    rw [List.takeWhile_append_of_pos hkeep]
    simp
  have hdrop : (field ++ 0 :: rest).dropWhile (· != 0) = 0 :: rest := by
    rw [List.dropWhile_append_of_pos hkeep]
    simp
  rw [nextField, htake, hdrop, if_pos (by simp)]
  rfl

theorem nextField_last (h : 0 ∉ field) : nextField (some field) = (field, none) := by
  have hkeep : ∀ b ∈ field, (b != 0) := by
    intro b hb
    refine bne_iff_ne.mpr ?_
    rintro rfl
    exact h hb
  rw [nextField, List.takeWhile_eq_self_iff.mpr hkeep, if_neg h]

theorem ChildKind.text_spec (k : ChildKind) :
    utf8Valid k.text ∧ 0 ∉ k.text ∧ ChildKind.parse k.text = some k := by
  cases k with
  | file => decide +kernel
  | directory => decide +kernel
  | symlink => decide +kernel

/-- The text of a cursor splits into the fields that it was made of. -/
theorem ChildRecord.cursorFields (c : ChildRecord) : utf8Valid c.cursor.text ∧
      nextField (some c.cursor.text) = (c.kind.text, some (c.nameKey ++ 0 :: uuidText c.id)) ∧
      nextField (some (c.nameKey ++ 0 :: uuidText c.id)) = (c.nameKey, some (uuidText c.id)) ∧
      nextField (some (uuidText c.id)) = (uuidText c.id, none) := by
  obtain ⟨hkindText, hkindZero, -⟩ := c.kind.text_spec
  obtain ⟨hnameText, hnameZero⟩ := c.nameKeyText
  have hid : utf8Valid (uuidText c.id) :=
    utf8Valid_of_ascii fun b hb => (uuidText_range c.id b hb).1
  have hidZero : 0 ∉ uuidText c.id := fun h => (uuidText_range c.id 0 h).2 rfl
  have hutf8 : utf8Valid c.cursor.text :=
    utf8Valid_append hkindText (utf8Valid_cons (by decide)
      (utf8Valid_append hnameText (utf8Valid_cons (by decide) hid)))
  exact ⟨hutf8, nextField_cons hkindZero, nextField_cons hnameZero, nextField_last hidZero⟩

theorem decodeCursor_encodeCursor (c : ChildRecord) :
    decodeCursor (encodeCursor c) = some c.cursor := by
  obtain ⟨hutf8, hfirst, hsecond, hthird⟩ := c.cursorFields
  have hparse : parseCursor c.cursor.text = some c.cursor := by
    simp only [parseCursor, hfirst, hsecond, hthird, parseUuid_uuidText _ c.idBound,
      Option.bind_some, c.kind.text_spec.2.2]
    rw [if_neg]
    · rfl
    · rintro (hrest | hzero | hnil)
      · cases hrest
      · exact c.idPositive hzero
      · exact c.nameKeyNonempty hnil
  rw [decodeCursor, encodeCursor, Base64.decode_encode, Option.bind_some,
    if_neg (not_not.mpr hutf8), hparse]

theorem encodeCursor_ne_nil (c : ChildRecord) : encodeCursor c ≠ [] := by
  intro hnil
  have hlength := Base64.encode_length c.cursor.text
  rw [show Base64.encode c.cursor.text = [] from hnil] at hlength
  have hpos : 0 < c.cursor.text.length := by
    rw [NodeCursor.text, List.length_append, List.length_cons]
    omega
  rw [List.length_nil] at hlength
  omega

/-! ## Pages -/

def follows (cursor : Option NodeCursor) (c : ChildRecord) : Bool :=
  cursor.all fun cursor => compareCursor c cursor = .gt

theorem follows_some (cursor : NodeCursor) :
    follows (some cursor) = fun c => decide (cursor.key < c.cursor.key) := by
  funext c
  exact decide_eq_decide.mpr (cmp_eq_gt_iff _ _)

/-- The loop of `list`; it stops with one child more than the page takes. -/
def listLoop (cursor : Option NodeCursor) (limit : ℕ) :
    List ChildRecord → List ChildRecord → List ChildRecord
  | [], page => page
  | c :: children, page =>
    if ¬follows cursor c then listLoop cursor limit children page
    else if ¬c.visible then listLoop cursor limit children page
    else if limit < (page ++ [c]).length then page ++ [c]
    else listLoop cursor limit children (page ++ [c])

/-- The fields of a `VfsResponse` that a listing fills. -/
structure ListResponse where
  entries : List ChildRecord
  nextCursor : List Byte
  endOfFile : Bool
  deriving DecidableEq, Repr

/-- The cursor of a request; an empty one stands for the start. -/
def requestedCursor (cursor : List Byte) : Option (Option NodeCursor) :=
  if cursor = [] then some none else (decodeCursor cursor).map some

def listPage (limit : ℕ) (found : List ChildRecord) : ListResponse :=
  if limit < found.length then
    { entries := found.dropLast
      nextCursor := (found.dropLast.getLast?.map encodeCursor).getD []
      endOfFile := false }
  else { entries := found, nextCursor := [], endOfFile := false }

theorem listLoop_eq {cursor : Option NodeCursor} {children page : List ChildRecord}
    (h : page.length ≤ limit) :
    listLoop cursor limit children page = page ++ ((children.filter ChildRecord.visible).filter
        (follows cursor)).take (limit + 1 - page.length) := by
  induction children generalizing page with
  | nil => simp [listLoop]
  | cons c children ih =>
    rw [listLoop]
    by_cases hfollows : follows cursor c = true
    · by_cases hvisible : c.visible = true
      · rw [if_neg (not_not.mpr hfollows), if_neg (not_not.mpr hvisible),
          List.filter_cons_of_pos hvisible, List.filter_cons_of_pos hfollows,
          List.length_append, List.length_singleton]
        split
        · have hone : limit + 1 - page.length = 1 := by omega
          rw [hone]
          rfl
        · have hmore : limit + 1 - page.length = limit + 1 - (page.length + 1) + 1 := by omega
          rw [ih (by rw [List.length_append, List.length_singleton]; omega),
            List.length_append, List.length_singleton, hmore,
            List.take_succ_cons, List.append_assoc, List.singleton_append]
      · rw [if_neg (not_not.mpr hfollows), if_pos hvisible, ih h, List.filter_cons_of_neg hvisible]
    · rw [if_pos hfollows, ih h]
      by_cases hvisible : c.visible = true
      · rw [List.filter_cons_of_pos hvisible, List.filter_cons_of_neg hfollows]
      · rw [List.filter_cons_of_neg hvisible]

end FileBelt.Nfs
