import FileBelt.Nfs.Pages

/-!
# Pages of the API listing

`list_children` of the API skips the rows of the database that are not behind the
cursor.  It compares bytes, whatever the collation of the database is.
-/

namespace FileBelt.Api

open Support Support.Protobuf Support.Paging Nfs Database

/-- The problem codes of a page request. -/
inductive PageError
  | limitInvalid | cursorInvalid | idInvalid
  deriving DecidableEq, Repr

/-- The page size and the cursor of a request. -/
structure PageQuery where
  limit : ℕ
  cursor : Option (List Byte)

/-- A page has at most two hundred entries. -/
def validatedLimit (limit : ℕ) : Except PageError ℕ :=
  if 1 ≤ limit ∧ limit ≤ 200 then .ok limit else .error .limitInvalid

/-- The canonical text of a random identifier. -/
def parseUuidV4 (value : List Byte) : Except PageError ℕ := do
  let id ← okOr (parseUuid value) .idInvalid
  if uuidVersion id ≠ 4 ∨ uuidText id ≠ value then .error .idInvalid
  else return id

def encodeCursor : ChildRecord → List Byte := Nfs.encodeCursor

/-- The kind, the key and the identifier between zero bytes. -/
def decodeCursorFields (value : List Byte) : Except PageError (List Byte × List Byte × ℕ) := do
  let text ← okOr (Base64.decode value) .cursorInvalid
  if ¬utf8Valid text then .error .cursorInvalid
  else
    let first := nextField (some text)
    let second := nextField first.2
    let third := nextField second.2
    let id ← parseUuidV4 third.1
    if third.2.isSome ∨ first.1 = [] then .error .cursorInvalid
    else return (first.1, second.1, id)

/-- The row after which a page starts. -/
def decodeCursor (value : List Byte) : Except PageError NodeCursor := do
  let fields ← decodeCursorFields value
  let kind ← okOr (ChildKind.parse fields.1) .cursorInvalid
  return ⟨kind, fields.2.1, fields.2.2⟩

/-- `page.cursor.as_deref().map(decode_cursor).transpose()`. -/
def queriedCursor : Option (List Byte) → Except PageError (Option NodeCursor)
  | none => return none
  | some value => return some (← decodeCursor value)

/-- `list_children` of an admitted parent.  The loop, with `compare_node_cursor`, is that
of the VFS. -/
def listChildren (nodes : List ChildRecord) (query : PageQuery) :
    Except PageError (Page ChildRecord (List Byte)) := do
  let limit ← validatedLimit query.limit
  let cursor ← queriedCursor query.cursor
  return popped limit encodeCursor (listLoop cursor limit nodes [])

/-- One request of a client that pages through a directory. -/
def fetchChildren (collation : Collation) (d : Siblings) (limit : ℕ)
    (cursor : Option (List Byte)) : Except PageError (Page ChildRecord (List Byte)) :=
  listChildren (Database.listChildren collation d) ⟨limit, cursor⟩

theorem parseUuidV4_uuidText {id : ℕ} (hbound : id < 2 ^ 128)
    (hversion : uuidVersion id = 4) : parseUuidV4 (uuidText id) = .ok id := by
  rw [parseUuidV4, parseUuid_uuidText id hbound]
  change (if uuidVersion id ≠ 4 ∨ uuidText id ≠ uuidText id then _ else _) = _
  rw [if_neg (by simp [hversion])]
  rfl

theorem decodeCursor_encodeCursor {c : ChildRecord} (hversion : uuidVersion c.id = 4) :
    decodeCursor (encodeCursor c) = .ok c.cursor := by
  obtain ⟨hutf8, hfirst, hsecond, hthird⟩ := c.cursorFields
  have hkind : c.kind.text ≠ [] := by
    cases c.kind <;> decide
  have hfields : decodeCursorFields (encodeCursor c) =
      .ok (c.kind.text, c.nameKey, c.id) := by
    rw [decodeCursorFields, encodeCursor, Nfs.encodeCursor, Base64.decode_encode,
      okOr_some, ok_bind, if_neg (not_not.mpr hutf8)]
    simp only [hfirst, hsecond, hthird, parseUuidV4_uuidText c.idBound hversion, ok_bind]
    rw [if_neg (by simp [hkind])]
    rfl
  rw [decodeCursor, hfields, ok_bind, c.kind.text_spec.2.2]
  rfl

section

variable {collation : Collation} {d : Siblings} {limit : ℕ}

theorem complete_fetchChildren (hlimit : 1 ≤ limit ∧ limit ≤ 200) :
    Complete (fetchChildren collation d limit) d.visible ↔ PagesAgree collation d limit := by
  have hvalid : validatedLimit limit = .ok limit := if_pos hlimit
  refine complete_listLoop hlimit.1 ?_ fun c hc => ?_
  · rw [fetchChildren, listChildren, hvalid]
    rfl
  · have hcursor : decodeCursor (Nfs.encodeCursor c) = .ok c.cursor :=
      decodeCursor_encodeCursor (d.version_eq c hc)
    rw [fetchChildren, listChildren, hvalid, queriedCursor, hcursor]
    rfl

theorem fetchChildren_next {cursor : Option (List Byte)}
    {page : Page ChildRecord (List Byte)} {next : List Byte}
    (h : fetchChildren collation d limit cursor = .ok page) (hnext : page.next = some next) :
    ∃ c, page.items.getLast? = some c ∧ decodeCursor next = .ok c.cursor := by
  obtain ⟨_, -, h⟩ := bind_eq_ok h
  obtain ⟨_, -, h⟩ := bind_eq_ok h
  obtain rfl := Except.ok.inj h
  obtain ⟨c, hlast, hfound, rfl⟩ := popped_next hnext
  have hrow : c ∈ d.rows := perm_listChildren.mem_iff.mp (mem_of_mem_listLoop hfound)
  exact ⟨c, hlast, decodeCursor_encodeCursor (d.version_eq c hrow)⟩

end

/-- With any page size that is accepted, a client that follows the cursors of the API, or of
the NFS listing, reads each visible child exactly once if and only if the bytes and the
collation of the database agree at the end of every page; and every cursor that is returned is
accepted as the position of the last child of its page. -/
theorem every_visible_child_is_listed_once_iff (collation : Collation) (d : Siblings) :
    (∀ limit, 1 ≤ limit ∧ limit ≤ 200 →
      (Complete (fetchChildren collation d limit) d.visible ↔ PagesAgree collation d limit)) ∧
    (∀ limit, 1 ≤ limit ∧ limit ≤ 1000 →
      (Complete (fetchNodes collation d limit) d.visible ↔ PagesAgree collation d limit)) ∧
    (∀ limit cursor page next, fetchChildren collation d limit cursor = .ok page →
      page.next = some next →
      ∃ c, page.items.getLast? = some c ∧ decodeCursor next = .ok c.cursor) ∧
    ∀ limit cursor page next, fetchNodes collation d limit cursor = .ok page →
      page.next = some next →
      ∃ c, page.items.getLast? = some c ∧ next.length ≤ 4096 ∧
        Nfs.decodeCursor next = some c.cursor :=
  ⟨fun _ => complete_fetchChildren, fun _ => complete_fetchNodes,
    fun _ _ _ _ => fetchChildren_next, fun _ _ _ _ => fetchNodes_next⟩

/-- What a name key of a stored file satisfies. -/
def NameKeyText (key : List Byte) : Prop :=
  key ≠ [] ∧ (utf8Valid key ∧ 0 ∉ key) ∧ key.length ≤ 255

instance (key : List Byte) : Decidable (NameKeyText key) := inferInstanceAs (Decidable (_ ∧ _ ∧ _))

/-- A file whose display name is its key. -/
def foldedFile (key : List Byte) (hkey : NameKeyText key) (id : ℕ)
    (hid : id ≠ 0 ∧ id < 2 ^ 128) : ChildRecord where
  kind := .file
  nameKey := key
  id := id
  displayName := key
  visible := true
  nameKeyNonempty := hkey.1
  nameKeyText := hkey.2.1
  idPositive := hid.1
  idBound := hid.2
  displayNameText := ⟨hkey.1, hkey.2.2, hkey.2.1.2⟩

def firstId : ℕ := 4 * 2 ^ 76 + 1

def secondId : ℕ := 4 * 2 ^ 76 + 2

/-- `é`, in UTF-8. -/
def accentFile : ChildRecord := foldedFile [0xC3, 0xA9] (by decide +kernel) firstId (by decide)

/-- `z`. -/
def zedFile : ChildRecord := foldedFile [0x7A] (by decide +kernel) secondId (by decide)

/-- Two files whose keys the collation and the bytes order differently. -/
def twoFiles : Siblings := ⟨[accentFile, zedFile], by decide, by decide, by decide⟩

/-- The weight of a byte where `é` stands between `e` and `f`. -/
def accentWeight (b : Byte) : Option ℕ :=
  if b = 0xC3 then none else if b = 0xA9 then some (2 * 0x65 + 1) else some (2 * b.toNat)

/-- Base letters first, bytes to break a tie. -/
def accentKey (text : List Byte) : List ℕ ×ₗ List ℕ :=
  toLex (text.filterMap accentWeight, text.map UInt8.toNat)

def accentCollation : Collation := ⟨List ℕ ×ₗ List ℕ, inferInstance, accentKey⟩

/-- With `é` before `z`, the page after `é` is empty: `z` is not behind the cursor. -/
theorem file_behind_accent_is_lost :
    Walk (fetchChildren accentCollation twoFiles 1) none [accentFile] ∧
      Walk (fetchNodes accentCollation twoFiles 1) none [accentFile] ∧
      zedFile ∈ twoFiles.visible ∧ zedFile ∉ [accentFile] := by
  have hfirst : fetchChildren accentCollation twoFiles 1 none =
      .ok ⟨[accentFile], some (encodeCursor accentFile)⟩ := by
    decide +kernel
  have hsecond : fetchChildren accentCollation twoFiles 1
      (some (encodeCursor accentFile)) = .ok ⟨[], none⟩ := by
    decide +kernel
  have hfirst' : fetchNodes accentCollation twoFiles 1 none =
      .ok ⟨[accentFile], some (encodeCursor accentFile)⟩ := by
    decide +kernel
  have hsecond' : fetchNodes accentCollation twoFiles 1
      (some (encodeCursor accentFile)) = .ok ⟨[], none⟩ := by
    decide +kernel
  refine ⟨.more hfirst (.last hsecond), .more hfirst' (.last hsecond'), ?_, ?_⟩
  · decide
  · decide

end FileBelt.Api
