import FileBelt.Database.Children
import FileBelt.Domain.Errors

/-!
# Pages of the NFS listing

`list` of the VFS over the rows of the database, behind the validation of the
request.
-/

namespace FileBelt.Nfs

open Support Support.Protobuf Support.Paging Database

inductive ListError
  | limit | invalid
  deriving DecidableEq, Repr

/-- The checks of a `ListRequest`, and `list` once the parent is admitted. -/
def listNodes (nodes : List ChildRecord) (cursor : List Byte) (limit : ℕ) :
    Except ListError ListResponse :=
  if ¬(1 ≤ limit ∧ limit ≤ 1000) ∨ 4096 < cursor.length then .error .limit
  else do
    let cursor ← okOr (requestedCursor cursor) .invalid
    return listPage limit (listLoop cursor limit nodes [])

/-- A response as a client reads it: an empty cursor ends the listing. -/
def ListResponse.page (response : ListResponse) : Page ChildRecord (List Byte) :=
  ⟨response.entries, if response.nextCursor = [] then none else some response.nextCursor⟩

def fetchNodes (collation : Collation) (d : Siblings) (limit : ℕ)
    (cursor : Option (List Byte)) : Except ListError (Page ChildRecord (List Byte)) :=
  (listNodes (listChildren collation d) (cursor.getD []) limit).map ListResponse.page

variable {c : ChildRecord}

theorem page_listPage (limit : ℕ) (found : List ChildRecord) :
    (listPage limit found).page = popped limit encodeCursor found := by
  rw [listPage, popped]
  split
  · cases hlast : found.dropLast.getLast? with
    | none => simp [ListResponse.page]
    | some => simp [ListResponse.page, encodeCursor_ne_nil]
  · rfl

theorem mem_of_mem_listLoop {nodes : List ChildRecord} {cursor : Option NodeCursor}
    {limit : ℕ} (h : c ∈ listLoop cursor limit nodes []) : c ∈ nodes := by
  rw [listLoop_eq (Nat.zero_le limit)] at h
  exact List.mem_of_mem_filter (List.mem_of_mem_filter (List.mem_of_mem_take h))

theorem length_encodeCursor (h : c.nameKey.length ≤ 765) : (encodeCursor c).length ≤ 4096 := by
  have hkind : c.kind.text.length ≤ 9 := by
    cases c.kind <;> decide +kernel
  have hid : (uuidText c.id).length = 36 := uuidText_length c.id
  rw [encodeCursor, Base64.encode_length, ChildRecord.cursor, NodeCursor.text,
    List.length_append, List.length_cons, List.length_append, List.length_cons]
  dsimp only
  omega

variable {ε : Type} {collation : Collation} {d : Siblings} {limit : ℕ}

theorem popped_listLoop (cursor : Option NodeCursor) :
    popped limit encodeCursor (listLoop cursor limit (listChildren collation d) []) =
      cut limit encodeCursor
        (((listChildren collation d).filter ChildRecord.visible).filter (follows cursor)) := by
  rw [listLoop_eq (Nat.zero_le limit), List.nil_append, List.length_nil, Nat.sub_zero, popped_take]

/-- A client reads the visible children, if and only if the pages agree, from a server that
runs the loop behind the child of the cursor. -/
theorem complete_listLoop {fetch : Option (List Byte) → Except ε (Page ChildRecord (List Byte))}
    (hlimit : 0 < limit) (hfirst : fetch none =
      .ok (popped limit encodeCursor (listLoop none limit (listChildren collation d) [])))
    (hnext : ∀ c ∈ d.rows, fetch (some (encodeCursor c)) = .ok (popped limit encodeCursor
      (listLoop (some c.cursor) limit (listChildren collation d) []))) :
    Complete fetch d.visible ↔ PagesAgree collation d limit := by
  have hall : ∀ nodes : List ChildRecord, nodes.filter (follows none) = nodes :=
    fun nodes => List.filter_eq_self.mpr fun _ _ => rfl
  rw [popped_listLoop, hall] at hfirst
  refine complete_iff hlimit visible_listChildren_perm visible_listChildren_pairwise hfirst ?_
  intro c hc
  rw [hnext c (List.mem_of_mem_filter (visible_listChildren_perm.mem_iff.mp hc)), popped_listLoop,
    follows_some]

theorem complete_fetchNodes (hlimit : 1 ≤ limit ∧ limit ≤ 1000) :
    Complete (fetchNodes collation d limit) d.visible ↔ PagesAgree collation d limit := by
  have hfetch : ∀ {cursor position}, requestedCursor (cursor.getD []) = some position →
      (cursor.getD []).length ≤ 4096 → fetchNodes collation d limit cursor = .ok
        (popped limit encodeCursor (listLoop position limit (listChildren collation d) [])) := by
    intro cursor position hposition hlength
    rw [fetchNodes, listNodes, if_neg (by simp [hlimit, hlength]), hposition, ← page_listPage]
    rfl
  refine complete_listLoop hlimit.1 (hfetch rfl (Nat.zero_le _)) fun c hc => ?_
  refine hfetch ?_ (length_encodeCursor (d.nameKey_le c hc))
  rw [Option.getD_some, requestedCursor, if_neg (encodeCursor_ne_nil c), decodeCursor_encodeCursor]
  rfl

theorem fetchNodes_next {cursor : Option (List Byte)}
    {page : Page ChildRecord (List Byte)} {next : List Byte}
    (h : fetchNodes collation d limit cursor = .ok page) (hnext : page.next = some next) :
    ∃ c, page.items.getLast? = some c ∧ next.length ≤ 4096 ∧ decodeCursor next = some c.cursor := by
  rw [fetchNodes, listNodes] at h
  split at h
  · cases h
  · cases hcursor : requestedCursor (cursor.getD []) with
    | none =>
      rw [hcursor] at h
      cases h
    | some =>
      rw [hcursor] at h
      obtain rfl := Except.ok.inj h
      rw [page_listPage] at hnext ⊢
      obtain ⟨c, hlast, hfound, rfl⟩ := popped_next hnext
      have hrow : c ∈ d.rows := perm_listChildren.mem_iff.mp (mem_of_mem_listLoop hfound)
      exact ⟨c, hlast, length_encodeCursor (d.nameKey_le c hrow), decodeCursor_encodeCursor c⟩

end FileBelt.Nfs
