import FileBelt.Nfs.Listing
import Mathlib.Order.OrderDual

/-!
# The order of the children of a directory

`list_children` of the database: `ORDER BY n.kind DESC, n.name_key, n.id`.  The
columns of type `text` are compared with the collation of the database, which no
migration names.
-/

namespace FileBelt.Database

open Support.Protobuf Support.Paging Nfs

/-- Texts are compared by their sort keys. -/
structure Collation where
  SortKey : Type
  order : LinearOrder SortKey
  sortKey : List Byte → SortKey

attribute [instance] Collation.order

/-- The version in the seventh byte of a UUID. -/
def uuidVersion (id : ℕ) : ℕ := id / 2 ^ 76 % 16

/-- The live rows of `nodes` below one directory.  Identifiers come from `Uuid::new_v4`; a
name key is at most three times as long as its name, which has at most 255 bytes. -/
structure Siblings where
  rows : List ChildRecord
  ids_nodup : (rows.map ChildRecord.id).Nodup
  nameKey_le : ∀ c ∈ rows, c.nameKey.length ≤ 765
  version_eq : ∀ c ∈ rows, uuidVersion c.id = 4

def Siblings.visible (d : Siblings) : List ChildRecord := d.rows.filter ChildRecord.visible

section

variable (collation : Collation)

/-- What the rows are sorted by. -/
def rowKey (c : ChildRecord) : collation.SortKeyᵒᵈ ×ₗ collation.SortKey ×ₗ ℕ :=
  toLex (OrderDual.toDual (collation.sortKey c.kind.text),
    toLex (collation.sortKey c.nameKey, c.id))

def listChildren (d : Siblings) : List ChildRecord :=
  d.rows.insertionSort fun a b => rowKey collation a ≤ rowKey collation b

/-- Cursors are compared by bytes.  At the end of every page but the last, the bytes put
those visible children behind the last one that the collation puts behind it. -/
def PagesAgree (d : Siblings) (limit : ℕ) : Prop :=
  ∀ c ∈ d.visible, EndsPage limit (rowKey collation) d.visible c →
    ∀ a ∈ d.visible, (c.cursor.key < a.cursor.key ↔ rowKey collation c < rowKey collation a)

end

variable {collation : Collation} {d : Siblings} {a b : ChildRecord}

theorem perm_listChildren : (listChildren collation d).Perm d.rows := List.perm_insertionSort _ _

theorem rowKey_injOn (ha : a ∈ d.rows) (hb : b ∈ d.rows)
    (h : rowKey collation a = rowKey collation b) : a = b := by
  have hid : a.id = b.id := congrArg (fun key => (ofLex (ofLex key).2).2) h
  exact List.inj_on_of_nodup_map d.ids_nodup ha hb hid

theorem listChildren_pairwise : (listChildren collation d).Pairwise fun a b =>
      rowKey collation a < rowKey collation b := by
  have hsorted : (listChildren collation d).Pairwise fun a b =>
      rowKey collation a ≤ rowKey collation b :=
    List.pairwise_insertionSort _ d.rows
  have hnodup : (listChildren collation d).Nodup :=
    perm_listChildren.nodup_iff.mpr (List.Nodup.of_map _ d.ids_nodup)
  refine (hsorted.and hnodup).imp_of_mem ?_
  rintro a b ha hb ⟨hle, hne⟩
  refine lt_of_le_of_ne hle fun heq => hne ?_
  exact rowKey_injOn (perm_listChildren.mem_iff.mp ha) (perm_listChildren.mem_iff.mp hb) heq

theorem visible_listChildren_perm :
    ((listChildren collation d).filter ChildRecord.visible).Perm d.visible :=
  perm_listChildren.filter _

theorem visible_listChildren_pairwise :
    ((listChildren collation d).filter ChildRecord.visible).Pairwise fun a b =>
      rowKey collation a < rowKey collation b :=
  listChildren_pairwise.filter _

end FileBelt.Database
