import FileBelt.Tree.Ancestry

/-!
# Trash marks along the edges of the tree

A trashed node carries the identifier of the node whose trashing took it along.  As
long as nodes are created below live directories, a child of a trashed node is trashed,
and a trashed node was trashed itself or inherits the mark of its parent.
-/

namespace FileBelt.Database

open Support

namespace Namespace

structure Edge (s : Namespace) (drive : DriveId) (id : NodeId) (n : NodeRow)
    (parent : NodeId) (q : NodeRow) : Prop where
  child : s.nodes.get (drive, id) = some n
  pointer : n.parentId = some parent
  row : s.nodes.get (drive, parent) = some q

structure TrashInvariant (s : Namespace) : Prop where
  closed : s.Closed
  directory : ∀ drive id n parent q, s.Edge drive id n parent q → q.kind = .directory
  inherited : ∀ drive id n parent q, s.Edge drive id n parent q →
    q.trashRootId ≠ none → n.trashRootId ≠ none
  origin : ∀ drive id n root, s.nodes.get (drive, id) = some n →
    n.trashRootId = some root → id = root ∨
      ∃ parent q, s.Edge drive id n parent q ∧ q.trashRootId = some root

variable {s s' : Namespace} {drive : DriveId} {id parent parent' : NodeId} {n q row : NodeRow}

theorem Edge.parentOf_eq (h : s.Edge drive id n parent q) : s.parentOf drive id = some parent :=
  (parentOf_of_get h.child).trans h.pointer

theorem row_drive (h : s.nodes.get (drive, id) = some n) : n.driveId = drive ∧ n.id = id := by
  have hkey : NodeRow.key n = (drive, id) := Table.get_key h
  exact Prod.mk.inj hkey

section

variable {s : Namespace} {drive : DriveId} {root id parent : NodeId} {n q : NodeRow}

theorem below_self (h : s.Closed) (hnode : s.nodes.get (drive, id) = some n) :
    s.below drive id id :=
  (hasNode_of_below h).mpr ⟨⟨n, hnode⟩, 0, rfl⟩

theorem below_child (h : s.Closed) (hedge : s.Edge drive id n parent q)
    (hbelow : s.below drive root parent) : s.below drive root id := by
  obtain ⟨-, k, hk⟩ := (hasNode_of_below h).mp hbelow
  refine (hasNode_of_below h).mpr ⟨⟨n, hedge.child⟩, k + 1, ?_⟩
  rw [ancestorAt_succ, hedge.parentOf_eq]
  exact hk

theorem below_parent (h : s.Closed) (hedge : s.Edge drive id n parent q) (hne : id ≠ root)
    (hbelow : s.below drive root id) : s.below drive root parent := by
  obtain ⟨-, k, hk⟩ := (hasNode_of_below h).mp hbelow
  refine (hasNode_of_below h).mpr ⟨⟨q, hedge.row⟩, ?_⟩
  cases k with
  | zero =>
    exact absurd (Option.some.inj hk) hne
  | succ k =>
    rw [ancestorAt_succ, hedge.parentOf_eq] at hk
    exact ⟨k, hk⟩

end

/-- The invariant after a row-wise change `g` that keeps parents and kinds. -/
theorem TrashInvariant.map (h : s.TrashInvariant) (hclosed : s'.Closed)
    {g : DriveId → NodeId → NodeRow → NodeRow}
    (hget : ∀ d id, s'.nodes.get (d, id) = (s.nodes.get (d, id)).map (g d id))
    (hkeep : ∀ d id n, (g d id n).parentId = n.parentId ∧ (g d id n).kind = n.kind)
    (hinherited : ∀ drive id n parent q, s.Edge drive id n parent q →
      (g drive parent q).trashRootId ≠ none → (g drive id n).trashRootId ≠ none)
    (horigin : ∀ drive id n root, s.nodes.get (drive, id) = some n →
      (g drive id n).trashRootId = some root → id = root ∨
      ∃ parent q, s.Edge drive id n parent q ∧ (g drive parent q).trashRootId = some root) :
    s'.TrashInvariant := by
  have hrow : ∀ {d id n'}, s'.nodes.get (d, id) = some n' →
      ∃ n, s.nodes.get (d, id) = some n ∧ g d id n = n' := by
    intro d id n' hn'
    rw [hget] at hn'
    exact Option.map_eq_some_iff.mp hn'
  have hedge : ∀ {drive id n' parent q'}, s'.Edge drive id n' parent q' →
      ∃ n q, s.Edge drive id n parent q ∧ g drive id n = n' ∧ g drive parent q = q' := by
    rintro drive id n' parent q' ⟨hchild, hpointer, hrow'⟩
    obtain ⟨n, hn, rfl⟩ := hrow hchild
    obtain ⟨q, hq, rfl⟩ := hrow hrow'
    rw [(hkeep _ _ _).1] at hpointer
    exact ⟨n, q, ⟨hn, hpointer, hq⟩, rfl, rfl⟩
  refine ⟨hclosed, ?_, ?_, ?_⟩
  · intro drive id n' parent q' h'
    obtain ⟨n, q, he, rfl, rfl⟩ := hedge h'
    rw [(hkeep _ _ _).2]
    exact h.directory drive id n parent q he
  · intro drive id n' parent q' h'
    obtain ⟨n, q, he, rfl, rfl⟩ := hedge h'
    exact hinherited drive id n parent q he
  · intro drive id n' root hn' hroot
    obtain ⟨n, hn, rfl⟩ := hrow hn'
    refine (horigin drive id n root hn hroot).imp_right ?_
    rintro ⟨parent, _, he, hq⟩
    refine ⟨parent, _, ⟨hn', (hkeep _ _ _).1.trans he.pointer, ?_⟩, hq⟩
    rw [hget, he.row, Option.map_some]

theorem TrashInvariant.update (h : s.TrashInvariant) (p : NodeRow → Bool)
    (f : NodeRow → NodeRow) (hf : ∀ r, NodeRow.key (f r) = NodeRow.key r)
    (hkeep : ∀ r, (f r).parentId = r.parentId ∧ (f r).kind = r.kind ∧
      (f r).trashRootId = r.trashRootId) : (s.update p f hf).TrashInvariant := by
  have hrow : ∀ n, (if p n then f n else n).parentId = n.parentId ∧
      (if p n then f n else n).kind = n.kind ∧
      (if p n then f n else n).trashRootId = n.trashRootId := by
    intro n
    split
    · exact hkeep n
    · exact ⟨rfl, rfl, rfl⟩
  refine h.map (h.closed.update p f hf fun r => (hkeep r).1)
    (fun d id => nodes_get_update s p f hf (d, id)) ?_ ?_ ?_
  · exact fun _ _ n => ⟨(hrow n).1, (hrow n).2.1⟩
  · intro drive id n parent q he hq
    rw [(hrow _).2.2] at hq ⊢
    exact h.inherited drive id n parent q he hq
  · intro drive id n root hn hroot
    rw [(hrow _).2.2] at hroot
    refine (h.origin drive id n root hn hroot).imp_right ?_
    rintro ⟨parent, q, he, hq⟩
    exact ⟨parent, q, he, (hrow q).2.2.trans hq⟩

section

variable {s : Namespace} {drive : DriveId} {root : NodeId} {row : NodeRow}

/-- A subtree update sees each row at its place. -/
theorem nodes_get_subtree {P : DriveId → NodeId → NodeRow → Prop} [∀ d id, DecidablePred (P d id)]
    (f : NodeRow → NodeRow) (hf : ∀ r, NodeRow.key (f r) = NodeRow.key r) (d : DriveId)
    (id : NodeId) : (s.update (fun n => P n.driveId n.id n) f hf).nodes.get (d, id) =
      (s.nodes.get (d, id)).map fun n => if P d id n then f n else n := by
  rw [nodes_get_updateWhere]
  cases hget : s.nodes.get (d, id) with
  | none => rfl
  | some =>
    obtain ⟨rfl, rfl⟩ := row_drive hget
    rfl

theorem TrashInvariant.trash (h : s.TrashInvariant) (hclosed : (s.trashSubtree drive root).Closed) :
    (s.trashSubtree drive root).TrashInvariant := by
  refine h.map hclosed (nodes_get_subtree (P := fun d id n =>
    d = drive ∧ s.below drive root id ∧ n.trashRootId = none) _ _) ?_ ?_ ?_
  · intro d id n
    split <;> exact ⟨rfl, rfl⟩
  · intro d id n parent q he hq
    by_cases hn : n.trashRootId = none
    · have hqlive : q.trashRootId = none := by
        by_contra hqt
        exact h.inherited d id n parent q he hqt hn
      -- The parent is live before, so it was trashed just now.
      split at hq
      · next hcond =>
        obtain ⟨rfl, hbelow, -⟩ := hcond
        rw [if_pos ⟨rfl, below_child h.closed he hbelow, hn⟩]
        simp
      · exact absurd hqlive hq
    · rw [if_neg (fun hcond => hn hcond.2.2)]
      exact hn
  · intro d id n t hget ht
    split at ht
    · next hcond =>
      obtain ⟨rfl, hbelow, hlive⟩ := hcond
      obtain rfl : root = t := Option.some.inj ht
      by_cases hroot : id = root
      · exact .inl hroot
      · right
        obtain ⟨-, k, hk⟩ := (hasNode_of_below h.closed).mp hbelow
        cases k with
        | zero =>
          exact absurd (Option.some.inj hk) hroot
        | succ =>
          obtain ⟨parent, hparent, -⟩ := Option.bind_eq_some_iff.mp hk
          obtain ⟨q, hq⟩ := h.closed.parent_exists d id parent hparent
          have he : s.Edge d id n parent q := ⟨hget, (parentOf_of_get hget).symm.trans hparent, hq⟩
          have hqlive : q.trashRootId = none := by
            by_contra hqt
            exact h.inherited d id n parent q he hqt hlive
          refine ⟨parent, q, he, ?_⟩
          rw [if_pos ⟨rfl, below_parent h.closed he hroot hbelow, hqlive⟩]
    · refine (h.origin d id n t hget ht).imp_right ?_
      rintro ⟨parent, q, he, hq⟩
      refine ⟨parent, q, he, ?_⟩
      rw [if_neg (fun hcond => by simp [hcond.2.2] at hq)]
      exact hq

theorem Edge.unique {n' q' : NodeRow} (h : s.Edge drive id n parent q)
    (h' : s.Edge drive id n' parent' q') : parent = parent' ∧ q = q' := by
  obtain rfl := Option.some.inj (h.child.symm.trans h'.child)
  obtain rfl := Option.some.inj (h.pointer.symm.trans h'.pointer)
  exact ⟨rfl, Option.some.inj (h.row.symm.trans h'.row)⟩

theorem TrashInvariant.restore (h : s.TrashInvariant)
    (hclosed : (s.restoreSubtree drive root).Closed) (hrow : s.nodes.get (drive, root) = some row)
    (hparent : row.parentId = some parent)
    (hlive : ∃ n, s.nodes.get (drive, parent) = some n ∧ n.trashRootId = none) :
    (s.restoreSubtree drive root).TrashInvariant := by
  refine h.map hclosed (nodes_get_subtree (P := fun d id n =>
    d = drive ∧ s.below drive root id ∧ n.trashRootId = some root) _ _) ?_ ?_ ?_
  · intro d id n
    split <;> exact ⟨rfl, rfl⟩
  · intro d id n p q he hq
    split at hq
    · exact absurd rfl hq
    · next hqkept =>
      have hn := h.inherited d id n p q he hq
      rw [if_neg]
      · exact hn
      · rintro ⟨rfl, hbelow, hnroot⟩
        by_cases hroot : id = root
        · -- The restored node itself has a live parent.
          subst hroot
          obtain ⟨_, hm, hmlive⟩ := hlive
          obtain ⟨-, rfl⟩ := he.unique ⟨hrow, hparent, hm⟩
          exact hq hmlive
        · rcases h.origin d id n root he.child hnroot with heq | ⟨p', q', he', hq'⟩
          · exact hroot heq
          · obtain ⟨rfl, rfl⟩ := he.unique he'
            exact hqkept ⟨rfl, below_parent h.closed he hroot hbelow, hq'⟩
  · intro d id n t hget ht
    split at ht
    · cases ht
    · next hkept =>
      refine (h.origin d id n t hget ht).imp_right ?_
      rintro ⟨p, q, he, hq⟩
      refine ⟨p, q, he, ?_⟩
      rw [if_neg]
      · exact hq
      · rintro ⟨rfl, hbelow, hqroot⟩
        obtain rfl : t = root := Option.some.inj (hq.symm.trans hqroot)
        exact hkept ⟨rfl, below_child h.closed he hbelow, ht⟩

end

section

variable {s inserted : Namespace} {row : NodeRow} {ancestry : Table AncestryRow.key}
  {drive : DriveId}

theorem NodeInserted.get_of_some (h : NodeInserted s row inserted)
    (hget : s.nodes.get (drive, id) = some n) : inserted.nodes.get (drive, id) = some n := by
  rw [h.get_other, hget]
  intro hkey
  rw [hkey, h.fresh] at hget
  cases hget

theorem NodeInserted.edge (h : NodeInserted s row inserted) (hclosed : s.Closed)
    (he : { inserted with ancestry := ancestry }.Edge drive id n parent q) :
    s.Edge drive id n parent q ∨ (n = row ∧ row.parentId = some parent ∧
        s.nodes.get (row.driveId, parent) = some q) := by
  obtain ⟨hchild, hpointer, hrow⟩ := he
  have hold : ∀ {d}, s.HasNode d parent → inserted.nodes.get (d, parent) = some q →
        s.nodes.get (d, parent) = some q := by
    rintro d ⟨m, hm⟩ hq
    rw [← hq, h.get_of_some hm, hm]
  by_cases hkey : (drive, id) = NodeRow.key row
  · right
    rw [hkey] at hchild
    obtain rfl := Option.some.inj (h.get_self.symm.trans hchild)
    obtain ⟨rfl, -⟩ := Prod.mk.inj hkey
    exact ⟨rfl, hpointer, hold (h.parent parent hpointer) hrow⟩
  · left
    rw [h.get_other hkey] at hchild
    refine ⟨hchild, hpointer, hold ?_ hrow⟩
    exact hclosed.parent_exists drive id parent ((parentOf_of_get hchild).trans hpointer)

theorem TrashInvariant.insert (h : s.TrashInvariant) (hinserted : NodeInserted s row inserted)
    (hclosed : { inserted with ancestry := ancestry }.Closed) (hlive : row.trashRootId = none)
    (hparent : ∀ parent, row.parentId = some parent → s.LiveDirectory row.driveId parent) :
    { inserted with ancestry := ancestry }.TrashInvariant := by
  have hnew : ∀ {parent q}, row.parentId = some parent →
      s.nodes.get (row.driveId, parent) = some q → q.kind = .directory ∧ q.trashRootId = none := by
    intro parent q hpointer hq
    obtain ⟨_, hm, hkind, htrash⟩ := hparent parent hpointer
    rw [hm] at hq
    rw [← Option.some.inj hq]
    exact ⟨hkind, htrash⟩
  refine ⟨hclosed, ?_, ?_, ?_⟩
  · intro drive id n parent q he
    rcases hinserted.edge h.closed he with he | ⟨-, hpointer, hq⟩
    · exact h.directory drive id n parent q he
    · exact (hnew hpointer hq).1
  · intro drive id n parent q he hq
    rcases hinserted.edge h.closed he with he | ⟨-, hpointer, hget⟩
    · exact h.inherited drive id n parent q he hq
    · exact absurd (hnew hpointer hget).2 hq
  · intro drive id n root hget hroot
    by_cases hkey : (drive, id) = NodeRow.key row
    · rw [hkey] at hget
      rw [← Option.some.inj (hinserted.get_self.symm.trans hget), hlive] at hroot
      cases hroot
    · rw [hinserted.get_other hkey] at hget
      refine (h.origin drive id n root hget hroot).imp_right ?_
      rintro ⟨parent, q, he, hq⟩
      exact ⟨parent, q, ⟨hinserted.get_of_some he.child, he.pointer,
        hinserted.get_of_some he.row⟩, hq⟩

end

theorem TrashInvariant.move {v target : NodeId} {g : NodeRow → NodeRow} (h : s.TrashInvariant)
    (hclosed : s'.Closed) (hget : ∀ k, s'.nodes.get k = (s.nodes.get k).map g)
    (hkeep : ∀ n, (g n).kind = n.kind ∧ (g n).trashRootId = n.trashRootId)
    (hparentOf : ∀ d id, s'.parentOf d id =
      if d = drive ∧ id = v then some target else s.parentOf d id)
    (hrow : s.nodes.get (drive, v) = some row) (hlive : row.trashRootId = none)
    (htarget : s.LiveDirectory drive target) : s'.TrashInvariant := by
  obtain ⟨m, hm, hkind, hmlive⟩ := htarget
  have hback : ∀ {k n'}, s'.nodes.get k = some n' → ∃ n, s.nodes.get k = some n ∧ g n = n' := by
    intro k n' hn'
    rw [hget] at hn'
    exact Option.map_eq_some_iff.mp hn'
  -- The edges are the old ones except that of the moved node.
  have hedge : ∀ {d id n' parent q'}, s'.Edge d id n' parent q' →
      (∃ n q, s.Edge d id n parent q ∧ g n = n' ∧ g q = q') ∨
      (q'.kind = .directory ∧ q'.trashRootId = none) := by
    intro d id n' parent q' he
    obtain ⟨n, hn, rfl⟩ := hback he.child
    obtain ⟨q, hq, rfl⟩ := hback he.row
    have hpointer := he.parentOf_eq
    rw [hparentOf] at hpointer
    split at hpointer
    · next hkey =>
      right
      obtain ⟨rfl, rfl⟩ := hkey
      obtain rfl := Option.some.inj hpointer
      obtain rfl := Option.some.inj (hm.symm.trans hq)
      exact ⟨(hkeep m).1.trans hkind, (hkeep m).2.trans hmlive⟩
    · left
      exact ⟨n, q, ⟨hn, (parentOf_of_get hn).symm.trans hpointer, hq⟩, rfl, rfl⟩
  refine ⟨hclosed, ?_, ?_, ?_⟩
  · intro d id n' parent q' he
    rcases hedge he with ⟨n, q, hold, -, rfl⟩ | ⟨hq, -⟩
    · exact (hkeep q).1.trans (h.directory d id n parent q hold)
    · exact hq
  · intro d id n' parent q' he hq'
    rcases hedge he with ⟨n, q, hold, rfl, rfl⟩ | ⟨-, hq⟩
    · rw [(hkeep _).2] at hq' ⊢
      exact h.inherited d id n parent q hold hq'
    · exact absurd hq hq'
  · intro d id n' root hn' hroot
    obtain ⟨n, hn, rfl⟩ := hback hn'
    rw [(hkeep _).2] at hroot
    refine (h.origin d id n root hn hroot).imp_right ?_
    rintro ⟨parent, q, he, hq⟩
    refine ⟨parent, g q, ⟨hn', ?_, ?_⟩, (hkeep q).2.trans hq⟩
    · rw [← parentOf_of_get hn', hparentOf, if_neg]
      · exact he.parentOf_eq
      · rintro ⟨rfl, rfl⟩
        obtain rfl := Option.some.inj (hrow.symm.trans hn)
        rw [hlive] at hroot
        cases hroot
    · rw [hget, he.row, Option.map_some]

/-- Nodes are created below live directories only. -/
def liveParents : Permit := { Permit.any with under := LiveDirectory }

theorem trashInvariant_edit (h : s.TrashInvariant) (hedit : Edit liveParents s s') :
    s'.TrashInvariant := by
  have hclosed := closed_edit h.closed hedit
  cases hedit with
  | generations p f hf honly =>
    exact h.update p f hf fun n => ⟨(honly n).parentId, (honly n).kind, (honly n).trashRootId⟩
  | head => exact h.update _ _ _ fun _ => ⟨rfl, rfl, rfl⟩
  | headOnly => exact h.update _ _ _ fun _ => ⟨rfl, rfl, rfl⟩
  | root _ _ _ _ hnode =>
    refine h.insert (insertNode_eq_ok hnode) hclosed rfl ?_
    intro parent hparent
    cases hparent
  | child _ _ _ _ hparent hlive hnode _ hunder =>
    refine h.insert (insertNode_eq_ok hnode) hclosed hlive ?_
    intro p hp
    rw [hparent] at hp
    rw [← Option.some.inj hp]
    exact hunder
  | move _ _ _ _ _ row _ ancestry hrow _ hlive htarget =>
      refine h.move hclosed (nodes_get_updateWhere { s with ancestry := ancestry } _ _)
        (fun n => ?_) (parentOf_setPlace ⟨row, hrow⟩) hrow hlive htarget
      split <;> exact ⟨rfl, rfl⟩
  | trash =>
    exact h.trash hclosed
  | restore _ _ _ _ hrow hparent _ hlive =>
    exact h.restore hclosed hrow hparent hlive

end Namespace

end FileBelt.Database
