import FileBelt.Database.Changes
import FileBelt.Support.Forest

/-!
# The ancestry table is the closure of the parent pointers

In every reachable database the `node_ancestry` rows of a drive are the ancestors of
its nodes with their distances, and the parent pointers have no cycle.  A new node is a
fresh root or leaf, a rename is a graft, and no other edit touches either.
-/

namespace FileBelt.Database

open Support

variable {k : ℕ} {f : NodeRow → NodeRow} {hf : ∀ r, NodeRow.key (f r) = NodeRow.key r}
  {p : NodeRow → Bool}

namespace Namespace

def parentOf (s : Namespace) (drive : DriveId) (id : NodeId) : Option NodeId :=
  (s.nodes.get (drive, id)).bind NodeRow.parentId

def HasNode (s : Namespace) (drive : DriveId) (id : NodeId) : Prop :=
  ∃ n, s.nodes.get (drive, id) = some n

/-- The stored closure of one drive. -/
def AncestryOf (s : Namespace) (drive : DriveId) (a d : NodeId) (k : ℕ) : Prop :=
  (⟨drive, a, d, k⟩ : AncestryRow) ∈ s.ancestry.rows

/-- Parents exist, and the stored rows are the closure of an acyclic parent
relation. -/
structure Closed (s : Namespace) : Prop where
  parent_exists : ∀ drive id parent, s.parentOf drive id = some parent → s.HasNode drive parent
  acyclic : ∀ drive, Acyclic (s.parentOf drive)
  closure : ∀ drive, IsClosure (s.parentOf drive) (s.HasNode drive) (s.AncestryOf drive)

variable {s s' : Namespace} {drive : DriveId} {id parent d a : NodeId}

theorem parentOf_of_get {n : NodeRow} (h : s.nodes.get (drive, id) = some n) :
    s.parentOf drive id = n.parentId := by
  rw [parentOf, h, Option.bind_some]

theorem parentOf_of_none (h : s.nodes.get (drive, id) = none) : s.parentOf drive id = none := by
  rw [parentOf, h, Option.bind_none]

theorem HasNode.of_parentOf (h : s.parentOf drive id = some parent) : s.HasNode drive id := by
  obtain ⟨n, hn, -⟩ := Option.bind_eq_some_iff.mp h
  exact ⟨n, hn⟩

/-! ## Edits that keep the tree -/

/-- What `Closed` says about one drive. -/
def ClosedAt (s : Namespace) (d : DriveId) : Prop :=
  (∀ id parent, s.parentOf d id = some parent → s.HasNode d parent) ∧
    Acyclic (s.parentOf d) ∧ IsClosure (s.parentOf d) (s.HasNode d) (s.AncestryOf d)

structure SameDrive (s s' : Namespace) (d : DriveId) : Prop where
  parent : ∀ id, s'.parentOf d id = s.parentOf d id
  node : ∀ id, s'.HasNode d id ↔ s.HasNode d id
  rows : ∀ a x k, s'.AncestryOf d a x k ↔ s.AncestryOf d a x k

theorem Closed.of_forall (h : ∀ d, s.ClosedAt d) : s.Closed :=
  ⟨fun d => (h d).1, fun d => (h d).2.1, fun d => (h d).2.2⟩

theorem SameDrive.closedAt (hsame : SameDrive s s' drive) (h : s.Closed) : s'.ClosedAt drive := by
  rw [ClosedAt, show s'.parentOf drive = s.parentOf drive from funext hsame.parent]
  refine ⟨fun id parent hid => ?_, h.acyclic drive, fun a x k => ?_⟩
  · exact (hsame.node parent).mpr (h.parent_exists drive id parent hid)
  · rw [hsame.rows, hsame.node]
    exact h.closure drive a x k

theorem Closed.of_drive (h : s.Closed) (hother : ∀ d, d ≠ drive → SameDrive s s' d)
    (hdrive : s'.ClosedAt drive) : s'.Closed := by
  refine .of_forall fun d => ?_
  by_cases hd : d = drive
  · exact hd ▸ hdrive
  · exact (hother d hd).closedAt h

theorem hasNode_update : (s.update p f hf).HasNode drive id ↔ s.HasNode drive id := by
  rw [HasNode, HasNode, nodes_get_update]
  cases s.nodes.get (drive, id) with
  | none => simp
  | some => simp

theorem parentOf_update (hparent : ∀ r, (f r).parentId = r.parentId) (drive : DriveId)
    (id : NodeId) :
    (s.update p f hf).parentOf drive id = s.parentOf drive id := by
  rw [parentOf, parentOf, nodes_get_update]
  cases s.nodes.get (drive, id) with
  | none => rfl
  | some n =>
    rw [Option.map_some]
    split
    · exact hparent n
    · rfl

theorem parentOf_bumpNamespaceGeneration (s : Namespace) (drive d : DriveId) (p : NodeId → Bool)
    (id : NodeId) : (s.bumpNamespaceGeneration drive p).parentOf d id = s.parentOf d id := by
  apply parentOf_update
  intro r
  rfl

theorem Closed.update (h : s.Closed) (p : NodeRow → Bool)
    (f : NodeRow → NodeRow) (hf : ∀ r, NodeRow.key (f r) = NodeRow.key r)
    (hparent : ∀ r, (f r).parentId = r.parentId) : (s.update p f hf).Closed :=
  .of_forall fun d => SameDrive.closedAt
    ⟨parentOf_update hparent d, fun _ => hasNode_update, fun _ _ _ => Iff.rfl⟩ h

/-! ## New nodes -/

section

variable {s inserted : Namespace} {row : NodeRow} {drive : DriveId}
  {id parent : NodeId} {ancestry : Table AncestryRow.key}

section

variable (h : NodeInserted s row inserted)
include h

theorem NodeInserted.get_other (hne : (drive, id) ≠ row.key) :
    inserted.nodes.get (drive, id) = s.nodes.get (drive, id) := by
  rw [h.get, if_neg hne]

theorem NodeInserted.get_self : inserted.nodes.get (row.driveId, row.id) = some row := by
  rw [h.get]
  exact if_pos rfl

theorem NodeInserted.hasNode_iff :
    inserted.HasNode drive id ↔ s.HasNode drive id ∨ (drive = row.driveId ∧ id = row.id) := by
  by_cases hkey : (drive, id) = row.key
  · obtain ⟨rfl, rfl⟩ := Prod.mk.inj hkey
    exact ⟨fun _ => .inr ⟨rfl, rfl⟩, fun _ => ⟨row, h.get_self⟩⟩
  · rw [HasNode, h.get_other hkey]
    constructor
    · exact .inl
    · rintro (hnode | ⟨rfl, rfl⟩)
      · exact hnode
      · exact absurd rfl hkey

/-- The drive of a new node changes by the pointer of that node, the other
drives not at all. -/
theorem NodeInserted.parentOf_eq (drive : DriveId) (id : NodeId) : inserted.parentOf drive id =
      if drive = row.driveId ∧ id = row.id then row.parentId else s.parentOf drive id := by
  split
  · next hkey =>
    obtain ⟨rfl, rfl⟩ := hkey
    exact parentOf_of_get h.get_self
  · next hkey =>
    rw [parentOf, parentOf, h.get_other]
    exact fun heq => hkey (Prod.mk.inj heq)

theorem NodeInserted.not_hasNode : ¬s.HasNode row.driveId row.id := by
  rintro ⟨_, hn⟩
  have hfresh := h.fresh
  rw [NodeRow.key, hn] at hfresh
  cases hfresh

end

theorem NodeInserted.other {rows : List AncestryRow} (h : NodeInserted s row inserted)
    (hrows : ancestry.rows = s.ancestry.rows ++ rows) (hdrive : ∀ r ∈ rows, r.driveId = row.driveId)
    (d : DriveId) (hd : d ≠ row.driveId) :
    SameDrive s { inserted with ancestry := ancestry } d := by
  refine ⟨fun id => ?_, fun id => ?_, fun a x k => ?_⟩
  · exact (h.parentOf_eq d id).trans (if_neg fun hkey => hd hkey.1)
  · exact h.hasNode_iff.trans (or_iff_left fun hkey => hd hkey.1)
  · rw [AncestryOf, hrows, List.mem_append]
    exact or_iff_left fun hr => hd (hdrive _ hr)

theorem closed_root (h : s.Closed) (hinserted : NodeInserted s row inserted)
    (hparent : row.parentId = none)
    (hrows : ancestry.rows = s.ancestry.rows ++ [⟨row.driveId, row.id, row.id, 0⟩]) :
    { inserted with ancestry := ancestry }.Closed := by
  have hnone : s.parentOf row.driveId row.id = none := parentOf_of_none hinserted.fresh
  have hsame : { inserted with ancestry := ancestry }.parentOf row.driveId =
      s.parentOf row.driveId := by
    funext id
    refine (hinserted.parentOf_eq row.driveId id).trans ?_
    split
    · next hkey => rw [hkey.2, hparent, hnone]
    · rfl
  refine h.of_drive (hinserted.other hrows (by simp)) ⟨?_, ?_, ?_⟩
  · intro id parent hid
    rw [hsame] at hid
    exact hinserted.hasNode_iff.mpr (.inl (h.parent_exists row.driveId id parent hid))
  · rw [hsame]
    exact h.acyclic row.driveId
  · intro a d k
    have hclosure := isClosure_rootRows (h.closure row.driveId) hinserted.not_hasNode hnone a d k
    have hnode : { inserted with ancestry := ancestry }.HasNode row.driveId d ↔ _ :=
      hinserted.hasNode_iff
    rw [rootRows] at hclosure
    rw [hsame, hnode, AncestryOf, hrows]
    simpa [AncestryOf] using hclosure

theorem mem_childRows : (⟨drive, a, d, k⟩ : AncestryRow) ∈ childRows ancestry drive parent id ↔
      (d = id ∧ ∃ j, (⟨drive, a, parent, j⟩ : AncestryRow) ∈ ancestry.rows ∧
        k = j + 1) ∨ (a = id ∧ d = id ∧ k = 0) := by
  rw [childRows, List.mem_append, List.mem_singleton, List.mem_map]
  constructor
  · rintro (⟨r, hr, heq⟩ | heq)
    · obtain ⟨hmem, hr⟩ := List.mem_filter.mp hr
      obtain ⟨hdrive, hdescendant⟩ := of_decide_eq_true hr
      obtain ⟨-, rfl, rfl, rfl⟩ := AncestryRow.mk.inj heq
      refine .inl ⟨rfl, r.depth, ?_, rfl⟩
      rw [← hdrive, ← hdescendant]
      exact hmem
    · obtain ⟨-, rfl, rfl, rfl⟩ := AncestryRow.mk.inj heq
      exact .inr ⟨rfl, rfl, rfl⟩
  · rintro (⟨rfl, _, hmem, rfl⟩ | ⟨rfl, rfl, rfl⟩)
    · exact .inl ⟨_, List.mem_filter.mpr ⟨hmem, by simp⟩, rfl⟩
    · exact .inr rfl

theorem childRows_drive : ∀ r ∈ childRows ancestry drive parent id, r.driveId = drive := by
  intro r hr
  rw [childRows, List.mem_append, List.mem_singleton, List.mem_map] at hr
  rcases hr with ⟨_, hr', rfl⟩ | rfl
  · exact (of_decide_eq_true (List.mem_filter.mp hr').2).1
  · rfl

theorem closed_child (h : s.Closed) (hinserted : NodeInserted s row inserted)
    (hparent : row.parentId = some parent)
    (hrows : ancestry.rows = s.ancestry.rows ++ childRows s.ancestry row.driveId parent row.id) :
    { inserted with ancestry := ancestry }.Closed := by
  have hparentExists : s.HasNode row.driveId parent := hinserted.parent parent hparent
  have hsame : { inserted with ancestry := ancestry }.parentOf row.driveId =
      graft (s.parentOf row.driveId) row.id parent := by
    refine eq_graft fun id => (hinserted.parentOf_eq row.driveId id).trans ?_
    simp [hparent]
  -- The new node is fresh, so it is no ancestor of its parent.
  have hclosed : ∀ x, s.HasNode row.driveId x → ∀ y,
      s.parentOf row.driveId x = some y → s.HasNode row.driveId y :=
    fun x _ y hy => h.parent_exists row.driveId x y hy
  have houtside : ∀ k, ancestorAt (s.parentOf row.driveId) k parent ≠ some row.id :=
    fun k hk => hinserted.not_hasNode (dom_of_ancestorAt hclosed hparentExists hk)
  refine h.of_drive (hinserted.other hrows childRows_drive) ⟨?_, ?_, ?_⟩
  · intro id p hid
    refine hinserted.hasNode_iff.mpr (.inl ?_)
    rw [hsame] at hid
    exact parent_graft hparentExists (h.parent_exists row.driveId) hid
  · rw [hsame]
    exact acyclic_graft (h.acyclic row.driveId) houtside
  · intro a d k
    have hclosure := isClosure_leafRows (h.closure row.driveId)
      hinserted.not_hasNode hparentExists hclosed a d k
    have hnode : { inserted with ancestry := ancestry }.HasNode row.driveId d ↔ _ :=
      hinserted.hasNode_iff
    rw [hsame, hnode, AncestryOf, hrows, List.mem_append, mem_childRows]
    simpa [leafRows, AncestryOf] using hclosure

end

/-! ## Renames -/

section

variable {s : Namespace} {drive : DriveId} {v target : NodeId} {ancestry : Table AncestryRow.key}

theorem hasNode_of_below {root id : NodeId} (h : s.Closed) : s.below drive root id ↔
      s.HasNode drive id ∧ ∃ k, ancestorAt (s.parentOf drive) k id = some root := by
  rw [below_iff]
  constructor
  · rintro ⟨k, hrow⟩
    obtain ⟨hnode, hat⟩ := (h.closure drive root id k).mp hrow
    exact ⟨hnode, k, hat⟩
  · rintro ⟨hnode, k, hat⟩
    exact ⟨k, (h.closure drive root id k).mpr ⟨hnode, hat⟩⟩

theorem parentOf_setPlace {displayName nameKey : String}
    (hv : s.HasNode drive v) (d : DriveId) (id : NodeId) :
    ({ s with ancestry := ancestry }.setPlace drive v target displayName nameKey).parentOf d id =
        if d = drive ∧ id = v then some target else s.parentOf d id := by
  refine (congrArg (Option.bind · _) (nodes_get_updateWhere _ _ _ _)).trans ?_
  rw [parentOf]
  cases hget : s.nodes.get (d, id) with
  | none =>
    rw [if_neg]
    · rfl
    · rintro ⟨rfl, rfl⟩
      obtain ⟨n, hn⟩ := hv
      rw [hn] at hget
      cases hget
  | some n =>
    have hkey : NodeRow.key n = (d, id) := Table.get_key hget
    obtain ⟨hdrive, hid⟩ := Prod.mk.inj hkey
    rw [Option.map_some, Option.bind_some, Option.bind_some, hdrive, hid]
    by_cases hkey : d = drive ∧ id = v
    · rw [if_pos hkey, if_pos hkey]
    · rw [if_neg hkey, if_neg hkey]

theorem leavesSubtree_iff : leavesSubtree ancestry drive v ⟨drive, a, d, k⟩ ↔
      (∃ j, (⟨drive, a, v, j⟩ : AncestryRow) ∈ ancestry.rows ∧ a ≠ v) ∧
        ∃ j, (⟨drive, v, d, j⟩ : AncestryRow) ∈ ancestry.rows := by
  simp only [leavesSubtree, decide_eq_true_eq, List.any_eq_true, true_and]
  constructor
  · rintro ⟨⟨r, hr, hdrive, hdesc, hne, rfl⟩, r', hr', hdrive', hanc, rfl⟩
    refine ⟨⟨r.depth, ?_, hne⟩, r'.depth, ?_⟩
    · rw [← hdrive, ← hdesc]
      exact hr
    · rw [← hdrive', ← hanc]
      exact hr'
  · rintro ⟨⟨_, hj, hne⟩, _, hj'⟩
    exact ⟨⟨_, hj, rfl, rfl, hne, rfl⟩, _, hj', rfl, rfl, rfl⟩

theorem mem_graftedRows : (⟨drive, a, d, k⟩ : AncestryRow) ∈ graftedRows ancestry drive v target ↔
      ∃ i j, (⟨drive, a, target, i⟩ : AncestryRow) ∈ ancestry.rows ∧
        (⟨drive, v, d, j⟩ : AncestryRow) ∈ ancestry.rows ∧ k = i + 1 + j := by
  simp only [graftedRows, List.mem_flatMap, List.mem_map, List.mem_filter, decide_eq_true_eq]
  constructor
  · rintro ⟨path, ⟨hpath, hdrive, hdesc⟩, below, ⟨hbelow, hdrive', hanc⟩, heq⟩
    obtain ⟨-, rfl, rfl, rfl⟩ := AncestryRow.mk.inj heq
    refine ⟨path.depth, below.depth, ?_, ?_, rfl⟩
    · rw [← hdrive, ← hdesc]
      exact hpath
    · rw [← hdrive', ← hanc]
      exact hbelow
  · rintro ⟨_, _, hi, hj, rfl⟩
    exact ⟨_, ⟨hi, rfl, rfl⟩, _, ⟨hj, rfl, rfl⟩, rfl⟩

theorem graftedRows_drive : ∀ r ∈ graftedRows ancestry drive v target, r.driveId = drive := by
  intro r hr
  simp only [graftedRows, List.mem_flatMap, List.mem_map] at hr
  obtain ⟨_, -, _, -, rfl⟩ := hr
  rfl

/-- The ancestry statements of a rename compute the moved rows. -/
theorem moveAncestry_eq_ok
    (h : moveAncestry s.ancestry drive v target = .ok ancestry) (a d : NodeId) (k : ℕ) :
    (⟨drive, a, d, k⟩ : AncestryRow) ∈ ancestry.rows ↔
      movedRows (s.AncestryOf drive) v target a d k := by
  have hcut : ∀ a d k, (⟨drive, a, d, k⟩ : AncestryRow) ∈
      (s.ancestry.delete (leavesSubtree s.ancestry drive v)).rows ↔
        cutRows (s.AncestryOf drive) v a d k := by
    intro a d k
    change _ ∈ s.ancestry.rows.filter _ ↔ _
    rw [List.mem_filter, Bool.not_eq_true', ← Bool.not_eq_true, leavesSubtree_iff]
    rfl
  rw [insertAncestry_eq_ok h, List.mem_append, mem_graftedRows, movedRows]
  simp only [hcut]

theorem moveAncestry_other (h : moveAncestry s.ancestry drive v target = .ok ancestry)
    {r : AncestryRow} (hr : r.driveId ≠ drive) : r ∈ ancestry.rows ↔ r ∈ s.ancestry.rows := by
  rw [insertAncestry_eq_ok h, List.mem_append]
  change r ∈ s.ancestry.rows.filter _ ∨ _ ↔ _
  rw [List.mem_filter]
  constructor
  · rintro (⟨hmem, -⟩ | hmem)
    · exact hmem
    · exact absurd (graftedRows_drive r hmem) hr
  · intro hmem
    exact .inl ⟨hmem, by simp [leavesSubtree, hr]⟩

theorem closed_move (h : s.Closed) (hv : s.HasNode drive v) (htarget : s.HasNode drive target)
    (houtside : ∀ k, ancestorAt (s.parentOf drive) k target ≠ some v)
    (hmove : moveAncestry s.ancestry drive v target = .ok ancestry) (displayName nameKey : String) :
    ({ s with ancestry := ancestry }.setPlace drive v target displayName nameKey).Closed := by
  have hparentOf : ∀ d id, ({ s with ancestry := ancestry }.setPlace drive v
      target displayName nameKey).parentOf d id =
        if d = drive ∧ id = v then some target else s.parentOf d id :=
    parentOf_setPlace hv
  have hsame : ({ s with ancestry := ancestry }.setPlace drive v target
      displayName nameKey).parentOf drive = graft (s.parentOf drive) v target :=
    eq_graft fun id => (hparentOf drive id).trans (by simp)
  refine h.of_drive (fun d (hd : d ≠ drive) => ⟨fun id => ?_, fun _ => hasNode_update, ?_⟩)
    ⟨?_, ?_, ?_⟩
  · rw [hparentOf, if_neg (fun hkey => hd hkey.1)]
  · exact fun _ _ _ => moveAncestry_other hmove hd
  · intro id p hid
    rw [hsame] at hid
    exact hasNode_update.mpr (parent_graft htarget (h.parent_exists drive) hid)
  · rw [hsame]
    exact acyclic_graft (h.acyclic drive) houtside
  · intro a x k
    rw [hsame]
    exact (moveAncestry_eq_ok hmove a x k).trans
      ((isClosure_movedRows (h.closure drive) (h.acyclic drive) hv htarget houtside a x k).trans
        (and_congr_left' hasNode_update.symm))

theorem closed_rename (h : s.Closed) (hv : s.parentOf drive v = some target)
    (displayName nameKey : String) : (s.setPlace drive v target displayName nameKey).Closed := by
  refine .of_forall fun d => SameDrive.closedAt
    ⟨fun id => ?_, fun _ => hasNode_update, fun _ _ _ => Iff.rfl⟩ h
  refine (parentOf_setPlace (HasNode.of_parentOf hv) d id).trans ?_
  split
  · next hkey => rw [hkey.1, hkey.2, hv]
  · rfl

end

/-! ## Every edit, every run -/

theorem closed_empty : State.empty.space.Closed := by
  refine ⟨?_, ?_, ?_⟩
  · intro drive id parent h
    cases h
  · intro drive k x h
    cases h
  · intro drive a d k
    constructor
    · intro h
      cases h
    · rintro ⟨⟨_, hn⟩, -⟩
      cases hn

theorem closed_edit {permit : Permit} (h : s.Closed) (hedit : Edit permit s s') : s'.Closed := by
  cases hedit with
  | generations p f hf honly =>
    exact h.update p f hf fun n => (honly n).parentId
  | head => exact h.update _ _ _ fun _ => rfl
  | headOnly => exact h.update _ _ _ fun _ => rfl
  | root _ _ _ _ hnode hancestry =>
    have hinserted := insertNode_eq_ok hnode
    refine closed_root h hinserted rfl ?_
    rw [insertAncestry_eq_ok hancestry, hinserted.ancestry]
    rfl
  | child _ _ _ _ hparent _ hnode hancestry =>
    have hinserted := insertNode_eq_ok hnode
    refine closed_child h hinserted hparent ?_
    rw [insertAncestry_eq_ok hancestry, hinserted.ancestry]
  | move _ _ _ _ _ row _ _ hrow hold _ htarget hbelow hancestry =>
      obtain ⟨n, hn, -⟩ := htarget
      rcases hancestry with ⟨rfl, rfl⟩ | ⟨-, hmove⟩
      · exact closed_rename h ((parentOf_of_get hrow).trans hold) _ _
      · refine closed_move h ⟨row, hrow⟩ ⟨n, hn⟩ ?_ hmove _ _
        intro k hk
        have htrue := (hasNode_of_below h).mpr ⟨⟨n, hn⟩, k, hk⟩
        rw [hbelow] at htrue
        cases htrue
  | trash =>
    exact h.update _ _ _ fun _ => rfl
  | restore =>
    exact h.update _ _ _ fun _ => rfl

end Namespace

variable {db db' : State} {request : NfsRename}

theorem closed_step {op : Operation} (h : db.space.Closed)
    (hstep : step db op = .ok db') : db'.space.Closed :=
  edits_invariant (fun _ _ => Namespace.closed_edit) h
    (step_edits (fun _ _ _ _ => trivial) (permitted_any db op) hstep)

theorem closed_reached (ops : List Operation) : (reached ops).space.Closed := by
  refine run_invariant (I := fun db => db.space.Closed) ?_
    Namespace.closed_empty (meets_true State.empty ops)
  intro db op db' h _ hstep
  exact closed_step h hstep

/-! ## Exactness -/

/-- The rows after a rename of `v` below `target`: those from before outside the subtree
and inside it, and above it the rows of the target. -/
def Namespace.RenamedRow (s : Namespace) (drive : DriveId) (v target a d : NodeId) (k : ℕ) : Prop :=
  ((∀ depth, ¬s.AncestryOf drive v d depth) ∧ s.AncestryOf drive a d k) ∨
    ∃ depth, s.AncestryOf drive v d depth ∧
      ((k ≤ depth ∧ s.AncestryOf drive a d k) ∨
        ∃ i, s.AncestryOf drive a target i ∧ k = depth + (i + 1))

section Renamed

variable (h : nfsRename db request = .ok db')
include h

theorem parentOf_renamed : db'.space.parentOf request.drive =
    graft (db.space.parentOf request.drive) request.node request.targetParent := by
  obtain ⟨-, -, row, _, hrow, -, -, -, hspace⟩ := (nfsRename_eq_ok h).1
  refine eq_graft fun id => ?_
  rw [hspace]
  rw [Namespace.parentOf_bumpNamespaceGeneration, Namespace.parentOf_setPlace ⟨row, hrow⟩]
  simp

theorem hasNode_renamed (drive : DriveId) (id : NodeId) :
    db'.space.HasNode drive id ↔ db.space.HasNode drive id := by
  obtain ⟨-, -, _, _, -, -, -, -, hspace⟩ := (nfsRename_eq_ok h).1
  rw [hspace]
  exact Namespace.hasNode_update.trans Namespace.hasNode_update

variable (hclosed : db.space.Closed)
include hclosed

/-- A rename below a node of the moved subtree is refused. -/
theorem nfsRename_outside (k : ℕ) :
    ancestorAt (db.space.parentOf request.drive) k request.targetParent ≠ some request.node := by
  obtain ⟨hbelow, ⟨n, hn, -⟩, -⟩ := (nfsRename_eq_ok h).1
  intro hk
  have htrue := (Namespace.hasNode_of_below hclosed).mpr ⟨⟨n, hn⟩, k, hk⟩
  rw [hbelow] at htrue
  cases htrue

theorem closed_renamed : db'.space.Closed := by
  have hstep : step db (.nfsRename request) = .ok db' := h
  exact closed_step hclosed hstep

/-- A successful rename moves all and only the ancestor rows of the subtree. -/
theorem ancestryOf_renamed (a d : NodeId) (k : ℕ) : db'.space.AncestryOf request.drive a d k ↔
    db.space.RenamedRow request.drive request.node request.targetParent a d k := by
  have hbefore := hclosed.closure request.drive
  have houtside := nfsRename_outside h hclosed
  have hacyclic := hclosed.acyclic request.drive
  have hafter : db'.space.AncestryOf request.drive a d k ↔ db.space.HasNode request.drive d ∧
        ancestorAt (graft (db.space.parentOf request.drive) request.node
          request.targetParent) k d = some a := by
    rw [← parentOf_renamed h, ← hasNode_renamed h]
    exact (closed_renamed h hclosed).closure request.drive a d k
  have htarget : db.space.HasNode request.drive request.targetParent := by
    obtain ⟨-, ⟨n, hn, -⟩, -⟩ := (nfsRename_eq_ok h).1
    exact ⟨n, hn⟩
  rw [hafter]
  by_cases hinside : ∃ depth, db.space.AncestryOf request.drive request.node d depth
  · obtain ⟨depth, hdepth⟩ := hinside
    obtain ⟨hd, hat⟩ := (hbefore _ _ _).mp hdepth
    constructor
    · rintro ⟨-, hk⟩
      refine .inr ⟨depth, hdepth, ?_⟩
      by_cases hle : k ≤ depth
      · rw [ancestorAt_graft_of_le hacyclic hat hle] at hk
        exact .inl ⟨hle, (hbefore _ _ _).mpr ⟨hd, hk⟩⟩
      · obtain ⟨i, rfl⟩ : ∃ i, k = depth + (i + 1) := ⟨k - depth - 1, by omega⟩
        rw [ancestorAt_graft_above hacyclic houtside hat] at hk
        exact .inr ⟨i, (hbefore _ _ _).mpr ⟨htarget, hk⟩, rfl⟩
    · rintro (⟨hnone, -⟩ | ⟨_, hdepth', hrow⟩)
      · exact absurd hdepth (hnone depth)
      · have hat' := ((hbefore _ _ _).mp hdepth').2
        refine ⟨hd, ?_⟩
        rcases hrow with ⟨hle, hrow⟩ | ⟨_, hrow, rfl⟩
        · rw [ancestorAt_graft_of_le hacyclic hat' hle]
          exact ((hbefore _ _ _).mp hrow).2
        · rw [ancestorAt_graft_above hacyclic houtside hat']
          exact ((hbefore _ _ _).mp hrow).2
  · have hbelow : db.space.HasNode request.drive d → ∀ j,
        ancestorAt (db.space.parentOf request.drive) j d ≠ some request.node :=
      fun hd j hj => hinside ⟨j, (hbefore _ _ _).mpr ⟨hd, hj⟩⟩
    constructor
    · rintro ⟨hd, hk⟩
      rw [ancestorAt_graft_of_not_below k (hbelow hd)] at hk
      exact .inl ⟨fun depth hdepth => hinside ⟨depth, hdepth⟩, (hbefore _ _ _).mpr ⟨hd, hk⟩⟩
    · rintro (⟨-, hrow⟩ | ⟨depth, hdepth, -⟩)
      · obtain ⟨hd, hk⟩ := (hbefore _ _ _).mp hrow
        refine ⟨hd, ?_⟩
        rw [ancestorAt_graft_of_not_below k (hbelow hd)]
        exact hk
      · exact absurd ⟨depth, hdepth⟩ hinside

end Renamed

/-- In every reachable database the ancestry rows of each drive are the
reflexive-transitive closure of `parent_id` with path lengths, the parent
relation is acyclic, a rename below the renamed node is refused, and a
successful rename moves all and only the ancestor rows of the subtree. -/
theorem ancestry_exact (ops : List Operation) (drive : DriveId) :
    (∀ a d k, (reached ops).space.AncestryOf drive a d k ↔
      (reached ops).space.HasNode drive d ∧
        ancestorAt ((reached ops).space.parentOf drive) k d = some a) ∧
    Acyclic ((reached ops).space.parentOf drive) ∧
    (∀ request : NfsRename, request.drive = drive →
      (∃ k, ancestorAt ((reached ops).space.parentOf drive) k
        request.targetParent = some request.node) →
      ∃ error, nfsRename (reached ops) request = .error error) ∧
    ∀ (request : NfsRename) (db' : State), request.drive = drive →
      nfsRename (reached ops) request = .ok db' → ∀ a d k,
        db'.space.AncestryOf drive a d k ↔
          (reached ops).space.RenamedRow drive request.node
            request.targetParent a d k := by
  have hclosed := closed_reached ops
  refine ⟨hclosed.closure drive, hclosed.acyclic drive, ?_, ?_⟩
  · rintro request rfl ⟨k, hk⟩
    cases hresult : nfsRename (reached ops) request with
    | error error => exact ⟨error, rfl⟩
    | ok => exact absurd hk (nfsRename_outside hresult hclosed k)
  · rintro request db' rfl hresult a d k
    exact ancestryOf_renamed hresult hclosed a d k

/-- A private drive with two directories and a file in the first. -/
def renameRun : List Operation :=
  let mount : MountSession :=
    { userPrincipalId := 1, membershipGeneration := 1, admitted := true }
  [.linkOidcIdentity
      { principalId := 1, userId := 2, verifiedEmail := none, driveId := 3,
        rootId := 4 },
    .nfsCreate
      { mount := mount, drive := 3, parent := 4, id := 10, kind := .directory,
        displayName := "a", nameKey := "a", symlinkTarget := none,
        generations := ⟨1, 1, 1, 1, 1⟩ },
    .nfsCreate
      { mount := mount, drive := 3, parent := 4, id := 11, kind := .directory,
        displayName := "b", nameKey := "b", symlinkTarget := none,
        generations := ⟨1, 1, 2, 1, 2⟩ },
    .nfsCreate
      { mount := mount, drive := 3, parent := 10, id := 12, kind := .file,
        displayName := "c", nameKey := "c", symlinkTarget := none,
        generations := ⟨1, 1, 3, 1, 1⟩ }]

/-- The first directory of `renameRun` moved into the second. -/
def renameRequest : NfsRename where
  mount := { userPrincipalId := 1, membershipGeneration := 1, admitted := true }
  drive := 3
  node := 10
  oldParent := 4
  targetParent := 11
  displayName := "a"
  nameKey := "a"
  generations := ⟨1, 1, 4, 1, 2⟩
  targetAclGeneration := 1
  targetNamespaceGeneration := 1
  oldParentAclGeneration := 1
  oldParentNamespaceGeneration := 3

/-- The rename succeeds, and the file is then two steps below the second
directory. -/
theorem ancestry_exact_renameRun :
    ∃ db', nfsRename (reached renameRun) renameRequest = .ok db' ∧
      db'.space.AncestryOf 3 11 12 2 := by
  have hok : (nfsRename (reached renameRun) renameRequest).toBool := by
    decide +kernel
  have hfile : (⟨3, 10, 12, 1⟩ : AncestryRow) ∈
      (reached renameRun).space.ancestry.rows := by decide +kernel
  have htarget : (⟨3, 11, 11, 0⟩ : AncestryRow) ∈
      (reached renameRun).space.ancestry.rows := by decide +kernel
  cases hresult : nfsRename (reached renameRun) renameRequest with
  | error =>
    rw [hresult] at hok
    cases hok
  | ok db' =>
    refine ⟨db', rfl, ?_⟩
    obtain ⟨-, -, -, hrows⟩ := ancestry_exact renameRun 3
    exact (hrows renameRequest db' rfl hresult 11 12 2).mpr
      (.inr ⟨1, hfile, .inr ⟨0, htarget, rfl⟩⟩)

end FileBelt.Database
