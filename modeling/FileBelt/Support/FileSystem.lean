import FileBelt.Support.SparseFile
import FileBelt.Support.Table
import Mathlib.Logic.Function.Basic

/-!
# A file system with hard links

Directories map names to inodes, and several names can lead to one inode.  The calls
are those of a POSIX file system on closed sets of directories and names.  `Confined`
says what calls that work in some directories on new files leave as it was.
-/

namespace FileBelt.Support

open Function (update update_of_ne update_self)

inductive FsError
  | notFound | alreadyExists | notEmpty
  deriving DecidableEq, Repr

/-- A name in a directory and the inode it leads to. -/
structure Link (ν : Type) where
  name : ν
  inode : ℕ

abbrev Directory (ν : Type) : Type := Table (Link.name : Link ν → ν)

/-- Directories `δ`, names `ν`, blocks of `b` elements; inodes below `next` are used. -/
structure FileSystem (α : Type) [Zero α] (b : ℕ) (δ ν : Type) where
  inode : ℕ → SparseFile α b
  next : ℕ
  dir : δ → Option (Directory ν)
  created : List δ
  inode_lt : ∀ p d l, dir p = some d → l ∈ d.rows → l.inode < next
  mem_created : ∀ p d, dir p = some d → p ∈ created
  block_pos : 0 < b

namespace FileSystem

variable {α : Type} [Zero α] {b : ℕ} {δ ν : Type} [DecidableEq δ] [DecidableEq ν]
  {target target' : ν → Option ℕ}

section

omit [DecidableEq δ]

/-- The inode that a name leads to. -/
def lookup (fs : FileSystem α b δ ν) (p : δ) (x : ν) : Option ℕ :=
  (fs.dir p).bind fun d => (d.get x).map Link.inode

def file (fs : FileSystem α b δ ν) (p : δ) (x : ν) : Option (SparseFile α b) :=
  (fs.lookup p x).map fs.inode

variable {fs fs' : FileSystem α b δ ν} {p : δ} {x : ν} {i : ℕ}

theorem lookup_eq_some : fs.lookup p x = some i ↔
    ∃ d l, fs.dir p = some d ∧ d.get x = some l ∧ l.inode = i := by
  rw [lookup, Option.bind_eq_some_iff]
  constructor
  · rintro ⟨d, hd, hget⟩
    obtain ⟨l, hl, hi⟩ := Option.map_eq_some_iff.mp hget
    exact ⟨d, l, hd, hl, hi⟩
  · rintro ⟨d, l, hd, hl, hi⟩
    exact ⟨d, hd, Option.map_eq_some_iff.mpr ⟨l, hl, hi⟩⟩

theorem lookup_lt (h : fs.lookup p x = some i) : i < fs.next := by
  obtain ⟨d, l, hd, hl, rfl⟩ := lookup_eq_some.mp h
  exact fs.inode_lt p d l hd (Table.get_eq_some.mp hl).1

end

variable (fs : FileSystem α b δ ν)

def directories (kind : δ → Bool) : List δ :=
  fs.created.filter fun p => kind p && (fs.dir p).isSome

/-! ## Calls -/

variable (p : δ)

def setDir (d : Option (Directory ν))
    (hd : ∀ d' ∈ d, ∀ l ∈ d'.rows, l.inode < fs.next) : FileSystem α b δ ν where
  inode := fs.inode
  next := fs.next
  dir := update fs.dir p d
  created := fs.created.insert p
  inode_lt q d' l hq hl := by
    by_cases heq : q = p
    · subst heq
      rw [update_self] at hq
      exact hd d' hq l hl
    · rw [update_of_ne heq] at hq
      exact fs.inode_lt q d' l hq hl
  mem_created q d' hq := by
    rw [List.mem_insert_iff]
    by_cases heq : q = p
    · exact .inl heq
    · rw [update_of_ne heq] at hq
      exact .inr (fs.mem_created q d' hq)
  block_pos := fs.block_pos

def edit (i : ℕ) (f : SparseFile α b → SparseFile α b) : FileSystem α b δ ν :=
  { fs with inode := update fs.inode i (f (fs.inode i)) }

/-- Take the next inode for an empty file. -/
def allocateInode : FileSystem α b δ ν :=
  { fs with
    inode := update fs.inode fs.next SparseFile.empty
    next := fs.next + 1
    inode_lt := fun p d l hp hl => (fs.inode_lt p d l hp hl).trans (Nat.lt_succ_self _) }

/-- A name for an inode in use. -/
def addLink (x : ν) (i : ℕ) (hi : i < fs.next) : Except FsError (FileSystem α b δ ν) :=
  match hp : fs.dir p with
  | none => .error .notFound
  | some d =>
    match hins : d.insert ⟨x, i⟩ with
    | none => .error .alreadyExists
    | some d' =>
      .ok (fs.setDir p (some d') (by
        rintro d'' ⟨⟩ l hl
        rw [(Table.insert_eq_some hins).2] at hl
        rcases List.mem_append.mp hl with hold | hnew
        · exact fs.inode_lt p d l hp hold
        · rw [List.mem_singleton.mp hnew]
          exact hi))

/-- `open` with `O_CREAT | O_EXCL`; returns the inode. -/
def createNew (x : ν) (fs : FileSystem α b δ ν) : Except FsError (ℕ × FileSystem α b δ ν) :=
  match fs.allocateInode.addLink p x fs.next (Nat.lt_succ_self _) with
  | .ok fs' => .ok (fs.next, fs')
  | .error e => .error e

/-- `link`. -/
def hardLink (q : δ) (y : ν) (p : δ) (x : ν) (fs : FileSystem α b δ ν) :
    Except FsError (Unit × FileSystem α b δ ν) :=
  match hi : fs.lookup q y with
  | none => .error .notFound
  | some i =>
    match fs.addLink p x i (lookup_lt hi) with
    | .ok fs' => .ok ((), fs')
    | .error e => .error e

def unlink (x : ν) (fs : FileSystem α b δ ν) : Except FsError (Unit × FileSystem α b δ ν) :=
  match hp : fs.dir p with
  | none => .error .notFound
  | some d =>
    if (d.get x).isSome then
      .ok ((), fs.setDir p (some (d.delete fun l => l.name = x)) (by
        rintro d' ⟨⟩ l hl
        exact fs.inode_lt p d l hp (List.mem_of_mem_filter hl)))
    else .error .notFound

/-- `rename` of a file within a directory. -/
def rename (x y : ν) (fs : FileSystem α b δ ν) : Except FsError (Unit × FileSystem α b δ ν) :=
  match hp : fs.dir p with
  | none => .error .notFound
  | some d =>
    match hx : d.get x with
    | none => .error .notFound
    | some l =>
      .ok ((), fs.setDir p (some ((d.delete fun l => l.name = x).put ⟨y, l.inode⟩)) (by
        rintro d' ⟨⟩ l' hl'
        rcases Table.mem_put hl' with rfl | hold
        · exact fs.inode_lt p d l hp (Table.get_eq_some.mp hx).1
        · exact fs.inode_lt p d l' hp (List.mem_of_mem_filter hold)))

def mkdir (fs : FileSystem α b δ ν) : Except FsError (Unit × FileSystem α b δ ν) :=
  if (fs.dir p).isSome then .error .alreadyExists
  else .ok ((), fs.setDir p (some Table.empty) (by
    rintro d ⟨⟩ l hl
    exact absurd hl List.not_mem_nil))

def rmdir (fs : FileSystem α b δ ν) : Except FsError (Unit × FileSystem α b δ ν) :=
  match fs.dir p with
  | none => .error .notFound
  | some d =>
    if d.rows = [] then .ok ((), fs.setDir p none (by rintro d ⟨⟩))
    else .error .notEmpty

/-- `rename` of a directory to a name that must be free. -/
def renameDir (p q : δ) (fs : FileSystem α b δ ν) : Except FsError (Unit × FileSystem α b δ ν) :=
  match hp : fs.dir p with
  | none => .error .notFound
  | some d =>
    if (fs.dir q).isSome then .error .alreadyExists
    else
      .ok ((), (fs.setDir q (some d) (by
        rintro d' ⟨⟩ l hl
        exact fs.inode_lt p d l hp hl)).setDir p none (by rintro d ⟨⟩))

/-! ## What the calls do -/

/-- `t` is `s` where the names of directory `p` lead to `target`. -/
structure Relinked (p : δ) (target : ν → Option ℕ) (s t : FileSystem α b δ ν) : Prop where
  inode_eq : t.inode = s.inode
  next_eq : t.next = s.next
  dir_eq : ∀ q, q ≠ p → t.dir q = s.dir q
  present : (s.dir p).isSome
  present' : (t.dir p).isSome
  lookup_eq : ∀ x, t.lookup p x = target x

section

variable {s t : FileSystem α b δ ν} {p q : δ} {x y : ν} {i : ℕ} {d d' : Directory ν} {u : Unit}

theorem relinked_setDir (hp : s.dir p = some d)
    (hd : ∀ d'' ∈ some d', ∀ l ∈ d''.rows, l.inode < s.next) :
    Relinked p (fun x => (d'.get x).map Link.inode) s (s.setDir p (some d') hd) where
  inode_eq := rfl
  next_eq := rfl
  dir_eq _ hq := update_of_ne hq _ _
  present := by rw [hp]; rfl
  present' := by
    change (update s.dir p (some d') p).isSome
    rw [update_self]
    rfl
  lookup_eq x := by
    change (update s.dir p (some d') p).bind _ = _
    rw [update_self]
    rfl

omit [DecidableEq δ] in
theorem Relinked.congr (h : Relinked p target s t) (heq : ∀ x, target x = target' x) :
    Relinked p target' s t where
  inode_eq := h.inode_eq
  next_eq := h.next_eq
  dir_eq := h.dir_eq
  present := h.present
  present' := h.present'
  lookup_eq x := (h.lookup_eq x).trans (heq x)

omit [DecidableEq δ] in
theorem lookup_of_dir (hp : s.dir p = some d) (x : ν) :
    s.lookup p x = (d.get x).map Link.inode := by
  rw [lookup, hp]
  rfl

theorem addLink_ok {hi : i < s.next} (h : s.addLink p x i hi = .ok t) :
    Relinked p (fun y => if y = x then some i else s.lookup p y) s t := by
  unfold addLink at h
  split at h
  · cases h
  · next d hp =>
    split at h
    · cases h
    · next d' hins =>
      obtain rfl := Except.ok.inj h
      refine (relinked_setDir hp _).congr fun y => ?_
      rw [Table.get_insert hins, lookup_of_dir hp, apply_ite (Option.map Link.inode),
        Option.map_some]

theorem exists_addLink (hi : i < s.next) (hp : (s.dir p).isSome)
    (hx : s.lookup p x = none) : ∃ t, s.addLink p x i hi = .ok t := by
  obtain ⟨_, hd⟩ := Option.isSome_iff_exists.mp hp
  unfold addLink
  split
  · next hnone =>
    rw [hd] at hnone
    cases hnone
  · next d' hd' =>
    split
    · next hnone =>
      rw [lookup_of_dir hd'] at hx
      unfold Table.insert at hnone
      split at hnone
      · next hmem =>
        obtain ⟨_, hl, hname⟩ := List.mem_map.mp hmem
        rw [Table.get_eq_some.mpr ⟨hl, hname⟩] at hx
        cases hx
      · cases hnone
    · exact ⟨_, rfl⟩

theorem createNew_ok (h : createNew p x s = .ok (i, t)) : i = s.next ∧
    Relinked p (fun y => if y = x then some s.next else s.lookup p y) s.allocateInode t := by
  unfold createNew at h
  split at h
  · next hlink =>
    obtain ⟨rfl, rfl⟩ := Prod.mk.inj (Except.ok.inj h)
    exact ⟨rfl, addLink_ok hlink⟩
  · cases h

theorem exists_createNew (hp : (s.dir p).isSome) (hx : s.lookup p x = none) :
    ∃ t, createNew p x s = .ok (s.next, t) := by
  have hlink := exists_addLink (s := s.allocateInode) (Nat.lt_succ_self s.next) hp hx
  obtain ⟨t, ht⟩ := hlink
  exact ⟨t, by rw [createNew, ht]⟩

theorem hardLink_ok (h : hardLink q y p x s = .ok (u, t)) : ∃ i, s.lookup q y = some i ∧
      Relinked p (fun z => if z = x then some i else s.lookup p z) s t := by
  unfold hardLink at h
  split at h
  · cases h
  · next i hi =>
    split at h
    · next hlink =>
      obtain rfl := (Prod.mk.inj (Except.ok.inj h)).2
      exact ⟨i, hi, addLink_ok hlink⟩
    · cases h

theorem exists_hardLink (hq : s.lookup q y = some i) (hp : (s.dir p).isSome)
    (hx : s.lookup p x = none) : ∃ t, hardLink q y p x s = .ok ((), t) := by
  unfold hardLink
  split
  · next hnone =>
    rw [hq] at hnone
    cases hnone
  · next j hj =>
    obtain ⟨t, ht⟩ := exists_addLink (lookup_lt hj) hp hx
    exact ⟨t, by rw [ht]⟩

theorem unlink_ok (h : unlink p x s = .ok (u, t)) :
    Relinked p (fun y => if y = x then none else s.lookup p y) s t := by
  unfold unlink at h
  split at h
  · cases h
  · next d hp =>
    split at h
    · obtain rfl := (Prod.mk.inj (Except.ok.inj h)).2
      refine (relinked_setDir hp _).congr fun y => ?_
      rw [Table.get_delete_key, lookup_of_dir hp, apply_ite (Option.map Link.inode),
        Option.map_none]
    · cases h

theorem exists_unlink (hx : (s.lookup p x).isSome) : ∃ t, unlink p x s = .ok ((), t) := by
  obtain ⟨_, hi⟩ := Option.isSome_iff_exists.mp hx
  obtain ⟨_, _, hd, hl, -⟩ := lookup_eq_some.mp hi
  unfold unlink
  split
  · next hnone =>
    rw [hd] at hnone
    cases hnone
  · next d' hd' =>
    rw [hd] at hd'
    obtain rfl := Option.some.inj hd'
    rw [if_pos (by rw [hl]; rfl)]
    exact ⟨_, rfl⟩

theorem rename_ok (h : rename p x y s = .ok (u, t)) : ∃ i, s.lookup p x = some i ∧
      Relinked p (fun z => if z = y then some i else if z = x then none else s.lookup p z) s t := by
  unfold rename at h
  split at h
  · cases h
  · next d hp =>
    split at h
    · cases h
    · next l hx =>
      obtain rfl := (Prod.mk.inj (Except.ok.inj h)).2
      refine ⟨l.inode, ?_, (relinked_setDir hp _).congr fun z => ?_⟩
      · rw [lookup_of_dir hp, hx]
        rfl
      · rw [Table.get_put, Table.get_delete_key, lookup_of_dir hp,
          apply_ite (Option.map Link.inode), apply_ite (Option.map Link.inode), Option.map_none,
          Option.map_some]

theorem exists_rename (hx : s.lookup p x = some i) : ∃ t, rename p x y s = .ok ((), t) := by
  obtain ⟨_, _, hd, hl, -⟩ := lookup_eq_some.mp hx
  unfold rename
  split
  · next hnone =>
    rw [hd] at hnone
    cases hnone
  · next d' hd' =>
    rw [hd] at hd'
    obtain rfl := Option.some.inj hd'
    split
    · next hnone =>
      rw [hl] at hnone
      cases hnone
    · exact ⟨_, rfl⟩

/-- `t` is `s` with other directories `dir`. -/
structure Rearranged (dir : δ → Option (Directory ν)) (s t : FileSystem α b δ ν) : Prop where
  inode_eq : t.inode = s.inode
  next_eq : t.next = s.next
  dir_eq : t.dir = dir

omit [DecidableEq ν] in
theorem mkdir_ok (h : mkdir p s = .ok (u, t)) :
    Rearranged (update s.dir p (some Table.empty)) s t := by
  unfold mkdir at h
  split at h
  · cases h
  · obtain rfl := (Prod.mk.inj (Except.ok.inj h)).2
    exact ⟨rfl, rfl, rfl⟩

omit [DecidableEq ν] in
theorem exists_mkdir (h : s.dir p = none) : ∃ t, mkdir p s = .ok ((), t) := by
  rw [mkdir, if_neg (by rw [h]; exact Bool.false_ne_true)]
  exact ⟨_, rfl⟩

omit [DecidableEq ν] in
theorem rmdir_ok (h : rmdir p s = .ok (u, t)) : Rearranged (update s.dir p none) s t := by
  unfold rmdir at h
  split at h
  · cases h
  · split at h
    · obtain rfl := (Prod.mk.inj (Except.ok.inj h)).2
      exact ⟨rfl, rfl, rfl⟩
    · cases h

omit [DecidableEq ν] in
theorem exists_rmdir (h : s.dir p = some d) (hd : d.rows = []) : ∃ t, rmdir p s = .ok ((), t) := by
  rw [rmdir, h]
  dsimp only
  rw [if_pos hd]
  exact ⟨_, rfl⟩

omit [DecidableEq ν] in
theorem renameDir_ok (h : renameDir p q s = .ok (u, t)) : ∃ d, s.dir p = some d ∧ s.dir q = none ∧
      Rearranged (update (update s.dir q (some d)) p none) s t := by
  unfold renameDir at h
  split at h
  · cases h
  · next d hp =>
    split at h
    · cases h
    · next hq =>
      obtain rfl := (Prod.mk.inj (Except.ok.inj h)).2
      exact ⟨d, hp, Option.not_isSome_iff_eq_none.mp hq, rfl, rfl, rfl⟩

omit [DecidableEq ν] in
theorem exists_renameDir (hp : s.dir p = some d) (hq : s.dir q = none) :
    ∃ t, renameDir p q s = .ok ((), t) := by
  unfold renameDir
  split
  · next hnone =>
    rw [hp] at hnone
    cases hnone
  · rw [if_neg (by rw [hq]; exact Bool.false_ne_true)]
    exact ⟨_, rfl⟩

end

/-! ## Confined changes -/

/-- `t` is `s` with changes to the names `E` and to new inodes. -/
structure Confined (E : δ → ν → Prop) (s t : FileSystem α b δ ν) : Prop where
  next_le : s.next ≤ t.next
  inode_eq : ∀ i, i < s.next → t.inode i = s.inode i
  lookup_eq : ∀ p x, ¬E p x → t.lookup p x = s.lookup p x
  dir_eq : ∀ p, (∀ x, ¬E p x) → t.dir p = s.dir p

section

variable {E E' : δ → ν → Prop} {s t u : FileSystem α b δ ν} {p : δ} {x : ν} {i : ℕ}

omit [DecidableEq δ]

theorem Confined.refl (s : FileSystem α b δ ν) : Confined E s s where
  next_le := le_rfl
  inode_eq _ _ := rfl
  lookup_eq _ _ _ := rfl
  dir_eq _ _ := rfl

theorem Confined.trans (h : Confined E s t) (h' : Confined E t u) : Confined E s u where
  next_le := h.next_le.trans h'.next_le
  inode_eq i hi := (h'.inode_eq i (hi.trans_le h.next_le)).trans (h.inode_eq i hi)
  lookup_eq p x hp := (h'.lookup_eq p x hp).trans (h.lookup_eq p x hp)
  dir_eq p hp := (h'.dir_eq p hp).trans (h.dir_eq p hp)

theorem Confined.mono (h : Confined E s t) (hE : ∀ p x, E p x → E' p x) : Confined E' s t where
  next_le := h.next_le
  inode_eq := h.inode_eq
  lookup_eq p x hp := h.lookup_eq p x fun hx => hp (hE p x hx)
  dir_eq p hp := h.dir_eq p fun x hx => hp x (hE p x hx)

theorem Confined.file_eq (h : Confined E s t) (hp : ¬E p x) : t.file p x = s.file p x := by
  rw [file, file, h.lookup_eq p x hp]
  cases hlook : s.lookup p x with
  | none => rfl
  | some i => exact congrArg some (h.inode_eq i (lookup_lt hlook))

theorem Relinked.confined (h : Relinked p target s t) (hx : E p x)
    (htarget : ∀ y, ¬E p y → target y = s.lookup p y) : Confined E s t where
  next_le := h.next_eq.ge
  inode_eq i _ := congrFun h.inode_eq i
  lookup_eq q y hy := by
    by_cases hq : q = p
    · subst hq
      exact (h.lookup_eq y).trans (htarget y hy)
    · rw [lookup, lookup, h.dir_eq q hq]
  dir_eq q hq := by
    apply h.dir_eq q
    rintro rfl
    exact hq x hx

/-- Changes to the names of one directory, all of which may change. -/
theorem Relinked.confined_all [Nonempty ν] (h : Relinked p target s t) (hp : ∀ x, E p x) :
    Confined E s t := by
  obtain ⟨x⟩ := ‹Nonempty ν›
  exact h.confined (hp x) fun y hy => absurd (hp y) hy

theorem Rearranged.confined [Nonempty ν] {dir : δ → Option (Directory ν)} (h : Rearranged dir s t)
    (hdir : ∀ p, dir p = s.dir p ∨ ∀ x, E p x) : Confined E s t where
  next_le := h.next_eq.ge
  inode_eq i _ := congrFun h.inode_eq i
  lookup_eq p x hp := by
    rcases hdir p with hsame | hall
    · rw [lookup, lookup, h.dir_eq, hsame]
    · exact absurd (hall x) hp
  dir_eq p hp := by
    rw [h.dir_eq]
    rcases hdir p with hsame | hall
    · exact hsame
    · obtain ⟨x⟩ := ‹Nonempty ν›
      exact absurd (hall x) (hp x)

theorem confined_allocateInode : Confined E s s.allocateInode where
  next_le := Nat.le_succ _
  inode_eq _ hi := update_of_ne hi.ne _ _
  lookup_eq _ _ _ := rfl
  dir_eq _ _ := rfl

theorem Confined.edit (h : Confined E s t) (hi : s.next ≤ i)
    (f : SparseFile α b → SparseFile α b) : Confined E s (t.edit i f) where
  next_le := h.next_le
  inode_eq j hj := by
    have hne : j ≠ i := (hj.trans_le hi).ne
    exact (update_of_ne hne _ _).trans (h.inode_eq j hj)
  lookup_eq := h.lookup_eq
  dir_eq := h.dir_eq

end

end FileSystem

end FileBelt.Support
