import FileBelt.Cow.Frame
import FileBelt.Support.FileChunks

/-!
# Chunk files stand for one file

The chunk files of a session stand for one sparse file, cut at the multiples of the
chunk size.  `replace_chunk` exchanges one chunk by a rename, so every state on the
way stands for the file before or after the exchange.
-/

namespace FileBelt.Cow

open Support Support.Proc Support.FileSystem

variable {chunkSize b i c : ℕ} {edits : List FileEdit} {g : SparseFile UInt8 c}
  {f : SparseFile UInt8 b}

section

variable (h : validateChunkSize chunkSize = .ok ())
include h

theorem validateChunkSize_eq_ok : minChunkSize ≤ chunkSize ∧ chunkSize ≤ maxChunkSize := by
  unfold validateChunkSize at h
  split at h
  · next hcond => exact ⟨hcond.1, hcond.2.1⟩
  · cases h

theorem pos_of_validate : 0 < chunkSize :=
  Nat.lt_of_lt_of_le (by decide) (validateChunkSize_eq_ok h).1

theorem limit_lt : maxChunkCount * chunkSize < 2 ^ 64 :=
  Nat.lt_of_le_of_lt (Nat.mul_le_mul_left _ (validateChunkSize_eq_ok h).2) (by decide)

end

/-! ## Files and their abstractions -/

/-- A relation between files that the calls on files keep. -/
structure Simulation {b c : ℕ} (R : SparseFile UInt8 b → SparseFile UInt8 c → Prop) : Prop where
  size_eq : ∀ {f g}, R f g → f.size = g.size
  empty : R SparseFile.empty SparseFile.empty
  apply : ∀ {f g}, R f g → ∀ edit : FileEdit, R (edit.apply f) (edit.apply g)

/-- The same bytes, whatever blocks are allocated. -/
def SameBytes {b c : ℕ} (f : SparseFile UInt8 b) (g : SparseFile UInt8 c) : Prop :=
  f.size = g.size ∧ f.content = g.content

theorem SameBytes.setLen (h : SameBytes f g) (n : ℕ) : SameBytes (f.setLen n) (g.setLen n) := by
  refine ⟨rfl, funext fun x => ?_⟩
  change (if x < n then f.content x else 0) = if x < n then g.content x else 0
  rw [h.2]

theorem simulation_sameBytes (b c : ℕ) :
    Simulation (SameBytes : SparseFile UInt8 b → SparseFile UInt8 c → Prop) where
  size_eq h := h.1
  empty := ⟨rfl, rfl⟩
  apply {f g} h edit := by
    cases edit with
    | setLen size => exact h.setLen size
    | pad size =>
      change SameBytes (f.padTo size) (g.padTo size)
      rw [SparseFile.padTo, SparseFile.padTo, h.1]
      split
      · exact h.setLen size
      · exact h
    | write =>
      refine ⟨?_, funext fun x => ?_⟩
      · change (if _ then f.size else max f.size _) = if _ then g.size else max g.size _
        rw [h.1]
      · change (if _ then _ else f.content x) = if _ then _ else g.content x
        rw [h.2]
    | allocate =>
      refine ⟨?_, h.2⟩
      change (if _ then f.size else max f.size _) = if _ then g.size else max g.size _
      rw [h.1]
    | punch =>
      refine ⟨h.1, funext fun x => ?_⟩
      change (if _ then 0 else f.content x) = if _ then 0 else g.content x
      rw [h.2]

theorem Simulation.applyAll {R : SparseFile UInt8 b → SparseFile UInt8 c → Prop} (hR : Simulation R)
    (h : R f g) (edits : List FileEdit) :
    R (edits.foldl FileEdit.apply f) (edits.foldl FileEdit.apply g) := by
  induction edits generalizing f g with
  | nil => exact h
  | cons edit rest ih => exact ih (hR.apply h edit)

theorem copySparseFile_empty (hb : 0 < b) (source : SparseFile UInt8 b) :
    (copySparseFile source).foldl FileEdit.apply SparseFile.empty = source := by
  have hstart : SparseFile.empty.setLen source.size = source.upTo 0 := by
    refine SparseFile.ext rfl (funext fun x => ?_) (funext fun k => ?_)
    · rw [SparseFile.upTo_content (Nat.zero_le _)]
      exact ite_self 0
    · rw [SparseFile.upTo_data (Nat.zero_le _)]
      exact (Bool.and_false _).symm
  rw [copySparseFile, List.foldl_cons, List.foldl_map]
  change List.foldl (SparseFile.copyRange source) (SparseFile.empty.setLen source.size)
    _ = source
  rw [hstart]
  exact SparseFile.foldl_copyRange_dataRuns hb bufferSize (by decide) (Nat.zero_le _)

/-! ## The file of a session -/

variable {b c chunkSize n : ℕ} {R : SparseFile UInt8 b → SparseFile UInt8 c → Prop}
  {session operation : Uuid} {hc : c ∣ chunkSize} {file file' : SparseFile UInt8 c}
  {s t : Disk b} {content : SparseFile UInt8 b} {u : Disk b}

/-- The chunk files stand for `file`, and recovery knows every name of the directory. -/
structure Stands (R : SparseFile UInt8 b → SparseFile UInt8 c → Prop) (session : Uuid)
    (chunkSize : ℕ) (hc : c ∣ chunkSize) (file : SparseFile UInt8 c) (disk : Disk b) : Prop where
  present : (disk.dir (.cow session)).isSome
  chunk : ∀ n f, disk.file (.cow session) (.part n) = some f →
    n * chunkSize < file.size ∧ R f (file.chunk chunkSize hc n)
  missing : ∀ n, disk.file (.cow session) (.part n) = none → file.size ≤ n * chunkSize
  named : ∀ x, (disk.lookup (.cow session) x).isSome → ∃ n, parseCowEntryName x = .ok n

def ChunkNames (place : Place) (disk : Disk b) : Prop :=
  ∀ x, (disk.lookup place x).isSome → ∃ n, parseCowChunkName x = .ok n

abbrev Clean (session : Uuid) (disk : Disk b) : Prop := ChunkNames (.cow session) disk

/-- Changes to the session directory and to new files only. -/
abbrev OnlyCow (session : Uuid) (s t : Disk b) : Prop :=
  Confined (fun place _ => place = Place.cow session) s t

/-- `file'` is `file` with chunk `n` changed by `edits`. -/
structure Exchanged (chunkSize : ℕ) (hc : c ∣ chunkSize) (n : ℕ) (edits : List FileEdit)
    (file file' : SparseFile UInt8 c) : Prop where
  chunk : file'.chunk chunkSize hc n = edits.foldl FileEdit.apply (file.chunk chunkSize hc n)
  size : n * chunkSize < file'.size
  other : ∀ j, j ≠ n → file'.chunk chunkSize hc j = file.chunk chunkSize hc j
  size_other : ∀ j, j ≠ n → (j * chunkSize < file'.size ↔ j * chunkSize < file.size)

theorem parse_part (hn : n < maxChunkCount) : parseCowChunkName (.part n) = .ok n := if_pos hn

theorem parse_writing (hn : n < maxChunkCount) (operation : Uuid) :
    parseCowEntryName (.writing n operation) = .ok n :=
  parse_part hn

theorem parse_entry {x : EntryName} (h : parseCowChunkName x = .ok n) :
    parseCowEntryName x = .ok n := by
  rw [parseCowEntryName, h]

/-- The temporary file is being written, under a name that was free. -/
structure Writing (session operation : Uuid) (n : ℕ) (s : Disk b)
    (content : SparseFile UInt8 b) (t : Disk b) : Prop where
  confined : OnlyCow session s t
  present : (t.dir (.cow session)).isSome
  lookup_eq : ∀ x, t.lookup (.cow session) x =
    if x = .writing n operation then some s.next else s.lookup (.cow session) x
  inode_eq : t.inode s.next = content

theorem Writing.file_eq (h : Writing session operation n s content t) (m : ℕ) :
    t.file (.cow session) (.part m) = s.file (.cow session) (.part m) := by
  rw [FileSystem.file, FileSystem.file, h.lookup_eq]
  cases hlook : s.lookup (.cow session) (.part m) with
  | none => rfl
  | some i => exact congrArg some (h.confined.inode_eq i (lookup_lt hlook))

/-- While a chunk is written the session stands for what it stood for. -/
theorem Writing.stands (h : Writing session operation n s content t) (hn : n < maxChunkCount)
    (hs : Stands R session chunkSize hc file s) : Stands R session chunkSize hc file t where
  present := h.present
  chunk m f hf := hs.chunk m f (h.file_eq m ▸ hf)
  missing m hm := hs.missing m (h.file_eq m ▸ hm)
  named x hx := by
    rw [h.lookup_eq] at hx
    by_cases hname : x = .writing n operation
    · exact ⟨n, hname ▸ parse_writing hn operation⟩
    · rw [if_neg hname] at hx
      exact hs.named x hx

/-- `u` is `t` with another file in inode `i`. -/
structure Edited (i : ℕ) (content : SparseFile UInt8 b) (t u : Disk b) : Prop where
  inode_eq : u.inode = Function.update t.inode i content
  next_eq : u.next = t.next
  dir_eq : u.dir = t.dir

theorem Edited.lookup_eq (h : Edited i content t u) (place : Place) (x : EntryName) :
    u.lookup place x = t.lookup place x := by
  rw [FileSystem.lookup, FileSystem.lookup, h.dir_eq]

theorem Edited.confined {E : Place → EntryName → Prop} (h : Edited i content t u)
    (ht : Confined E s t) (hi : s.next ≤ i) : Confined E s u where
  next_le := ht.next_le.trans h.next_eq.ge
  inode_eq j hj := by
    rw [h.inode_eq, Function.update_of_ne (hj.trans_le hi).ne]
    exact ht.inode_eq j hj
  lookup_eq p x hp := (h.lookup_eq p x).trans (ht.lookup_eq p x hp)
  dir_eq p hp := by
    rw [h.dir_eq]
    exact ht.dir_eq p hp

theorem spec_editFiles (i : ℕ) (edits : List FileEdit) (t : Disk b)
    {E : StorageError → Disk b → Prop} :
    Spec (Proc.forEach edits (editFile i)) t (fun u => ∃ content, Edited i content t u)
      (fun _ u => Edited i (edits.foldl FileEdit.apply (t.inode i)) t u) E := by
  have hedit : ∀ (u : Disk b) content, Edited i content t u →
      ∀ f : SparseFile UInt8 b → SparseFile UInt8 b, Edited i (f content) t (u.edit i f) := by
    intro u content hu f
    refine ⟨?_, hu.next_eq, hu.dir_eq⟩
    change Function.update u.inode i (f (u.inode i)) = _
    rw [hu.inode_eq, Function.update_idem, Function.update_self]
  have hstart : Edited i (t.inode i) t t := ⟨(Function.update_eq_self _ _).symm, rfl, rfl⟩
  refine spec_mono (spec_forEach (I := fun rest u => ∃ content,
      Edited i content t u ∧ rest.foldl FileEdit.apply content =
        edits.foldl FileEdit.apply (t.inode i)) ⟨_, hstart, rfl⟩ ?_)
    (fun _ hu => hu) ?_ (fun _ _ hu => hu)
  · rintro edit rest u ⟨content, hu, hrest⟩
    refine spec_gradual (fun v hv => ?_) ⟨_, hedit u content hu _⟩ ⟨_, hedit u content hu _, hrest⟩
    obtain ⟨_, -, rfl⟩ := List.mem_map.mp hv
    exact ⟨_, hedit u content hu _⟩
  · rintro _ u ⟨content, hu, hlast⟩
    exact hlast ▸ hu

theorem Writing.edited {content' : SparseFile UInt8 b}
    (ht : Writing session operation n s content t) (hu : Edited s.next content' t u) :
    Writing session operation n s content' u where
  confined := hu.confined ht.confined le_rfl
  present := by
    rw [hu.dir_eq]
    exact ht.present
  lookup_eq x := (hu.lookup_eq _ x).trans (ht.lookup_eq x)
  inode_eq := by
    rw [hu.inode_eq, Function.update_self]

theorem Clean.entries (h : Clean session s) (x : EntryName)
    (hx : (s.lookup (.cow session) x).isSome) : ∃ n, parseCowEntryName x = .ok n := by
  obtain ⟨n, hn⟩ := h x hx
  exact ⟨n, parse_entry hn⟩

theorem Clean.lookup_writing (h : Clean session s) (n : ℕ) (operation : Uuid) :
    s.lookup (.cow session) (.writing n operation) = none := by
  by_contra hne
  obtain ⟨_, hm⟩ := h _ (Option.isSome_iff_ne_none.mpr hne)
  cases hm

/-- The file that the temporary file starts as, for a chunk that is there or not. -/
theorem Stands.copied (hR : Simulation R) (hs : Stands R session chunkSize hc file s)
    (n : ℕ) : R (((s.file (.cow session) (.part n)).elim [] copySparseFile).foldl
      FileEdit.apply SparseFile.empty) (file.chunk chunkSize hc n) := by
  cases hf : s.file (.cow session) (.part n) with
  | some f =>
    rw [Option.elim_some, copySparseFile_empty s.block_pos]
    exact (hs.chunk n f hf).2
  | none =>
    rw [SparseFile.chunk_eq_empty hc (hs.missing n hf)]
    exact hR.empty

theorem Writing.rename {r : Unit} (ht : Writing session operation n s content t)
    (hn : n < maxChunkCount) (hs : Stands R session chunkSize hc file s) (hclean : Clean session s)
    (hcontent : R content (edits.foldl FileEdit.apply (file.chunk chunkSize hc n)))
    (hfile : Exchanged chunkSize hc n edits file file')
    (hu : FileSystem.rename (.cow session) (.writing n operation) (.part n) t = .ok (r, u)) :
    OnlyCow session s u ∧ Stands R session chunkSize hc file' u ∧ Clean session u := by
  obtain ⟨_, hi, hlinks⟩ := rename_ok hu
  rw [ht.lookup_eq, if_pos rfl] at hi
  obtain rfl := Option.some.inj hi
  have hlook : ∀ x, u.lookup (.cow session) x = if x = .part n then some s.next
      else s.lookup (.cow session) x := by
    intro x
    rw [hlinks.lookup_eq]
    by_cases hpart : x = .part n
    · rw [if_pos hpart, if_pos hpart]
    · by_cases hwriting : x = .writing n operation
      · rw [if_pos hwriting, hwriting, hclean.lookup_writing]
      · rw [if_neg hwriting, ht.lookup_eq, if_neg hwriting]
  have hself : u.file (.cow session) (.part n) = some content := by
    rw [FileSystem.file, hlook, if_pos rfl, Option.map_some, hlinks.inode_eq, ht.inode_eq]
  have hother : ∀ m, m ≠ n → u.file (.cow session) (.part m) = s.file (.cow session) (.part m) := by
    intro m hm
    have hne : EntryName.part m ≠ .part n := fun heq => hm (EntryName.part.inj heq)
    rw [← ht.file_eq m, FileSystem.file, FileSystem.file, hlook, if_neg hne,
      ht.lookup_eq, if_neg (by rintro ⟨⟩), hlinks.inode_eq]
  refine ⟨ht.confined.trans (hlinks.confined_all fun _ => rfl), ⟨hlinks.present', ?_, ?_, ?_⟩, ?_⟩
  · intro m f hf
    by_cases hm : m = n
    · subst hm
      rw [hself] at hf
      obtain rfl := Option.some.inj hf
      exact ⟨hfile.size, hfile.chunk ▸ hcontent⟩
    · rw [hother m hm] at hf
      obtain ⟨hlt, hrel⟩ := hs.chunk m f hf
      exact ⟨(hfile.size_other m hm).mpr hlt, (hfile.other m hm).symm ▸ hrel⟩
  · intro m hf
    by_cases hm : m = n
    · subst hm
      rw [hself] at hf
      cases hf
    · rw [hother m hm] at hf
      have hge := hs.missing m hf
      exact Nat.le_of_not_lt fun hlt =>
        absurd ((hfile.size_other m hm).mp hlt) (Nat.not_lt.mpr hge)
  · intro x hx
    rw [hlook] at hx
    by_cases hpart : x = .part n
    · exact ⟨n, hpart ▸ parse_entry (parse_part hn)⟩
    · rw [if_neg hpart] at hx
      exact hs.named x hx
  · intro x hx
    rw [hlook] at hx
    by_cases hpart : x = .part n
    · exact ⟨n, hpart ▸ parse_part hn⟩
    · rw [if_neg hpart] at hx
      exact hclean x hx

/-- Every state of `replace_chunk` stands for the file before or after the exchange. -/
theorem spec_replaceChunk (hR : Simulation R) (operation : Uuid) (hn : n < maxChunkCount)
    (hfile : Exchanged chunkSize hc n edits file file')
    (hs : Stands R session chunkSize hc file s) (hclean : Clean session s) :
    Spec (replaceChunk session operation n edits) s
      (fun t => OnlyCow session s t ∧ (Stands R session chunkSize hc file t ∨
        Stands R session chunkSize hc file' t))
      (fun _ t => OnlyCow session s t ∧ Stands R session chunkSize hc file' t ∧ Clean session t)
      (fun _ _ => False) := by
  have hwriting : ∀ content t, Writing session operation n s content t →
      OnlyCow session s t ∧ (Stands R session chunkSize hc file t ∨
        Stands R session chunkSize hc file' t) :=
    fun _ _ ht => ⟨ht.confined, .inl (ht.stands hn hs)⟩
  obtain ⟨d, hd⟩ := Option.isSome_iff_exists.mp hs.present
  apply spec_require_bind hn
  apply spec_check_bind
  · rw [verifyDirectory, hd]
    rfl
  apply spec_look_bind
  obtain ⟨t, hcreate⟩ := exists_createNew hs.present (hclean.lookup_writing n operation)
  have hlinks := (createNew_ok hcreate).2
  have ht : Writing session operation n s SparseFile.empty t := by
    refine ⟨confined_allocateInode.trans (hlinks.confined_all fun _ => rfl),
      hlinks.present', hlinks.lookup_eq, ?_⟩
    rw [hlinks.inode_eq]
    exact Function.update_self _ _ _
  refine spec_called_bind (fsCall_eq hcreate) (hwriting _ _ ht) ?_
  refine spec_bind (spec_mono (spec_editFiles s.next _ t)
    (fun u ⟨_, hu⟩ => hwriting _ u (ht.edited hu)) (fun _ _ hu => ht.edited hu)
    fun _ _ he => he) ?_
  intro _ u hu
  refine spec_bind (spec_mono (spec_editFiles s.next _ u)
    (fun v ⟨_, hv⟩ => hwriting _ v (hu.edited hv)) (fun _ _ hv => hu.edited hv)
    fun _ _ he => he) ?_
  intro _ v hv
  rw [hu.inode_eq, ht.inode_eq] at hv
  have hcontent := hR.applyAll (hs.copied hR n) edits
  have hlook : v.lookup (.cow session) (.writing n operation) = some s.next := by
    rw [hv.lookup_eq, if_pos rfl]
  obtain ⟨_, hw⟩ := exists_rename hlook
  obtain ⟨hconfined, hstands, hclean'⟩ := hv.rename hn hs hclean hcontent hfile hw
  exact spec_called (fsCall_eq hw) ⟨hconfined, .inr hstands⟩ ⟨hconfined, hstands, hclean'⟩

theorem spec_replaceChunk_limit (session operation : Uuid) (hn : ¬n < maxChunkCount)
    (edits : List FileEdit) (s : Disk b) :
    Spec (replaceChunk session operation n edits) s (fun _ => False)
      (fun _ _ => False) (fun _ t => s = t) := by
  exact spec_bind (P := fun _ _ => False)
    (spec_require (fun h => hn h) fun _ => rfl) fun _ _ ht => ht.elim

end FileBelt.Cow
