import FileBelt.Cow.Chunks

/-!
# The size of a session

`cow_logical_size` accepts a directory exactly if its files are the chunks of a
file of some size, all full but the last, and returns that size.  The files then
stand for a file with their bytes.
-/

namespace FileBelt.Cow

open Support Support.FileSystem

/-- The chunk files of a directory have the numbers and sizes of a file of `size`
bytes. -/
structure Numbered {b : ℕ} (place : Place) (chunkSize size : ℕ) (disk : Disk b) : Prop where
  chunk : ∀ n f, disk.file place (.part n) = some f →
    n * chunkSize < size ∧ f.size = min chunkSize (size - n * chunkSize)
  missing : ∀ n, disk.file place (.part n) = none → size ≤ n * chunkSize

section

variable {b n : ℕ} {disk : Disk b} {place : Place} {d : Directory EntryName} {x : EntryName}
  {l : Link EntryName} {chunks : List (ℕ × ℕ)}

theorem parseCowChunkName_ok (h : parseCowChunkName x = .ok n) :
    x = .part n ∧ n < maxChunkCount := by
  cases x with
  | part =>
    obtain ⟨hm, h⟩ := then_of_ok h
    obtain rfl := Except.ok.inj h
    exact ⟨rfl, hm⟩
  | writing => cases h
  | object => cases h

theorem chunkEntry_ok {y : ℕ × ℕ} (h : chunkEntry disk l = .ok y) :
    l.name = .part y.1 ∧ y.1 < maxChunkCount ∧ (disk.inode l.inode).size = y.2 := by
  obtain ⟨_, hn, h⟩ := bind_eq_ok h
  obtain rfl := Except.ok.inj h
  obtain ⟨hname, hlt⟩ := parseCowChunkName_ok hn
  exact ⟨hname, hlt, rfl⟩

section

variable (hd : disk.dir place = some d)
include hd

theorem file_of_link (hl : l ∈ d.rows) : disk.file place l.name = some (disk.inode l.inode) := by
  rw [FileSystem.file, lookup_of_dir hd, Table.get_eq_some.mpr ⟨hl, rfl⟩]
  rfl

theorem exists_link {f : SparseFile UInt8 b}
    (hf : disk.file place x = some f) : ∃ l ∈ d.rows, l.name = x ∧ disk.inode l.inode = f := by
  obtain ⟨_, hi, rfl⟩ := Option.map_eq_some_iff.mp hf
  rw [lookup_of_dir hd] at hi
  obtain ⟨l, hl, rfl⟩ := Option.map_eq_some_iff.mp hi
  obtain ⟨hmem, hname⟩ := Table.get_eq_some.mp hl
  exact ⟨l, hmem, hname, rfl⟩

theorem lookup_isSome_of_link (hl : l ∈ d.rows) : (disk.lookup place l.name).isSome := by
  rw [lookup_of_dir hd, Table.get_eq_some.mpr ⟨hl, rfl⟩]
  rfl

theorem exists_row (hx : (disk.lookup place x).isSome) : ∃ l ∈ d.rows, l.name = x := by
  obtain ⟨_, hi⟩ := Option.isSome_iff_exists.mp hx
  rw [lookup_of_dir hd] at hi
  obtain ⟨l, hl, -⟩ := Option.map_eq_some_iff.mp hi
  exact ⟨l, Table.get_eq_some.mp hl⟩

end

theorem ChunkNames.exists_mapM (h : ChunkNames place disk) (hd : disk.dir place = some d) :
    ∃ chunks, d.rows.mapM (chunkEntry disk) = .ok chunks := by
  apply exists_mapM_eq_ok
  intro l hl
  obtain ⟨n, hn⟩ := h l.name (lookup_isSome_of_link hd hl)
  exact ⟨(n, (disk.inode l.inode).size), by rw [chunkEntry, hn]; rfl⟩

theorem chunkNames_of_mapM (hd : disk.dir place = some d)
    (h : d.rows.mapM (chunkEntry disk) = .ok chunks) : ChunkNames place disk := by
  intro x hx
  obtain ⟨_, hmem, rfl⟩ := exists_row hd hx
  obtain ⟨y, -, hy⟩ := exists_mem_of_mapM h hmem
  obtain ⟨hpart, hlt, -⟩ := chunkEntry_ok hy
  exact ⟨y.1, by rw [hpart]; exact parse_part hlt⟩

theorem mem_chunks_iff (hd : disk.dir place = some d)
    (h : d.rows.mapM (chunkEntry disk) = .ok chunks) (n size : ℕ) :
    (n, size) ∈ chunks ↔ ∃ f, disk.file place (.part n) = some f ∧ f.size = size := by
  constructor
  · intro hmem
    obtain ⟨l, hl, hentry⟩ := exists_of_mem_mapM h hmem
    obtain ⟨hname, -, hsize⟩ := chunkEntry_ok hentry
    exact ⟨_, hname ▸ file_of_link hd hl, hsize⟩
  · rintro ⟨_, hf, rfl⟩
    obtain ⟨_, hl, hname, rfl⟩ := exists_link hd hf
    obtain ⟨⟨_, _⟩, hmem, hentry⟩ := exists_mem_of_mapM h hl
    obtain ⟨hpart, -, hsize⟩ := chunkEntry_ok hentry
    rw [hname] at hpart
    obtain rfl := EntryName.part.inj hpart
    exact hsize ▸ hmem

theorem nodup_chunks (h : d.rows.mapM (chunkEntry disk) = .ok chunks) :
    (chunks.map Prod.fst).Nodup := by
  have hnames : d.rows.map Link.name = (chunks.map Prod.fst).map EntryName.part := by
    have hpairs := mapM_eq_ok h
    clear h
    generalize d.rows = rows at hpairs ⊢
    induction hpairs with
    | nil => rfl
    | cons hentry _ ih =>
      rw [List.map_cons, List.map_cons, List.map_cons, ih, (chunkEntry_ok hentry).1]
  have hnodup := d.nodup
  rw [hnames] at hnodup
  exact hnodup.of_map _

end

/-! ## Counting chunks -/

variable {size chunkSize n x total m c b index left acc : ℕ} {chunks : List (ℕ × ℕ)}

/-- The chunks of a file of `size` bytes, with their sizes. -/
def chunkList (chunkSize size : ℕ) : List (ℕ × ℕ) :=
  (List.range (chunkCount chunkSize size)).map fun n =>
    (n, min chunkSize (size - n * chunkSize))

theorem mem_chunkList (hcs : 0 < chunkSize) : (n, m) ∈ chunkList chunkSize size ↔
      n * chunkSize < size ∧ m = min chunkSize (size - n * chunkSize) := by
  rw [chunkList, List.mem_map]
  constructor
  · rintro ⟨_, hk, heq⟩
    obtain ⟨rfl, rfl⟩ := Prod.mk.inj heq
    exact ⟨(lt_chunkCount_iff hcs).mp (List.mem_range.mp hk), rfl⟩
  · rintro ⟨hlt, rfl⟩
    exact ⟨n, List.mem_range.mpr ((lt_chunkCount_iff hcs).mpr hlt), rfl⟩

theorem insertionSort_chunks (hnodup : (chunks.map Prod.fst).Nodup)
    (hmem : ∀ x, x ∈ chunks ↔ x ∈ chunkList chunkSize size) :
    chunks.insertionSort (fun x y => x.1 ≤ y.1) = chunkList chunkSize size := by
  have hsorted : (chunkList chunkSize size).Pairwise fun x y => x.1 < y.1 := by
    rw [chunkList, List.pairwise_map]
    exact List.pairwise_lt_range
  have hperm : (chunks.insertionSort fun x y => x.1 ≤ y.1).Perm (chunkList chunkSize size) := by
    refine (List.perm_insertionSort _ _).trans ?_
    refine (List.perm_ext_iff_of_nodup hnodup.of_map ?_).mpr hmem
    exact hsorted.imp fun hlt heq => absurd (heq ▸ hlt) (Nat.lt_irrefl _)
  have hinj : ∀ x y, x ∈ chunks → y ∈ chunks → x.1 = y.1 → x = y := fun x y hx hy heq =>
    List.inj_on_of_nodup_map hnodup hx hy heq
  refine List.Perm.eq_of_pairwise (fun x y hx hy hxy hyx => ?_)
    (List.pairwise_insertionSort _ _) (hsorted.imp le_of_lt) hperm
  exact hinj x y ((List.mem_insertionSort _).mp hx) ((hmem y).mpr hy) (le_antisymm hxy hyx)

theorem sumChunks_range (hcs : 0 < chunkSize) (hsize : size < 2 ^ 64)
    (hleft : index + left = chunkCount chunkSize size) :
    sumChunks chunkSize index (min size (index * chunkSize)) ((List.range' index left).map fun n =>
        (n, min chunkSize (size - n * chunkSize))) = .ok size := by
  induction left generalizing index with
  | zero =>
    have hall := le_chunkCount_mul hcs size
    rw [← hleft, Nat.add_zero] at hall
    rw [List.range'_zero, List.map_nil, sumChunks, min_eq_left hall]
  | succ left ih =>
    have hinside : index * chunkSize < size := (lt_chunkCount_iff hcs).mp (by omega)
    have hfull : 0 < left → (index + 1) * chunkSize < size := fun hpos =>
      (lt_chunkCount_iff hcs).mp (by omega)
    have hnext : (index + 1) * chunkSize = index * chunkSize + chunkSize := by
      rw [Nat.add_mul, Nat.one_mul]
    rw [List.range'_succ, List.map_cons, sumChunks, if_neg]
    · have hadd : checkedAdd (min size (index * chunkSize))
          (min chunkSize (size - index * chunkSize)) =
          some (min size ((index + 1) * chunkSize)) := by
        rw [checkedAdd, if_pos (by omega)]
        congr 1
        omega
      rw [hadd]
      exact ih (by omega)
    · rintro (hne | hzero | hbig | ⟨hrest, hsmall⟩)
      · exact hne rfl
      · omega
      · omega
      · have hpos : 0 < left := by
          by_contra hnot
          have hnil : left = 0 := by omega
          rw [hnil] at hrest
          exact hrest rfl
        omega

/-- What the loop accepts from `index` on is a list of chunks, and it ends in the
last of them. -/
theorem sumChunks_ok (hacc : chunks ≠ [] → acc = index * chunkSize)
    (h : sumChunks chunkSize index acc chunks = .ok total) :
    (chunks = [] → total = acc) ∧ (chunks ≠ [] → (index + chunks.length - 1) * chunkSize < total ∧
        total ≤ (index + chunks.length) * chunkSize) ∧
      chunks = (List.range' index chunks.length).map fun n =>
        (n, min chunkSize (total - n * chunkSize)) := by
  induction chunks generalizing index acc with
  | nil =>
    exact ⟨fun _ => (Except.ok.inj h).symm, fun hne => absurd rfl hne, rfl⟩
  | cons x rest ih =>
    obtain ⟨number, size⟩ := x
    have hstart := hacc (List.cons_ne_nil _ _)
    have hnext : (index + 1) * chunkSize = index * chunkSize + chunkSize := by
      rw [Nat.add_mul, Nat.one_mul]
    obtain ⟨hcond, h⟩ := else_of_ok h
    push Not at hcond
    obtain ⟨rfl, hpos, hle, hfull⟩ := hcond
    obtain ⟨acc', hadd, h⟩ := bind_eq_ok h
    have hacc' : acc + size = acc' := by
      have hsome := okOr_eq_ok hadd
      obtain ⟨-, hsome⟩ := Option.ite_none_right_eq_some.mp hsome
      exact Option.some.inj hsome
    have hrest : rest ≠ [] → acc' = (number + 1) * chunkSize := by
      intro hne
      have hsize := hfull hne
      omega
    obtain ⟨hnil, hbounds, hlist⟩ := ih hrest h
    refine ⟨fun hcons => absurd hcons (List.cons_ne_nil _ _), fun _ => ?_, ?_⟩
    · rw [List.length_cons]
      by_cases hempty : rest = []
      · have htotal := hnil hempty
        rw [hempty, List.length_nil, Nat.zero_add, Nat.add_sub_cancel]
        omega
      · obtain ⟨hlow, hhigh⟩ := hbounds hempty
        have hshift : number + 1 + rest.length = number + (rest.length + 1) := by omega
        rw [hshift] at hlow hhigh
        exact ⟨hlow, hhigh⟩
    · congr 2
      by_cases hempty : rest = []
      · have htotal := hnil hempty
        omega
      · obtain ⟨hlow, -⟩ := hbounds hempty
        have hlength : 0 < rest.length := List.length_pos_iff.mpr hempty
        have hsize := hfull hempty
        have hmul : (number + 1) * chunkSize ≤ (number + 1 + rest.length - 1) * chunkSize :=
          Nat.mul_le_mul_right _ (by omega)
        omega

theorem eq_chunkList_of_sumChunks (hcs : 0 < chunkSize)
    (h : sumChunks chunkSize 0 0 chunks = .ok total) : chunks = chunkList chunkSize total := by
  obtain ⟨hnil, hbounds, hlist⟩ := sumChunks_ok (fun _ => (Nat.zero_mul _).symm) h
  have hcount : chunks.length = chunkCount chunkSize total := by
    by_cases hempty : chunks = []
    · rw [hnil hempty, hempty]
      exact (Nat.div_eq_of_lt (by omega)).symm
    · obtain ⟨hlow, hhigh⟩ := hbounds hempty
      rw [Nat.zero_add] at hlow hhigh
      have hlt := (lt_chunkCount_iff hcs).mpr hlow
      have hge : ¬chunks.length < chunkCount chunkSize total := fun hmore =>
        absurd ((lt_chunkCount_iff hcs).mp hmore) (Nat.not_lt.mpr hhigh)
      omega
  rw [chunkList, ← hcount, List.range_eq_range']
  exact hlist

/-! ## `cow_logical_size` -/

section

variable {b : ℕ} {disk : Disk b} {place : Place} {session : Uuid} {chunkSize size : ℕ}

theorem Numbered.mem_chunks (h : Numbered place chunkSize size disk)
    (hcs : 0 < chunkSize) {d : Directory EntryName} (hd : disk.dir place = some d)
    {chunks : List (ℕ × ℕ)} (hchunks : d.rows.mapM (chunkEntry disk) = .ok chunks)
    (x : ℕ × ℕ) : x ∈ chunks ↔ x ∈ chunkList chunkSize size := by
  obtain ⟨n, _⟩ := x
  rw [mem_chunks_iff hd hchunks, mem_chunkList hcs]
  constructor
  · rintro ⟨f, hf, rfl⟩
    exact h.chunk n f hf
  · rintro ⟨hlt, rfl⟩
    cases hf : disk.file place (.part n) with
    | none => exact absurd (h.missing n hf) (Nat.not_le.mpr hlt)
    | some f => exact ⟨f, rfl, (h.chunk n f hf).2⟩

theorem cowLogicalSize_eq (hcs : validateChunkSize chunkSize = .ok ())
    (hpresent : (disk.dir (.cow session)).isSome) (hnames : Clean session disk)
    (h : Numbered (.cow session) chunkSize size disk)
    (hsize : size < 2 ^ 64) : cowLogicalSize session chunkSize disk = .ok size := by
  obtain ⟨_, hd⟩ := Option.isSome_iff_exists.mp hpresent
  obtain ⟨_, hchunks⟩ := hnames.exists_mapM hd
  have hpositive : 0 < chunkSize := pos_of_validate hcs
  have hsorted := insertionSort_chunks (nodup_chunks hchunks) (h.mem_chunks hpositive hd hchunks)
  have hsum := sumChunks_range hpositive hsize (Nat.zero_add (chunkCount chunkSize size))
  rw [Nat.zero_mul, Nat.min_zero, ← List.range_eq_range'] at hsum
  rw [cowLogicalSize, hcs, ok_bind, verifyDirectory, hd, okOr_some, ok_bind, hchunks,
    ok_bind, hsorted]
  exact hsum

/-- A directory whose size is accepted holds exactly the chunks of a file of that
size. -/
theorem cowLogicalSize_ok (h : cowLogicalSize session chunkSize disk = .ok size) :
    validateChunkSize chunkSize = .ok () ∧ Numbered (.cow session) chunkSize size disk ∧
      size ≤ maxChunkCount * chunkSize := by
  obtain ⟨⟨⟩, hcs, h⟩ := bind_eq_ok h
  obtain ⟨d, hd, h⟩ := bind_eq_ok h
  have hdir : disk.dir (.cow session) = some d := okOr_eq_ok hd
  obtain ⟨_, hchunks, h⟩ := bind_eq_ok h
  have hpositive := pos_of_validate hcs
  have hlist := eq_chunkList_of_sumChunks hpositive h
  have hmem : ∀ n m, (∃ f, disk.file (.cow session) (.part n) = some f ∧ f.size = m) ↔
      n * chunkSize < size ∧ m = min chunkSize (size - n * chunkSize) := by
    intro n m
    rw [← mem_chunks_iff hdir hchunks, ← mem_chunkList hpositive, ← hlist, List.mem_insertionSort]
  have hnumbered : Numbered (.cow session) chunkSize size disk := by
    constructor
    · intro n f hf
      exact (hmem n f.size).mp ⟨f, hf, rfl⟩
    · intro n hf
      by_contra hlt
      obtain ⟨_, hsome, -⟩ := (hmem n _).mpr ⟨Nat.lt_of_not_le hlt, rfl⟩
      rw [hf] at hsome
      cases hsome
  have hclean := chunkNames_of_mapM hdir hchunks
  refine ⟨hcs, hnumbered, ?_⟩
  -- a file beyond the limit would have a chunk whose name is too long
  by_contra hlarge
  cases hf : disk.file (.cow session) (.part maxChunkCount) with
  | none => exact absurd (hnumbered.missing _ hf) hlarge
  | some =>
    obtain ⟨_, hi, -⟩ := Option.map_eq_some_iff.mp hf
    obtain ⟨n, hn⟩ := hclean (.part maxChunkCount) (by rw [hi]; rfl)
    obtain ⟨hname, hlt⟩ := parseCowChunkName_ok hn
    rw [← EntryName.part.inj hname] at hlt
    exact absurd hlt (Nat.lt_irrefl _)

end

/-! ## The file with the bytes of the chunks -/

/-- A file of `size` bytes, all allocated. -/
def flatFile (size : ℕ) (content : ℕ → UInt8) : SparseFile UInt8 1 where
  size := size
  content x := if x < size then content x else 0
  data k := decide (k < size)
  content_of_ge x hx := if_neg (Nat.not_lt.mpr hx)
  content_of_hole x hx := by
    rw [Nat.div_one] at hx
    exact if_neg (of_decide_eq_false hx)
  data_lt k hk := by
    rw [Nat.mul_one]
    exact of_decide_eq_true hk

/-- The bytes of the chunk files of a directory, one after the other. -/
def chunkBytes {b : ℕ} (place : Place) (chunkSize : ℕ) (disk : Disk b) (x : ℕ) : UInt8 :=
  (disk.file place (.part (x / chunkSize))).elim 0 fun f => f.content (x % chunkSize)

theorem chunk_div (hx : x < chunkSize) : (n * chunkSize + x) / chunkSize = n := by
  rw [Nat.mul_comm, Nat.mul_add_div (Nat.zero_lt_of_lt hx), Nat.div_eq_of_lt hx, Nat.add_zero]

theorem chunk_mod (hx : x < chunkSize) : (n * chunkSize + x) % chunkSize = x := by
  rw [Nat.mul_comm, Nat.mul_add_mod, Nat.mod_eq_of_lt hx]

theorem chunkBytes_chunk {place : Place} {disk : Disk b} {f : SparseFile UInt8 b}
    (hf : disk.file place (.part n) = some f) (hx : x < chunkSize) :
    chunkBytes place chunkSize disk (n * chunkSize + x) = f.content x := by
  rw [chunkBytes, chunk_div hx, hf, chunk_mod hx]
  rfl

variable {b : ℕ} {disk : Disk b} {session : Uuid} {chunkSize size : ℕ}

/-- Chunk files with these numbers and sizes stand for the file of their bytes. -/
theorem Numbered.stands (hpresent : (disk.dir (.cow session)).isSome)
    (hnames : ∀ x, (disk.lookup (.cow session) x).isSome → ∃ n, parseCowEntryName x = .ok n)
    (h : Numbered (.cow session) chunkSize size disk) {content : ℕ → UInt8}
    (hcontent : ∀ x, x < size → content x = chunkBytes (.cow session) chunkSize disk x) :
    Stands SameBytes session chunkSize (one_dvd chunkSize) (flatFile size content) disk where
  present := hpresent
  chunk n f hf := by
    obtain ⟨hlt, hsize⟩ := h.chunk n f hf
    refine ⟨hlt, hsize, funext fun x => ?_⟩
    change f.content x = if x < chunkSize then (if n * chunkSize + x < size then
      content (n * chunkSize + x) else 0) else 0
    by_cases hx : x < f.size
    · rw [if_pos (by omega), if_pos (by omega), hcontent _ (by omega),
        chunkBytes_chunk hf (by omega)]
    · rw [f.content_of_ge x (by omega)]
      split
      · exact (if_neg (by omega)).symm
      · rfl
  missing := h.missing
  named := hnames

theorem Stands.numbered {R : SparseFile UInt8 b → SparseFile UInt8 c → Prop} (hR : Simulation R)
    {hc : c ∣ chunkSize} {file : SparseFile UInt8 c} (h : Stands R session chunkSize hc file disk) :
    Numbered (.cow session) chunkSize file.size disk where
  chunk n f hf := by
    obtain ⟨hlt, hrel⟩ := h.chunk n f hf
    exact ⟨hlt, hR.size_eq hrel⟩
  missing := h.missing

end FileBelt.Cow
