import FileBelt.Cow.Manifest
import FileBelt.Cow.Recovery

/-!
# The beginning of a session

`begin_cow_write` fills a private directory from the base payload and renames it.  It
succeeds exactly if the base is as recorded, and the session then stands for its
bytes.  A stop on the way leaves a directory that recovery removes.
-/

namespace FileBelt.Cow

open Support Support.Proc Support.FileSystem Write
open Function (update_of_ne update_self)

/-! ## Filling a directory -/

variable {digest : Digest} {chunks baseChunks : List CowBaseChunk} {name : EntryName}
  {basePayload : Option PayloadRecord} {k i size n : ℕ} {locator : Uuid}

section

variable {b chunkSize size : ℕ} {place place' : Place} {s t u : Disk b} {content : ℕ → UInt8}

/-- `t` is `s` with some of the chunks of a file of `size` bytes in the directory. -/
structure Filling (place : Place) (chunkSize size : ℕ) (s t : Disk b) : Prop where
  confined : Confined (fun place' _ => place' = place) s t
  present : (t.dir place).isSome
  names : ∀ x, (t.lookup place x).isSome → ∃ n, x = .part n ∧ n * chunkSize < size

/-- The directory holds the chunks of a file with a content. -/
structure Filled (place : Place) (chunkSize size : ℕ) (content : ℕ → UInt8)
    (disk : Disk b) : Prop where
  numbered : Numbered place chunkSize size disk
  bytes : ∀ x, x < size → content x = chunkBytes place chunkSize disk x

theorem Filling.chunkNames (h : Filling place chunkSize size s t)
    (hsize : size ≤ maxChunkCount * chunkSize) : ChunkNames place t := by
  intro x hx
  obtain ⟨n, rfl, hn⟩ := h.names x hx
  refine ⟨n, parse_part ?_⟩
  exact Nat.lt_of_mul_lt_mul_right (hn.trans_le hsize)

/-- The chunks with a number below `k` are there, with the bytes of `content`. -/
structure FilledTo (place : Place) (chunkSize size : ℕ) (content : ℕ → UInt8) (k : ℕ)
    (s t : Disk b) : Prop where
  filling : Filling place chunkSize size s t
  chunk : ∀ n, n < k → ∃ f, t.file place (.part n) = some f ∧
    f.size = min chunkSize (size - n * chunkSize) ∧
    ∀ x, x < f.size → f.content x = content (n * chunkSize + x)
  missing : ∀ n, k ≤ n → t.lookup place (.part n) = none

/-- The directory is there and has no names. -/
structure Vacant (place : Place) (s : Disk b) : Prop where
  present : (s.dir place).isSome
  empty : ∀ x, s.lookup place x = none

theorem filledTo_zero (hs : Vacant place s) : FilledTo place chunkSize size content 0 s s where
  filling := ⟨Confined.refl s, hs.present, fun x hx => by rw [hs.empty] at hx; cases hx⟩
  chunk n hn := absurd hn (Nat.not_lt_zero n)
  missing n _ := hs.empty (.part n)

theorem FilledTo.filled (hcs : 0 < chunkSize)
    (h : FilledTo place chunkSize size content (chunkCount chunkSize size) s t) :
    Filled place chunkSize size content t where
  numbered := by
    constructor
    · intro n f hf
      by_cases hn : n < chunkCount chunkSize size
      · obtain ⟨f', hf', hsize, -⟩ := h.chunk n hn
        rw [hf] at hf'
        obtain rfl := Option.some.inj hf'
        exact ⟨(lt_chunkCount_iff hcs).mp hn, hsize⟩
      · rw [FileSystem.file, h.missing n (Nat.le_of_not_lt hn)] at hf
        cases hf
    · intro n hf
      by_contra hlt
      obtain ⟨f, hf', -⟩ := h.chunk n ((lt_chunkCount_iff hcs).mpr (Nat.lt_of_not_le hlt))
      rw [hf] at hf'
      cases hf'
  bytes x hx := by
    have hdiv := Nat.div_add_mod' x chunkSize
    have hmod := Nat.mod_lt x hcs
    have hn : x / chunkSize < chunkCount chunkSize size := (lt_chunkCount_iff hcs).mpr (by omega)
    obtain ⟨f, hf, hsize, hcontent⟩ := h.chunk (x / chunkSize) hn
    rw [chunkBytes, hf, Option.elim_some, hcontent _ (by omega), hdiv]

theorem Filling.add (ht : Filling place chunkSize size s t) (hk : k * chunkSize < size)
    (hconfined : Confined (fun place' _ => place' = place) t u) (hpresent : (u.dir place).isSome)
    (hlook : ∀ x, u.lookup place x = if x = .part k then some i else t.lookup place x) :
    Filling place chunkSize size s u := by
  refine ⟨ht.confined.trans hconfined, hpresent, fun x hx => ?_⟩
  rw [hlook] at hx
  by_cases hname : x = .part k
  · exact ⟨k, hname, hk⟩
  · rw [if_neg hname] at hx
    exact ht.names x hx

theorem FilledTo.next (h : FilledTo place chunkSize size content k s t) (hk : k * chunkSize < size)
    (hconfined : Confined (fun place' _ => place' = place) t u) (hpresent : (u.dir place).isSome)
    (hlook : ∀ x, u.lookup place x = if x = .part k then some i else t.lookup place x)
    (hsize : (u.inode i).size = min chunkSize (size - k * chunkSize))
    (hcontent : ∀ x, x < (u.inode i).size → (u.inode i).content x = content (k * chunkSize + x)) :
    FilledTo place chunkSize size content (k + 1) s u where
  filling := h.filling.add hk hconfined hpresent hlook
  chunk n hn := by
    by_cases heq : n = k
    · subst heq
      refine ⟨u.inode i, ?_, hsize, hcontent⟩
      rw [FileSystem.file, hlook, if_pos rfl]
      rfl
    · obtain ⟨f, hf, hrest⟩ := h.chunk n (by omega)
      refine ⟨f, ?_, hrest⟩
      have hne : EntryName.part n ≠ .part k := fun hpart => heq (EntryName.part.inj hpart)
      obtain ⟨j, hj, rfl⟩ := Option.map_eq_some_iff.mp hf
      rw [FileSystem.file, hlook, if_neg hne, hj, Option.map_some,
        hconfined.inode_eq j (lookup_lt hj)]
  missing n hn := by
    have hne : EntryName.part n ≠ .part k := fun hpart => by
      have := EntryName.part.inj hpart
      omega
    rw [hlook, if_neg hne]
    exact h.missing n (by omega)

/-- A chunk can be a link to another file. -/
theorem FilledTo.hardLink {f : SparseFile UInt8 b} (h : FilledTo place chunkSize size content k s t)
    (hk : k * chunkSize < size) (hf : t.file place' name = some f)
    (hsize : f.size = min chunkSize (size - k * chunkSize))
    (hcontent : ∀ x, x < f.size → f.content x = content (k * chunkSize + x)) :
    ∃ u, FileSystem.hardLink place' name place (.part k) t = .ok ((), u) ∧
      FilledTo place chunkSize size content (k + 1) s u := by
  obtain ⟨i, hi, rfl⟩ := Option.map_eq_some_iff.mp hf
  obtain ⟨u, hu⟩ := exists_hardLink hi h.filling.present (h.missing k le_rfl)
  obtain ⟨i', hi', hlinks⟩ := hardLink_ok hu
  obtain rfl := Option.some.inj (hi.symm.trans hi')
  rw [← hlinks.inode_eq] at hsize hcontent
  exact ⟨u, hu, h.next hk (hlinks.confined_all fun _ => rfl) hlinks.present' hlinks.lookup_eq hsize
    hcontent⟩

end

/-! ## From a whole payload -/

section

variable {b : ℕ} {place : Place} {chunkSize size : ℕ} {s t u : Disk b}

theorem splitChunk_empty (source : SparseFile UInt8 b) (chunkSize n : ℕ) :
    (splitChunk source chunkSize n).foldl FileEdit.apply (SparseFile.empty : SparseFile UInt8 b) =
      SparseFile.empty.write 0 (source.read (n * chunkSize)
        (min chunkSize (source.size - n * chunkSize))) := by
  have hlength : ∀ o m, (source.read (n * chunkSize + o) m).length = m :=
    fun _ _ => SparseFile.length_read
  have hadd : ∀ o m m', source.read (n * chunkSize + o) (m + m') =
      source.read (n * chunkSize + o) m ++ source.read (n * chunkSize + (o + m)) m' := by
    intro o m m'
    rw [← Nat.add_assoc]
    exact SparseFile.read_add
  rw [splitChunk, List.foldl_map]
  exact SparseFile.foldl_write_cutBy hlength hadd bufferSize (by decide)

theorem spec_createChunk {source : SparseFile UInt8 b} (hk : k * chunkSize < source.size)
    (ht : FilledTo place chunkSize source.size source.content k s t) :
    Spec (createChunk source place chunkSize k) t (Filling place chunkSize source.size s)
      (fun _ u => FilledTo place chunkSize source.size source.content (k + 1) s u)
      (fun _ _ => False) := by
  obtain ⟨u, hcreate⟩ := exists_createNew ht.filling.present (ht.missing k le_rfl)
  have hlinks := (createNew_ok hcreate).2
  have hconfined : Confined (fun place' _ => place' = place) t u :=
    confined_allocateInode.trans (hlinks.confined_all fun _ => rfl)
  have hempty : u.inode t.next = SparseFile.empty := by
    rw [hlinks.inode_eq]
    exact update_self _ _ _
  refine spec_called_bind (fsCall_eq hcreate)
    (ht.filling.add hk hconfined hlinks.present' hlinks.lookup_eq) ?_
  have hlook : ∀ content v, Edited t.next content u v → ∀ x, v.lookup place x =
      if x = .part k then some t.next else t.lookup place x :=
    fun content v hv x => (hv.lookup_eq place x).trans (hlinks.lookup_eq x)
  have hpresent : ∀ content v, Edited t.next content u v → (v.dir place).isSome :=
    fun content v hv => by rw [hv.dir_eq]; exact hlinks.present'
  refine spec_mono (spec_editFiles t.next _ u) ?_ ?_ fun _ _ he => he
  · rintro v ⟨content, hv⟩
    exact ht.filling.add hk (hv.confined hconfined le_rfl) (hpresent content v hv)
      (hlook content v hv)
  · intro _ v hv
    have hfile : v.inode t.next = SparseFile.empty.write 0 (source.read (k * chunkSize)
        (min chunkSize (source.size - k * chunkSize))) := by
      rw [hv.inode_eq, update_self, hempty, splitChunk_empty]
    apply ht.next hk (hv.confined hconfined le_rfl) (hpresent _ v hv) (hlook _ v hv)
    · rw [hfile, SparseFile.empty_write_read_size]
    · intro x hx
      rw [hfile, SparseFile.empty_write_read_size] at hx
      rw [hfile, SparseFile.empty_write_read_content hx]

theorem spec_splitWholePayload (locator : Uuid) (hcs : 0 < chunkSize) {source : SparseFile UInt8 b}
    (hsource : s.file .whole (.object locator) = some source) (hs : Vacant place s) :
    Spec (splitWholePayload locator place chunkSize) s (Filling place chunkSize source.size s)
      (fun _ t => Filling place chunkSize source.size s t ∧
        Filled place chunkSize source.size source.content t) (fun _ _ => False) := by
  have hstart : FilledTo place chunkSize source.size source.content 0 s s :=
    filledTo_zero hs
  apply spec_check_bind
  · rw [openFile, hsource]
    rfl
  by_cases hzero : source.size = 0
  · rw [if_pos hzero]
    have hcount : chunkCount chunkSize source.size = 0 := by
      exact Nat.div_eq_of_lt (by omega)
    refine spec_pure ⟨hstart.filling, FilledTo.filled hcs (s := s) ?_⟩
    rw [hcount]
    exact hstart
  · rw [if_neg hzero]
    by_cases hsmall : source.size ≤ chunkSize
    · rw [if_pos hsmall]
      have hcount : chunkCount chunkSize source.size = 1 := by
        have hone := (lt_chunkCount_iff hcs).mpr (show 0 * chunkSize < source.size by omega)
        have htwo : ¬1 < chunkCount chunkSize source.size := fun hlt =>
          absurd ((lt_chunkCount_iff hcs).mp hlt) (by omega)
        omega
      obtain ⟨t, ht, hfilled⟩ := hstart.hardLink (by omega) hsource (by omega) fun x _ => by
        rw [Nat.zero_mul, Nat.zero_add]
      refine spec_called (fsCall_eq ht) hfilled.filling
        ⟨hfilled.filling, FilledTo.filled hcs (s := s) ?_⟩
      rw [hcount]
      exact hfilled
    · rw [if_neg hsmall]
      refine spec_mono (spec_forEach_done
          (J := fun k t => FilledTo place chunkSize source.size source.content k s t) hstart
          fun k number t hk ht => ?_)
        (fun _ ht => ht) (fun _ t ht => ?_) fun _ _ he => he
      · obtain ⟨hlt, rfl⟩ := List.getElem?_eq_some_iff.mp hk
        rw [List.length_range] at hlt
        rw [List.getElem_range]
        exact spec_createChunk ((lt_chunkCount_iff hcs).mp hlt) ht
      · rw [List.length_range] at ht
        exact ⟨ht.filling, ht.filled hcs⟩

end

/-! ## From a chunked payload -/

section

variable {b : ℕ} {place : Place} {chunkSize size : ℕ} {s t disk : Disk b}
  {blake3 : List UInt8 → Digest}

theorem validateBaseChunks_ok (h : validateBaseChunks chunks chunkSize size = .ok ()) :
    chunks.length = chunkCount chunkSize size ∧ ∀ k chunk, chunks[k]? = some chunk →
      chunk.chunkNumber = k ∧
        chunk.size = expectedSize chunkSize size (chunkCount chunkSize size) k := by
  obtain ⟨hcond, h⟩ := else_of_ok h
  push Not at hcond
  obtain ⟨hlength, hall⟩ := hcond
  refine ⟨hlength, fun k chunk hk => ?_⟩
  have hmem : (chunk, k) ∈ chunks.zipIdx := List.mk_mem_zipIdx_iff_getElem?.mpr hk
  by_contra hne
  apply hall
  refine List.any_eq_true.mpr ⟨(chunk, k), hmem, decide_eq_true ?_⟩
  by_cases hnumber : chunk.chunkNumber = k
  · exact .inr fun hsize => hne ⟨hnumber, hsize⟩
  · exact .inl hnumber

theorem verifyFile_ok (h : verifyFile blake3 place name size digest disk = .ok ()) :
    ∃ f, disk.file place name = some f ∧ f.size = size := by
  obtain ⟨f, hf, h⟩ := bind_eq_ok h
  obtain ⟨hcond, h⟩ := else_of_ok h
  exact ⟨f, okOr_eq_ok hf, not_not.mp (not_or.mp hcond).1⟩

theorem verifyFile_congr (h : t.file place name = s.file place name) :
    verifyFile blake3 place name size digest t = verifyFile blake3 place name size digest s := by
  rw [verifyFile, verifyFile, openFile, openFile, h]

theorem spec_linkBaseChunk (hplace : place ≠ .chunks locator) (hcs : 0 < chunkSize)
    {chunk : CowBaseChunk} (hk : k < chunkCount chunkSize size) (hnumber : chunk.chunkNumber = k)
    (hsize : chunk.size = expectedSize chunkSize size (chunkCount chunkSize size) k)
    (ht : FilledTo place chunkSize size (chunkBytes (.chunks locator) chunkSize s) k s t) :
    Spec (linkBaseChunk blake3 locator place chunk) t (Filling place chunkSize size s)
      (fun _ u => FilledTo place chunkSize size
          (chunkBytes (.chunks locator) chunkSize s) (k + 1) s u ∧
        verifyFile blake3 (.chunks locator) (.part chunk.chunkNumber) chunk.size
          chunk.digest s = .ok ())
      (fun _ _ => verifyFile blake3 (.chunks locator) (.part chunk.chunkNumber) chunk.size
          chunk.digest s ≠ .ok ()) := by
  have hsame : t.file (.chunks locator) (.part chunk.chunkNumber) =
      s.file (.chunks locator) (.part chunk.chunkNumber) :=
    ht.filling.confined.file_eq fun heq => hplace heq.symm
  refine spec_checked (fun _ hok => ?_) fun e he hok => ?_
  · rw [verifyFile_congr hsame] at hok
    obtain ⟨f, hf, hfsize⟩ := verifyFile_ok hok
    subst hnumber
    rw [hsize, expectedSize_eq hcs hk] at hfsize
    obtain ⟨u, hu, hfilled⟩ := ht.hardLink ((lt_chunkCount_iff hcs).mp hk) (hsame.trans hf) hfsize
      fun x hx => by rw [chunkBytes_chunk hf (by omega)]
    exact spec_called (fsCall_eq hu) hfilled.filling ⟨hfilled, hok⟩
  · rw [verifyFile_congr hsame, hok] at he
    cases he

theorem spec_linkBaseChunks (hplace : place ≠ .chunks locator) (hcs : 0 < chunkSize)
    (hvalid : validateBaseChunks chunks chunkSize size = .ok ()) (hs : Vacant place s) :
    Spec (Proc.forEach chunks (linkBaseChunk blake3 locator place)) s
      (Filling place chunkSize size s)
      (fun _ t => (Filling place chunkSize size s t ∧ Filled place chunkSize size
          (chunkBytes (.chunks locator) chunkSize s) t) ∧
        ∀ chunk ∈ chunks, verifyFile blake3 (.chunks locator) (.part chunk.chunkNumber)
          chunk.size chunk.digest s = .ok ())
      (fun _ _ => ¬∀ chunk ∈ chunks, verifyFile blake3 (.chunks locator)
        (.part chunk.chunkNumber) chunk.size chunk.digest s = .ok ()) := by
  obtain ⟨hlength, hchunks⟩ := validateBaseChunks_ok hvalid
  refine spec_mono (spec_forEach_done (J := fun k t => FilledTo place chunkSize size
        (chunkBytes (.chunks locator) chunkSize s) k s t ∧
      ∀ chunk ∈ chunks.take k, verifyFile blake3 (.chunks locator)
        (.part chunk.chunkNumber) chunk.size chunk.digest s = .ok ()) ?_ ?_)
    (fun _ ht => ht) ?_ fun _ _ he => he
  · exact ⟨filledTo_zero hs, List.forall_mem_nil _⟩
  · rintro k chunk t hget ⟨ht, hdone⟩
    obtain ⟨hnumber, hsize⟩ := hchunks k chunk hget
    have hlt := (List.getElem?_eq_some_iff.mp hget).1
    refine spec_mono (spec_linkBaseChunk hplace hcs (hlength ▸ hlt) hnumber hsize ht)
      (fun _ hu => hu) (fun _ u hu => ⟨hu.1, ?_⟩) fun e u hbad hall => ?_
    · rw [List.take_add_one, hget]
      exact List.forall_mem_append.mpr ⟨hdone, List.forall_mem_singleton.mpr hu.2⟩
    · exact hbad (hall chunk (List.mem_of_getElem? hget))
  · rintro _ t ⟨ht, hdone⟩
    rw [List.take_length] at hdone
    exact ⟨⟨ht.filling, FilledTo.filled hcs (hlength ▸ ht)⟩, hdone⟩

end

/-! ## The base of a session -/

section

variable {b : ℕ} {blake3 : List UInt8 → Digest} {chunkSize : ℕ} {s t u : Disk b}

def baseBytes (payload : PayloadRecord) (chunkSize : ℕ) (disk : Disk b) : ℕ → UInt8 :=
  match payload.layout with
  | .whole => fun x =>
    (disk.file .whole (.object payload.locator)).elim 0 fun f => f.content x
  | .chunked => chunkBytes (.chunks payload.locator) chunkSize disk

/-- The files of a payload are as recorded. -/
def FilesReady (blake3 : List UInt8 → Digest) (chunkSize : ℕ) (payload : PayloadRecord)
    (baseChunks : List CowBaseChunk) (size : ℕ) (digest : Digest) (disk : Disk b) : Prop :=
  match payload.layout with
  | .whole =>
    verifyFile blake3 .whole (.object payload.locator) size digest disk = .ok ()
  | .chunked =>
    (disk.dir (.chunks payload.locator)).isSome ∧
    validateBaseChunks baseChunks chunkSize size = .ok () ∧
    ∀ chunk ∈ baseChunks, verifyFile blake3 (.chunks payload.locator)
      (.part chunk.chunkNumber) chunk.size chunk.digest disk = .ok ()

/-- The base is as recorded and not too large for the chunk names. -/
structure PayloadReady (blake3 : List UInt8 → Digest) (chunkSize : ℕ)
    (payload : PayloadRecord) (baseChunks : List CowBaseChunk) (size : ℕ)
    (digest : Digest) (disk : Disk b) : Prop where
  size_eq : toUnsigned payload.sizeBytes = some size
  digest_eq : payload.blake3 = some digest
  fits : size ≤ maxChunkCount * chunkSize
  files : FilesReady blake3 chunkSize payload baseChunks size digest disk
  digest : blake3 ((List.range size).map (baseBytes payload chunkSize disk)) = digest

def BaseReady (blake3 : List UInt8 → Digest) (chunkSize : ℕ)
    (basePayload : Option PayloadRecord) (baseChunks : List CowBaseChunk) (disk : Disk b) : Prop :=
  match basePayload with
  | none => baseChunks = []
  | some payload => ∃ size digest, PayloadReady blake3 chunkSize payload baseChunks size digest disk

theorem toNat_of_toUnsigned {value : ℤ} (h : toUnsigned value = some n) : value.toNat = n := by
  obtain ⟨-, h⟩ := Option.ite_none_right_eq_some.mp h
  exact Option.some.inj h

def baseFile (basePayload : Option PayloadRecord) (chunkSize : ℕ) (disk : Disk b) :
    SparseFile UInt8 1 :=
  match basePayload with
  | none => flatFile 0 fun _ => 0
  | some payload => flatFile payload.sizeBytes.toNat (baseBytes payload chunkSize disk)

theorem BaseReady.size_le (h : BaseReady blake3 chunkSize basePayload baseChunks s) :
    (baseFile basePayload chunkSize s).size ≤ maxChunkCount * chunkSize := by
  cases basePayload with
  | none => exact Nat.zero_le _
  | some payload =>
    obtain ⟨size, digest, hready⟩ := h
    change payload.sizeBytes.toNat ≤ _
    rw [toNat_of_toUnsigned hready.size_eq]
    exact hready.fits

def IsPayload : Place → Prop
  | .chunks _ | .whole => True
  | .cow _ | .init _ _ => False

structure SamePayloads (s t : Disk b) : Prop where
  file_eq : ∀ place x, IsPayload place → t.file place x = s.file place x
  present_eq : ∀ place, IsPayload place → (t.dir place).isSome = (s.dir place).isSome

theorem samePayloads_of_confined {E : Place → EntryName → Prop} (h : Confined E s t)
    (hE : ∀ place x, IsPayload place → ¬E place x) : SamePayloads s t where
  file_eq place x hplace := h.file_eq (hE place x hplace)
  present_eq place hplace := by
    rw [h.dir_eq place fun x => hE place x hplace]

section

variable (h : SamePayloads s t)
include h

theorem SamePayloads.trans (h' : SamePayloads t u) : SamePayloads s u where
  file_eq place x hplace := (h'.file_eq place x hplace).trans (h.file_eq place x hplace)
  present_eq place hplace := (h'.present_eq place hplace).trans (h.present_eq place hplace)

theorem SamePayloads.symm : SamePayloads t s where
  file_eq place x hplace := (h.file_eq place x hplace).symm
  present_eq place hplace := (h.present_eq place hplace).symm

theorem SamePayloads.baseBytes_eq (payload : PayloadRecord)
    (chunkSize : ℕ) : baseBytes payload chunkSize t = baseBytes payload chunkSize s := by
  unfold baseBytes
  split
  · rw [h.file_eq .whole _ trivial]
  · funext x
    rw [chunkBytes, chunkBytes, h.file_eq (.chunks _) _ trivial]

theorem SamePayloads.baseReady (hs : BaseReady blake3 chunkSize basePayload baseChunks s) :
    BaseReady blake3 chunkSize basePayload baseChunks t := by
  cases basePayload with
  | none => exact hs
  | some payload =>
    obtain ⟨size, digest, hready⟩ := hs
    refine ⟨size, digest, hready.size_eq, hready.digest_eq, hready.fits, ?_, ?_⟩
    · have hfiles := hready.files
      unfold FilesReady at hfiles ⊢
      split
      · next hlayout =>
        rw [hlayout] at hfiles
        rw [verifyFile_congr (h.file_eq .whole _ trivial)]
        exact hfiles
      · next hlayout =>
        rw [hlayout] at hfiles
        obtain ⟨hpresent, hvalid, hverified⟩ := hfiles
        refine ⟨by rw [h.present_eq (.chunks _) trivial]; exact hpresent, hvalid,
          fun chunk hmem => ?_⟩
        rw [verifyFile_congr (h.file_eq (.chunks _) _ trivial)]
        exact hverified chunk hmem
    · rw [h.baseBytes_eq]
      exact hready.digest

theorem SamePayloads.baseFile_eq (basePayload : Option PayloadRecord) (chunkSize : ℕ) :
    baseFile basePayload chunkSize t = baseFile basePayload chunkSize s := by
  cases basePayload with
  | none => rfl
  | some =>
    change flatFile _ _ = flatFile _ _
    rw [h.baseBytes_eq]

end

variable {place : Place}

theorem spec_fillCow (hplace : ¬IsPayload place) (hcs : 0 < chunkSize) (payload : PayloadRecord)
    (baseChunks : List CowBaseChunk) (size : ℕ) (digest : Digest) (hs : Vacant place s) :
    Spec (fillCow blake3 place chunkSize payload baseChunks size digest) s
      (Filling place chunkSize size s) (fun _ t => (Filling place chunkSize size s t ∧
          Filled place chunkSize size (baseBytes payload chunkSize s) t) ∧
        FilesReady blake3 chunkSize payload baseChunks size digest s)
      (fun _ _ => ¬FilesReady blake3 chunkSize payload baseChunks size digest s) := by
  unfold fillCow FilesReady baseBytes
  cases payload.layout with
  | whole =>
    refine spec_checked (fun _ hok => ?_) fun e he hok => ?_
    · obtain ⟨f, hf, rfl⟩ := verifyFile_ok hok
      refine spec_mono (spec_splitWholePayload _ hcs hf hs)
        (fun _ ht => ht) (fun _ t ht => ⟨?_, hok⟩) fun _ _ he => he.elim
      rw [hf]
      exact ht
    · rw [hok] at he
      cases he
  | chunked =>
    have hne : place ≠ .chunks payload.locator := fun heq => hplace (heq ▸ trivial)
    refine spec_checked (fun d hd => ?_) fun e he hready => ?_
    swap
    · obtain ⟨d, hd⟩ := Option.isSome_iff_exists.mp hready.1
      rw [verifyDirectory, hd] at he
      cases he
    have hbase : (s.dir (.chunks payload.locator)).isSome := by
      rw [okOr_eq_ok hd]
      rfl
    refine spec_checked (fun _ hvalid => ?_) fun e he hready => ?_
    · refine spec_mono (spec_linkBaseChunks hne hcs hvalid hs)
        (fun _ ht => ht) (fun _ t ht => ⟨ht.1, hbase, hvalid, ht.2⟩) ?_
      exact fun _ _ hbad hready => hbad hready.2.2
    · rw [hready.2.1] at he
      cases he

theorem syncCowFiles_eq (hpresent : (s.dir place).isSome) (hnames : ChunkNames place s) :
    syncCowFiles place s = .ok () := by
  obtain ⟨d, hd⟩ := Option.isSome_iff_exists.mp hpresent
  obtain ⟨numbers, hnumbers⟩ := exists_mapM_eq_ok fun l hl =>
    hnames l.name (lookup_isSome_of_link hd hl)
  rw [syncCowFiles, verifyDirectory, hd, okOr_some, ok_bind, hnumbers]
  rfl

theorem spec_initializePayload (hplace : ¬IsPayload place)
    (hcs : validateChunkSize chunkSize = .ok ()) {payload : PayloadRecord}
    (baseChunks : List CowBaseChunk) (hsize : toUnsigned payload.sizeBytes = some size)
    (hdigest : payload.blake3 = some digest) (hs : Vacant place s) :
    Spec (do
        fillCow blake3 place chunkSize payload baseChunks size digest
        Proc.check (syncCowFiles place)
        let manifest ← Proc.check (cowManifestIn blake3 place chunkSize size)
        Proc.require (manifest.logicalSize = size ∧ manifest.digest = digest) .corruptObject) s
      (fun t => BaseReady blake3 chunkSize (some payload) baseChunks s → ChunkNames place t)
      (fun _ t => BaseReady blake3 chunkSize (some payload) baseChunks s ∧
        (t.dir place).isSome ∧ ChunkNames place t ∧
        Filled place chunkSize (baseFile (some payload) chunkSize s).size
          (baseFile (some payload) chunkSize s).content t)
      (fun _ _ => ¬BaseReady blake3 chunkSize (some payload) baseChunks s) := by
  have hready : BaseReady blake3 chunkSize (some payload) baseChunks s →
      PayloadReady blake3 chunkSize payload baseChunks size digest s := by
    rintro ⟨size', digest', hready⟩
    obtain rfl := Option.some.inj (hready.size_eq.symm.trans hsize)
    obtain rfl := Option.some.inj (hready.digest_eq.symm.trans hdigest)
    exact hready
  have hbase : baseFile (some payload) chunkSize s =
      flatFile size (baseBytes payload chunkSize s) := by
    rw [baseFile, toNat_of_toUnsigned hsize]
  refine spec_bind (spec_mono
    (spec_fillCow hplace (pos_of_validate hcs) payload baseChunks size digest hs)
    (fun t ht h => ht.chunkNames (hready h).fits) (fun _ _ ht => ht)
    fun _ _ hbad h => hbad (hready h).files) ?_
  rintro _ t ⟨⟨hfilling, hfilled⟩, hfiles⟩
  -- the manifest is that of the base, if the base is not too large
  have hmanifest := fun hfits : size ≤ maxChunkCount * chunkSize =>
    cowManifestIn_eq blake3 hcs hfilling.present (hfilling.chunkNames hfits) hfilled.numbered hfits
  have hbytes : (List.range size).map (chunkBytes place chunkSize t) =
      (List.range size).map (baseBytes payload chunkSize s) :=
    List.map_congr_left fun x hx => (hfilled.bytes x (List.mem_range.mp hx)).symm
  refine spec_checked (fun _ _ => ?_) fun e he h => ?_
  swap
  · rw [syncCowFiles_eq hfilling.present (hfilling.chunkNames (hready h).fits)] at he
    cases he
  refine spec_checked (fun manifest hok => ?_) fun e he h => ?_
  swap
  · obtain ⟨manifest', hok', -⟩ := hmanifest (hready h).fits
    rw [hok'] at he
    cases he
  have hfits := cowManifestIn_ok hok
  obtain ⟨manifest', hok', hlogical, hdigest'⟩ := hmanifest hfits
  obtain rfl := Except.ok.inj (hok.symm.trans hok')
  rw [hbytes] at hdigest'
  refine spec_require (fun hsame => ?_) fun hne h => hne ⟨hlogical, ?_⟩
  · refine ⟨⟨size, digest, hsize, hdigest, hfits, hfiles, hdigest'.symm.trans hsame.2⟩,
      hfilling.present, hfilling.chunkNames hfits, ?_⟩
    rw [hbase]
    refine ⟨hfilled.numbered, fun x hx => ?_⟩
    rw [← hfilled.bytes x hx]
    exact if_pos hx
  · exact hdigest'.trans (hready h).digest

/-- The new directory is filled with the base exactly if the base is as recorded. -/
theorem spec_initializeCow (hplace : ¬IsPayload place) (hcs : validateChunkSize chunkSize = .ok ())
    (basePayload : Option PayloadRecord) (baseChunks : List CowBaseChunk) (hs : Vacant place s) :
    Spec (initializeCow blake3 place chunkSize basePayload baseChunks) s
      (fun t => BaseReady blake3 chunkSize basePayload baseChunks s → ChunkNames place t)
      (fun _ t => BaseReady blake3 chunkSize basePayload baseChunks s ∧
        (t.dir place).isSome ∧ ChunkNames place t ∧
        Filled place chunkSize (baseFile basePayload chunkSize s).size
          (baseFile basePayload chunkSize s).content t)
      (fun _ _ => ¬BaseReady blake3 chunkSize basePayload baseChunks s) := by
  cases basePayload with
  | none =>
    refine spec_require (fun hnil => ⟨hnil, hs.present, ?_, ?_⟩) fun hne => hne
    · intro x hx
      rw [hs.empty] at hx
      cases hx
    · refine ⟨⟨fun n f hf => ?_, fun n _ => Nat.zero_le _⟩, fun x hx =>
        absurd hx (Nat.not_lt_zero x)⟩
      rw [FileSystem.file, hs.empty] at hf
      cases hf
  | some =>
    refine spec_checked (fun size hsize => ?_) ?_
    swap
    · rintro e he ⟨size, digest, hready⟩
      rw [hready.size_eq] at he
      cases he
    refine spec_checked (fun digest hdigest => ?_) ?_
    · exact spec_initializePayload hplace hcs baseChunks (okOr_eq_ok hsize) (okOr_eq_ok hdigest) hs
    · rintro e he ⟨size, digest, hready⟩
      rw [hready.digest_eq] at he
      cases he

end

/-! ## The session directory -/

variable {b chunkSize : ℕ} {blake3 : List UInt8 → Digest} {session id : Uuid}
  {s t u : Disk b} {basePayload : Option PayloadRecord} {baseChunks : List CowBaseChunk} {r : Unit}

theorem OnlySession.samePayloads (h : OnlySession session s t) : SamePayloads s t := by
  apply samePayloads_of_confined h
  rintro place _ hplace (rfl | hinit)
  · exact hplace
  · cases place with
    | init => exact hplace
    | cow | chunks | whole => cases hinit

/-- No directory of the session is there. -/
structure Fresh (session : Uuid) (disk : Disk b) : Prop where
  cow : disk.dir (.cow session) = none
  init : ∀ place, isInitOf session place → disk.dir place = none

variable {place target : Place}

theorem lookup_of_dir_none (h : s.dir place = none) (x : EntryName) : s.lookup place x = none := by
  rw [FileSystem.lookup, h]
  rfl

theorem chunkNames_of_empty (h : ∀ x, s.lookup place x = none) : ChunkNames place s := by
  intro x hx
  rw [h] at hx
  cases hx

theorem chunkNames_of_dir_none (h : s.dir place = none) : ChunkNames place s :=
  chunkNames_of_empty (lookup_of_dir_none h)

/-- The states of `begin_cow_write`: the session is not there yet, or stands for the
base. -/
structure Beginning (blake3 : List UInt8 → Digest) (session : Uuid) (chunkSize : ℕ)
    (basePayload : Option PayloadRecord) (baseChunks : List CowBaseChunk)
    (s t : Disk b) : Prop where
  payloads : SamePayloads s t
  state : (t.dir (.cow session) = none ∧
      (BaseReady blake3 chunkSize basePayload baseChunks s → Tidy session t)) ∨
    (BaseReady blake3 chunkSize basePayload baseChunks s ∧ Tidy session t ∧
      Stands SameBytes session chunkSize (one_dvd chunkSize) (baseFile basePayload chunkSize s) t)

theorem tidy_of_init (hcow : t.dir (.cow session) = none)
    (hinit : ∀ place, isInitOf session place → ChunkNames place t) : Tidy session t where
  init := hinit
  cow x hx := by
    rw [lookup_of_dir_none hcow] at hx
    cases hx

/-- Changes in one initialization directory. -/
abbrev OnlyInit (session id : Uuid) (s t : Disk b) : Prop :=
  Confined (fun place _ => place = Place.init session id) s t

/-- A state in which one initialization directory is empty. -/
structure Started (session id : Uuid) (s t : Disk b) : Prop where
  confined : OnlyInit session id s t
  present : (t.dir (.init session id)).isSome
  empty : ∀ x, t.lookup (.init session id) x = none

theorem spec_createSecureDirectory (hs : Fresh session s) :
    Spec (createSecureDirectory (.init session id)) s
      (Started session id s) (fun _ => Started session id s) (fun _ _ => False) := by
  have hnone := hs.init (.init session id) (decide_eq_true rfl)
  apply spec_look_bind
  refine spec_onlyIf (fun _ => ?_) fun hpresent => ?_
  · obtain ⟨t, ht⟩ := exists_mkdir hnone
    have hdirs := mkdir_ok ht
    have hdir : t.dir (.init session id) = some Table.empty := by
      rw [hdirs.dir_eq, update_self]
    have hstarted : Started session id s t := by
      refine ⟨hdirs.confined (update_eq_or _ _ fun _ => rfl), by rw [hdir]; rfl, fun x => ?_⟩
      rw [FileSystem.lookup, hdir]
      rfl
    exact spec_called (fsCall_eq ht) hstarted hstarted
  · rw [hnone] at hpresent
    exact absurd rfl hpresent

theorem file_renameDir (h : FileSystem.renameDir place target s = .ok (r, t)) (hne : target ≠ place)
    (x : EntryName) : t.lookup target x = s.lookup place x ∧ t.file target x = s.file place x := by
  obtain ⟨d, hd, -, hdirs⟩ := renameDir_ok h
  have hdir : t.dir target = some d := by
    rw [hdirs.dir_eq, update_of_ne hne, update_self]
  have hlook : t.lookup target x = s.lookup place x := by
    rw [FileSystem.lookup, FileSystem.lookup, hdir, hd]
  refine ⟨hlook, ?_⟩
  rw [FileSystem.file, FileSystem.file, hlook, hdirs.inode_eq]

theorem stands_renameDir {file : SparseFile UInt8 1}
    (h : FileSystem.renameDir place (.cow session) s = .ok (r, t)) (hne : Place.cow session ≠ place)
    (hnames : ChunkNames place s) (hfilled : Filled place chunkSize file.size file.content s)
    (hflat : flatFile file.size file.content = file) :
    Stands SameBytes session chunkSize (one_dvd chunkSize) file t ∧ Clean session t := by
  have hpresent : (t.dir (.cow session)).isSome := by
    obtain ⟨d, -, -, hdirs⟩ := renameDir_ok h
    rw [hdirs.dir_eq, update_of_ne hne, update_self]
    rfl
  have hclean : Clean session t := by
    intro x hx
    rw [(file_renameDir h hne x).1] at hx
    exact hnames x hx
  have hnumbered : Numbered (.cow session) chunkSize file.size t := by
    constructor
    · intro n f hf
      rw [(file_renameDir h hne _).2] at hf
      exact hfilled.numbered.chunk n f hf
    · intro n hf
      rw [(file_renameDir h hne _).2] at hf
      exact hfilled.numbered.missing n hf
  refine ⟨?_, hclean⟩
  rw [← hflat]
  apply hnumbered.stands hpresent hclean.entries
  intro x hx
  rw [hfilled.bytes x hx, chunkBytes, chunkBytes, (file_renameDir h hne _).2]

theorem flatFile_baseFile (basePayload : Option PayloadRecord) (chunkSize : ℕ)
    (disk : Disk b) : flatFile (baseFile basePayload chunkSize disk).size
      (baseFile basePayload chunkSize disk).content = baseFile basePayload chunkSize disk := by
  have hflat : ∀ size content, flatFile (flatFile size content).size
      (flatFile size content).content = flatFile size content := by
    intro size content
    refine SparseFile.ext rfl (funext fun x => ?_) rfl
    change (if x < size then (if x < size then content x else 0) else 0) =
      if x < size then content x else 0
    split <;> rfl
  cases basePayload with
  | none => exact hflat _ _
  | some => exact hflat _ _

theorem OnlyInit.samePayloads (h : OnlyInit session id s t) : SamePayloads s t := by
  apply samePayloads_of_confined h
  rintro place x hplace rfl
  exact hplace

theorem OnlyInit.cow_eq_none (h : OnlyInit session id s t)
    (hs : s.dir (.cow session) = none) : t.dir (.cow session) = none := by
  rw [h.dir_eq (.cow session) fun _ heq => by cases heq]
  exact hs

/-- The new directory is filled in a state without other directories of the session. -/
theorem Fresh.beginning (hs : Fresh session s) (ht : OnlyInit session id s t)
    (hnames : BaseReady blake3 chunkSize basePayload baseChunks s →
      ChunkNames (.init session id) t) :
    Beginning blake3 session chunkSize basePayload baseChunks s t := by
  have hcow := ht.cow_eq_none hs.cow
  refine ⟨ht.samePayloads, .inl ⟨hcow, fun hready => tidy_of_init hcow ?_⟩⟩
  intro place hplace
  by_cases heq : place = .init session id
  · exact heq ▸ hnames hready
  · apply chunkNames_of_dir_none
    rw [ht.dir_eq place fun _ => heq]
    exact hs.init place hplace

theorem spec_initializeOrRemove (hcs : validateChunkSize chunkSize = .ok ())
    (basePayload : Option PayloadRecord) (baseChunks : List CowBaseChunk)
    (hs : Fresh session s) (ht : Started session id s t) :
    Spec (Proc.onError (initializeCow blake3 (.init session id) chunkSize basePayload baseChunks)
        fun error => do
          removeCowDirectory (.init session id)
          Proc.fail error) t
      (Beginning blake3 session chunkSize basePayload baseChunks s)
      (fun _ u => OnlyInit session id s u ∧ BaseReady blake3 chunkSize basePayload baseChunks s ∧
        (u.dir (.init session id)).isSome ∧ ChunkNames (.init session id) u ∧
        Filled (.init session id) chunkSize (baseFile basePayload chunkSize s).size
          (baseFile basePayload chunkSize s).content u)
      (fun _ u => ¬BaseReady blake3 chunkSize basePayload baseChunks s ∧
        SamePayloads s u ∧ u.dir (.cow session) = none) := by
  have hst := ht.confined.samePayloads
  have hready : BaseReady blake3 chunkSize basePayload baseChunks s ↔
      BaseReady blake3 chunkSize basePayload baseChunks t :=
    ⟨hst.baseReady, hst.symm.baseReady⟩
  have hplace : ¬IsPayload (.init session id) := fun h => h
  have hkeeps : Keeps (OnlyInit session id t)
      (initializeCow blake3 (.init session id) chunkSize basePayload baseChunks) :=
    keeps_initializeCow blake3 (fun _ => rfl) chunkSize basePayload baseChunks
  refine spec_onError (E := fun _ u =>
      ¬BaseReady blake3 chunkSize basePayload baseChunks s ∧ OnlyInit session id s u)
    (spec_mono (spec_and (spec_initializeCow hplace hcs basePayload baseChunks
      ⟨ht.present, ht.empty⟩)
      (hkeeps t (Confined.refl t))) ?_ ?_ ?_) ?_
  · rintro u ⟨hnames, hu⟩
    exact hs.beginning (ht.confined.trans hu) fun h => hnames (hready.mp h)
  · rintro _ u ⟨⟨hbase, hpresent, hnames, hfilled⟩, hu⟩
    rw [hst.baseFile_eq] at hfilled
    exact ⟨ht.confined.trans hu, hready.mpr hbase, hpresent, hnames, hfilled⟩
  · rintro _ u ⟨hbase, hu⟩
    exact ⟨fun h => hbase (hready.mp h), ht.confined.trans hu⟩
  · rintro e u ⟨hbase, hu⟩
    have hremove : Keeps (OnlyInit session id s)
        (removeCowDirectory (.init session id)) := keeps_removeDirectory _ fun _ => rfl
    refine spec_bind (spec_mono (hremove u hu) ?_ (fun _ _ hv => hv) ?_) ?_
    · exact fun v hv => hs.beginning hv fun h => absurd h hbase
    · exact fun _ v hv => ⟨hbase, hv.samePayloads, hv.cow_eq_none hs.cow⟩
    · exact fun _ v hv =>
        spec_fail ⟨hbase, hv.samePayloads, hv.cow_eq_none hs.cow⟩

theorem Fresh.tidy (h : Fresh session s) : Tidy session s :=
  tidy_of_init h.cow fun place hplace => chunkNames_of_dir_none (h.init place hplace)

theorem Pruned.cow_eq_none (h : Pruned session s t) (hs : s.dir (.cow session) = none) :
    t.dir (.cow session) = none := by
  have hpresent := h.present_eq
  rw [hs] at hpresent
  exact Option.isSome_eq_false_iff.mp hpresent |> Option.isNone_iff_eq_none.mp

theorem dir_init_renameDir (hs : Fresh session s) (ht : OnlyInit session id s t)
    (h : FileSystem.renameDir (.init session id) (.cow session) t = .ok (r, u))
    (place : Place) (hplace : isInitOf session place) : u.dir place = none := by
  obtain ⟨d, -, -, hdirs⟩ := renameDir_ok h
  have hcow : place ≠ .cow session := by
    rintro rfl
    cases hplace
  rw [hdirs.dir_eq]
  by_cases heq : place = .init session id
  · rw [heq, update_self]
  · rw [update_of_ne heq, update_of_ne hcow, ht.dir_eq place fun _ => heq]
    exact hs.init place hplace

/-- `begin_cow_write` from a state without directories of the session. -/
theorem spec_beginCowWrite (hcs : validateChunkSize chunkSize = .ok ())
    (basePayload : Option PayloadRecord) (baseChunks : List CowBaseChunk) (hs : Fresh session s) :
    Spec (beginCowWrite blake3 session id chunkSize basePayload baseChunks) s
      (Beginning blake3 session chunkSize basePayload baseChunks s)
      (fun _ t => SamePayloads s t ∧ BaseReady blake3 chunkSize basePayload baseChunks s ∧
        Stands SameBytes session chunkSize (one_dvd chunkSize)
          (baseFile basePayload chunkSize s) t ∧ Clean session t ∧ Tidy session t)
      (fun _ t => ¬BaseReady blake3 chunkSize basePayload baseChunks s ∧
        SamePayloads s t ∧ t.dir (.cow session) = none) := by
  apply spec_check_bind (f := fun _ => validateChunkSize chunkSize) hcs
  refine spec_bind (P := fun _ t => SamePayloads s t ∧ Fresh session t)
    (spec_mono (spec_recoverCowUnderLock session s) ?_ ?_ ?_) ?_
  · intro t ht
    exact ⟨ht.confined.samePayloads, .inl ⟨ht.cow_eq_none hs.cow, fun _ =>
      ht.tidy hs.tidy⟩⟩
  · rintro _ t ⟨ht, -, -, hinits⟩
    exact ⟨ht.confined.samePayloads, ht.cow_eq_none hs.cow, hinits⟩
  · exact fun _ _ he => absurd hs.tidy he.2
  rintro _ t ⟨hst, ht⟩
  have hready : BaseReady blake3 chunkSize basePayload baseChunks t ↔
      BaseReady blake3 chunkSize basePayload baseChunks s :=
    ⟨hst.symm.baseReady, hst.baseReady⟩
  -- the states are described by `t`, which has the same payloads
  have hback : ∀ u, Beginning blake3 session chunkSize basePayload baseChunks t u →
      Beginning blake3 session chunkSize basePayload baseChunks s u := by
    rintro u ⟨hpayloads, hstate⟩
    rw [hst.baseFile_eq, hready] at hstate
    exact ⟨hst.trans hpayloads, hstate⟩
  apply spec_look_bind
  apply spec_require_bind (by rw [ht.cow]; rfl)
  refine spec_bind (spec_mono (spec_createSecureDirectory ht) ?_
    (fun _ _ hu => hu) fun _ _ he => he.elim) ?_
  · intro u hu
    exact hback u (ht.beginning hu.confined fun _ => chunkNames_of_empty hu.empty)
  intro _ u hu
  refine spec_bind (spec_mono
    (spec_initializeOrRemove hcs basePayload baseChunks ht hu) hback (fun _ _ hv => hv)
    fun _ v hv => ⟨fun h => hv.1 (hready.mpr h), hst.trans hv.2.1, hv.2.2⟩) ?_
  rintro _ v ⟨hv, hbase, hpresent, hnames, hfilled⟩
  have hcow := hv.cow_eq_none ht.cow
  obtain ⟨d, hd⟩ := Option.isSome_iff_exists.mp hpresent
  obtain ⟨w, hrename⟩ := exists_renameDir hd hcow
  obtain ⟨hstands, hclean⟩ := stands_renameDir hrename (by rintro ⟨⟩) hnames hfilled
    (flatFile_baseFile _ _ _)
  have hinit : isInitOf session (.init session id) := decide_eq_true rfl
  have honly : OnlySession session v w :=
    confined_renameDir (fun _ => .inr hinit) (fun _ => .inl rfl) hrename
  have hpayloads := (hst.trans hv.samePayloads).trans honly.samePayloads
  have htidy : Tidy session w := by
    refine ⟨fun place hplace => chunkNames_of_dir_none
      (dir_init_renameDir ht hv hrename place hplace), fun x hx => ?_⟩
    obtain ⟨n, hn⟩ := hclean x hx
    exact ⟨n, parse_entry hn⟩
  rw [hst.baseFile_eq] at hstands
  have hbase' := hready.mp hbase
  exact spec_called (fsCall_eq hrename) ⟨hpayloads, .inr ⟨hbase', htidy, hstands⟩⟩
    ⟨hpayloads, hbase', hstands, hclean, htidy⟩

end FileBelt.Cow
