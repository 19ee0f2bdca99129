import FileBelt.Cow.Sizes

/-!
# The manifest of a session

`cow_manifest_in` reads the chunks of a directory in order.  For the chunks of a
file its digest is the digest of the bytes of the file.
-/

namespace FileBelt.Cow

open Support Write

variable {b n : ℕ} {disk : Disk b} {place : Place} {chunkSize size : ℕ}
  {blake3 : List UInt8 → Digest}

theorem expectedSize_eq (hcs : 0 < chunkSize) (hn : n < chunkCount chunkSize size) :
    expectedSize chunkSize size (chunkCount chunkSize size) n =
      min chunkSize (size - n * chunkSize) := by
  have hnext : (n + 1) * chunkSize = n * chunkSize + chunkSize := by
    rw [Nat.add_mul, Nat.one_mul]
  rw [expectedSize]
  by_cases hlast : n + 1 = chunkCount chunkSize size
  · have hall := le_chunkCount_mul hcs size
    rw [← hlast] at hall
    rw [if_pos hlast]
    omega
  · have hmore := (lt_chunkCount_iff hcs).mp (show n + 1 < chunkCount chunkSize size by omega)
    rw [if_neg hlast]
    omega

theorem flatMap_pieces (hcs : 0 < chunkSize) (g : ℕ → UInt8) (size : ℕ) :
    (List.range (chunkCount chunkSize size)).flatMap (fun n =>
      (List.range (min chunkSize (size - n * chunkSize))).map fun i =>
        g (n * chunkSize + i)) = (List.range size).map g := by
  have hpart : ∀ k, (List.range k).flatMap (fun n =>
      (List.range (min chunkSize (size - n * chunkSize))).map fun i =>
        g (n * chunkSize + i)) = (List.range (min size (k * chunkSize))).map g := by
    intro k
    induction k with
    | zero => rw [Nat.zero_mul, Nat.min_zero, List.range_zero, List.flatMap_nil, List.map_nil]
    | succ k ih =>
      have hnext : (k + 1) * chunkSize = k * chunkSize + chunkSize := by
        rw [Nat.add_mul, Nat.one_mul]
      rw [List.range_succ, List.flatMap_append, ih, List.flatMap_singleton]
      by_cases hk : k * chunkSize < size
      · have hsplit : min size ((k + 1) * chunkSize) =
            k * chunkSize + min chunkSize (size - k * chunkSize) := by omega
        rw [hsplit, List.range_add, List.map_append, List.map_map, min_eq_right hk.le]
        rfl
      · have hnothing : min chunkSize (size - k * chunkSize) = 0 := by omega
        rw [hnothing, List.range_zero, List.map_nil, List.append_nil,
          min_eq_left (by omega), min_eq_left (by omega)]
  rw [hpart, min_eq_left (le_chunkCount_mul hcs size)]

theorem fileBytes_eq (f : SparseFile UInt8 b) :
    fileBytes f = (List.range f.size).map f.content := by
  refine List.map_congr_left fun i _ => ?_
  rw [Nat.zero_add]

theorem Numbered.manifestChunk_eq (h : Numbered place chunkSize size disk) (hcs : 0 < chunkSize)
    (hn : n < chunkCount chunkSize size) :
    manifestChunk place chunkSize size (chunkCount chunkSize size) disk n =
      .ok ((List.range (min chunkSize (size - n * chunkSize))).map fun i =>
        chunkBytes place chunkSize disk (n * chunkSize + i)) := by
  have hinside := (lt_chunkCount_iff hcs).mp hn
  cases hf : disk.file place (.part n) with
  | none => exact absurd (h.missing n hf) (Nat.not_le.mpr hinside)
  | some f =>
    obtain ⟨-, hsize⟩ := h.chunk n f hf
    rw [manifestChunk, openFile, hf, okOr_some, ok_bind, expectedSize_eq hcs hn,
      if_neg (not_not.mpr hsize), fileBytes_eq, hsize]
    congr 1
    refine List.map_congr_left fun i hi => ?_
    have hlt := List.mem_range.mp hi
    exact (chunkBytes_chunk hf (by omega)).symm

theorem mapM_of_forall_ok {ε α β : Type} {f : α → Except ε β} {g : α → β} {xs : List α}
    (h : ∀ x ∈ xs, f x = .ok (g x)) : xs.mapM f = .ok (xs.map g) := by
  induction xs with
  | nil => rfl
  | cons x xs ih =>
    rw [List.mapM_cons, h x List.mem_cons_self, ih fun y hy => h y (List.mem_cons_of_mem x hy)]
    rfl

theorem Numbered.rows_length (h : Numbered place chunkSize size disk)
    (hcs : 0 < chunkSize) (hnames : ChunkNames place disk) {d : Directory EntryName}
    (hd : disk.dir place = some d) : d.rows.length = chunkCount chunkSize size := by
  obtain ⟨_, hchunks⟩ := hnames.exists_mapM hd
  have hsorted := insertionSort_chunks (nodup_chunks hchunks) (h.mem_chunks hcs hd hchunks)
  have hlength := congrArg List.length hsorted
  rw [List.length_insertionSort, chunkList, List.length_map, List.length_range] at hlength
  rw [(mapM_eq_ok hchunks).length_eq, hlength]

theorem cowManifestIn_eq (blake3 : List UInt8 → Digest) (hcs : validateChunkSize chunkSize = .ok ())
    (hpresent : (disk.dir place).isSome) (hnames : ChunkNames place disk)
    (h : Numbered place chunkSize size disk) (hsize : size ≤ maxChunkCount * chunkSize) :
    ∃ manifest, cowManifestIn blake3 place chunkSize size disk = .ok manifest ∧
      manifest.logicalSize = size ∧ manifest.digest =
        blake3 ((List.range size).map (chunkBytes place chunkSize disk)) := by
  have hpositive := pos_of_validate hcs
  obtain ⟨_, hd⟩ := Option.isSome_iff_exists.mp hpresent
  have hcount : ¬maxChunkCount < chunkCount chunkSize size := fun hlt =>
    absurd ((lt_chunkCount_iff hpositive).mp hlt) (Nat.not_lt.mpr hsize)
  have hread : ∀ n ∈ List.range (chunkCount chunkSize size), manifestChunk place chunkSize
      size (chunkCount chunkSize size) disk n = .ok _ := fun n hn =>
    h.manifestChunk_eq hpositive (List.mem_range.mp hn)
  have hchunks := mapM_of_forall_ok hread
  rw [cowManifestIn, hcs, ok_bind, verifyDirectory, hd, okOr_some, ok_bind]
  rw [if_neg hcount, if_neg (not_not.mpr (h.rows_length hpositive hnames hd)), hchunks]
  refine ⟨_, rfl, rfl, ?_⟩
  rw [← List.flatMap_def, flatMap_pieces hpositive]

/-- A manifest is only made of a file that the chunk names can express. -/
theorem cowManifestIn_ok {manifest : CowManifest}
    (h : cowManifestIn blake3 place chunkSize size disk = .ok manifest) :
    size ≤ maxChunkCount * chunkSize := by
  obtain ⟨⟨⟩, hcs, h⟩ := bind_eq_ok h
  obtain ⟨_, -, h⟩ := bind_eq_ok h
  have hpositive := pos_of_validate hcs
  obtain ⟨hcount, h⟩ := else_of_ok h
  by_contra hlarge
  exact hcount ((lt_chunkCount_iff hpositive).mpr (Nat.lt_of_not_le hlarge))

end FileBelt.Cow
