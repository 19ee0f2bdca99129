import FileBelt.Cow.Chunks
import FileBelt.Cow.Worker

/-!
# Range operations on the file of a session

The loops over the chunks of a range act on the file that the chunks stand for as
one write, extension, allocation or hole punch.  Every state on the way stands
for the file after a part of the range.
-/

namespace FileBelt.Cow

open Support Support.Proc Support.FileSystem Support.SparseFile Write

/-- What an iteration at `pos` takes of a range. -/
def pieceLength (chunkSize offset length pos : ℕ) : ℕ :=
  min (length - pos) (chunkSize - (offset + pos) % chunkSize)

/-- The positions at which an iteration starts or the loop ends. -/
def Border (chunkSize offset length pos : ℕ) : Prop :=
  pos ≤ length ∧ (pos = 0 ∨ chunkSize ∣ offset + pos ∨ pos = length)

/-- `loop` changes the chunks of a range one by one. -/
structure RangeLoop {b : ℕ} (session operation : Uuid) (chunkSize offset length : ℕ)
    (edits : ℕ → List FileEdit) (loop : ℕ → Operation b Unit) : Prop where
  step : ∀ pos, pos < length → loop pos = (do
    replaceChunk session operation ((offset + pos) / chunkSize) (edits pos)
    loop (pos + pieceLength chunkSize offset length pos))
  done : loop length = pure ()

section

variable {chunkSize offset length pos : ℕ}

theorem pieceLength_pos (offset : ℕ) (hcs : 0 < chunkSize) (hpos : pos < length) :
    0 < pieceLength chunkSize offset length pos := by
  have hmod := Nat.mod_lt (offset + pos) hcs
  rw [pieceLength]
  omega

theorem within_add_pieceLength (offset length pos : ℕ) (hcs : 0 < chunkSize) :
    (offset + pos) % chunkSize + pieceLength chunkSize offset length pos ≤ chunkSize := by
  have hmod := Nat.mod_lt (offset + pos) hcs
  rw [pieceLength]
  omega

theorem border_next (offset : ℕ) (hcs : 0 < chunkSize) (hpos : pos < length) :
    Border chunkSize offset length (pos + pieceLength chunkSize offset length pos) := by
  have hmod := Nat.mod_lt (offset + pos) hcs
  rw [pieceLength]
  by_cases hlast : length - pos ≤ chunkSize - (offset + pos) % chunkSize
  · exact ⟨by omega, .inr (.inr (by omega))⟩
  · refine ⟨by omega, .inr (.inl ?_)⟩
    have hdiv := Nat.div_add_mod (offset + pos) chunkSize
    refine ⟨(offset + pos) / chunkSize + 1, ?_⟩
    rw [Nat.mul_add]
    omega

variable {b c : ℕ} {R : SparseFile UInt8 b → SparseFile UInt8 c → Prop}
  {session operation : Uuid} {hc : c ∣ chunkSize} {edits : ℕ → List FileEdit}
  {loop : ℕ → Operation b Unit}

/-- The loop from `pos` on; `T pos` is the file after the range up to `pos`.  It fails where
the range reaches the limit of the chunk names. -/
theorem RangeLoop.spec (hR : Simulation R)
    (hloop : RangeLoop session operation chunkSize offset length edits loop)
    (hcs : 0 < chunkSize) {T : ℕ → SparseFile UInt8 c}
    (hT : ∀ pos, pos < length → Border chunkSize offset length pos →
      Exchanged chunkSize hc ((offset + pos) / chunkSize) (edits pos) (T pos)
        (T (pos + pieceLength chunkSize offset length pos)))
    (hborder : Border chunkSize offset length pos)
    (hlimit : offset + pos ≤ maxChunkCount * chunkSize) {s : Disk b}
    (hs : Stands R session chunkSize hc (T pos) s) (hclean : Clean session s) :
    Spec (loop pos) s (fun t => OnlyCow session s t ∧ ∃ pos', Border chunkSize offset length pos' ∧
        offset + pos' ≤ maxChunkCount * chunkSize ∧ Stands R session chunkSize hc (T pos') t)
      (fun _ t => offset + length ≤ maxChunkCount * chunkSize ∧ OnlyCow session s t ∧
        Stands R session chunkSize hc (T length) t ∧ Clean session t)
      (fun _ t => maxChunkCount * chunkSize < offset + length ∧ OnlyCow session s t ∧
        Stands R session chunkSize hc (T (maxChunkCount * chunkSize - offset)) t) := by
  -- the induction is on what is left of the range
  induction hleft : length - pos using Nat.strong_induction_on generalizing pos s with
  | h left ih =>
    by_cases hpos : pos < length
    · have hnext := border_next offset hcs hpos
      have hprogress := pieceLength_pos offset hcs hpos
      rw [hloop.step pos hpos]
      by_cases hnumber : (offset + pos) / chunkSize < maxChunkCount
      · have hnextLimit : offset + (pos + pieceLength chunkSize offset length pos) ≤
            maxChunkCount * chunkSize := by
          have hpiece := within_add_pieceLength offset length pos hcs
          have hdiv := Nat.div_add_mod' (offset + pos) chunkSize
          have hmul := Nat.mul_le_mul_right chunkSize (Nat.succ_le_of_lt hnumber)
          rw [Nat.succ_mul] at hmul
          omega
        refine spec_bind (spec_mono
          (spec_replaceChunk hR operation hnumber (hT pos hpos hborder) hs hclean)
          ?_ (fun _ _ ht => ht) (fun _ _ he => he.elim)) ?_
        · rintro t ⟨hconfined, hbefore | hafter⟩
          · exact ⟨hconfined, pos, hborder, hlimit, hbefore⟩
          · exact ⟨hconfined, _, hnext, hnextLimit, hafter⟩
        · rintro _ t ⟨hconfined, hafter, hclean'⟩
          refine spec_mono (ih _ (by omega) hnext hnextLimit hafter hclean' rfl) ?_ ?_ ?_
          · rintro u ⟨hconfined', hstands⟩
            exact ⟨hconfined.trans hconfined', hstands⟩
          · rintro _ u ⟨hfits, hconfined', hdone⟩
            exact ⟨hfits, hconfined.trans hconfined', hdone⟩
          · rintro _ u ⟨hlarge, hconfined', hdone⟩
            exact ⟨hlarge, hconfined.trans hconfined', hdone⟩
      · have hend : pos = maxChunkCount * chunkSize - offset ∧
            maxChunkCount * chunkSize < offset + length := by
          have hmul := Nat.mul_le_mul_right chunkSize (Nat.le_of_not_lt hnumber)
          have hdiv := Nat.div_mul_le_self (offset + pos) chunkSize
          omega
        refine spec_bind (spec_mono
          (spec_replaceChunk_limit session operation hnumber (edits pos) s)
          (fun _ ht => ht.elim) (fun _ _ ht => ht) ?_) fun _ _ ht => ht.elim
        rintro _ _ rfl
        exact ⟨hend.2, Confined.refl s, hend.1 ▸ hs⟩
    · have hend : pos = length := by
        have hle := hborder.1
        omega
      subst hend
      rw [hloop.done]
      exact spec_pure ⟨hlimit, Confined.refl s, hs, hclean⟩

end

section

variable {b : ℕ} (session operation : Uuid) (chunkSize offset : ℕ)

theorem rangeLoop_write (hcs : 0 < chunkSize) (bytes : List UInt8) :
    RangeLoop (b := b) session operation chunkSize offset bytes.length
      (fun pos => [.pad ((offset + pos) % chunkSize), .write ((offset + pos) % chunkSize)
          ((bytes.drop pos).take (pieceLength chunkSize offset bytes.length pos))])
      (fun pos => writeCowRange session operation chunkSize (offset + pos) (bytes.drop pos)) where
  step pos hpos := by
    have hlength : 0 < (bytes.drop pos).length := by
      rw [List.length_drop]
      omega
    rw [writeCowRange, dif_pos ⟨hlength, hcs⟩]
    simp only [List.length_drop, List.drop_drop, pieceLength, Nat.add_assoc]
  done := by
    rw [List.drop_length, writeCowRange, dif_neg fun h => absurd h.1 (Nat.lt_irrefl 0)]

theorem rangeLoop_extend (hcs : 0 < chunkSize) (length : ℕ) :
    RangeLoop (b := b) session operation chunkSize offset length
      (fun pos => [.pad ((offset + pos) % chunkSize + pieceLength chunkSize offset length pos)])
      (fun pos => extendCowWithHoles session operation chunkSize (offset + pos)
        (length - pos)) where
  step pos hpos := by
    rw [extendCowWithHoles, dif_pos ⟨Nat.sub_pos_of_lt hpos, hcs⟩]
    simp only [pieceLength, Nat.add_assoc, Nat.sub_sub]
  done := by
    rw [Nat.sub_self, extendCowWithHoles, dif_neg fun h => absurd h.1 (Nat.lt_irrefl 0)]

theorem rangeLoop_forEach (hcs : 0 < chunkSize) (edits : ℕ → ℕ → List FileEdit) (length : ℕ) :
    RangeLoop (b := b) session operation chunkSize offset length
      (fun pos => edits ((offset + pos) % chunkSize) (pieceLength chunkSize offset length pos))
      (fun pos => forEachCowRange session operation chunkSize edits (offset + pos)
        (length - pos)) where
  step pos hpos := by
    rw [forEachCowRange, dif_pos ⟨Nat.sub_pos_of_lt hpos, hcs⟩]
    simp only [pieceLength, Nat.add_assoc, Nat.sub_sub]
  done := by
    rw [Nat.sub_self, forEachCowRange, dif_neg fun h => absurd h.1 (Nat.lt_irrefl 0)]

end

section

variable {c chunkSize : ℕ} (hc : c ∣ chunkSize) {file file' : SparseFile UInt8 c} {n w o l : ℕ}
  (heq : n * chunkSize + w = o)
include heq

/-- A file that grows by a piece of chunk `n` at most. -/
theorem exchanged_grown {edits : List FileEdit} (hsize : file'.size = max file.size (o + l))
    (ho : o ≤ file.size) (hpos : 0 < l) (hlength : w + l ≤ chunkSize)
    (hself : file'.chunk chunkSize hc n = edits.foldl FileEdit.apply (file.chunk chunkSize hc n))
    (hother : ∀ j, j ≠ n → file'.chunk chunkSize hc j = file.chunk chunkSize hc j) :
    Exchanged chunkSize hc n edits file file' := by
  refine ⟨hself, by omega, hother, fun j hj => ?_⟩
  rcases chunk_apart (c := chunkSize) hj with hbefore | hafter <;> omega

theorem exchanged_write {bytes : List UInt8} (ho : o ≤ file.size)
    (hpos : 0 < bytes.length) (hlength : w + bytes.length ≤ chunkSize) :
    Exchanged chunkSize hc n [.pad w, .write w bytes] file (file.write o bytes) := by
  subst heq
  refine exchanged_grown hc rfl (if_neg (by omega)) ho hpos hlength ?_ fun j hj =>
    chunk_write_other hc hj hlength ho
  have hpad : (file.chunk chunkSize hc n).padTo w = file.chunk chunkSize hc n := by
    apply padTo_of_le
    change w ≤ min chunkSize (file.size - n * chunkSize)
    omega
  change _ = ((file.chunk chunkSize hc n).padTo w).write w bytes
  rw [chunk_write_self hc hlength ho, hpad]

theorem exchanged_allocate (ho : o ≤ file.size) (hpos : 0 < l) (hlength : w + l ≤ chunkSize) :
    Exchanged chunkSize hc n [.pad (w + l), .allocate w l] file (file.allocate o l) := by
  subst heq
  refine exchanged_grown hc rfl (if_neg (by omega)) ho hpos hlength ?_ fun j hj =>
    chunk_allocate_other hc hj hlength ho
  change _ = ((file.chunk chunkSize hc n).padTo (w + l)).allocate w l
  rw [chunk_allocate_self hc hlength ho, allocate_padTo hpos]

theorem exchanged_pad (ho : file.size = o) (hpos : 0 < l) (hlength : w + l ≤ chunkSize) :
    Exchanged chunkSize hc n [.pad (w + l)] file (file.padTo (o + l)) := by
  have hsize : n * chunkSize ≤ file.size := by omega
  refine exchanged_grown hc heq padTo_size ho.ge hpos hlength ?_ fun j hj => ?_
  · rw [← heq, Nat.add_assoc]
    exact chunk_padTo_self hc hlength hsize
  · rw [← heq, Nat.add_assoc]
    exact chunk_padTo_other hc hj hlength hsize

theorem exchanged_punch (ho : o < file.size) (hlength : w + l ≤ chunkSize) :
    Exchanged chunkSize hc n [.punch w l] file (file.punch o l) := by
  subst heq
  exact ⟨chunk_punch_self hc, (Nat.le_add_right _ _).trans_lt ho,
    fun j hj => chunk_punch_other hc hj hlength, fun _ _ => Iff.rfl⟩

end

/-! ## Range operations -/

def applied {c : ℕ} (operation : MountWriteRangeOperation) (start length : ℕ)
    (bytes : List UInt8) (file : SparseFile UInt8 c) : SparseFile UInt8 c :=
  match operation with
  | .writeData => (file.padTo start).write start bytes
  | .allocate => (file.padTo start).allocate start length
  | .holeDeallocate => file.punch start (min (start + length) file.size - start)
  | .seekData | .seekHole => file

def RangeChecked (operation : MountWriteRangeOperation) (start length : ℕ) : Prop :=
  match operation with
  | .writeData => start + length < 2 ^ 64
  | .allocate | .holeDeallocate => 0 < length ∧ start + length < 2 ^ 64
  | .seekData | .seekHole => False

instance : ∀ operation start length, Decidable (RangeChecked operation start length)
  | .writeData, start, length => inferInstanceAs (Decidable (start + length < 2 ^ 64))
  | .allocate, start, length | .holeDeallocate, start, length =>
    inferInstanceAs (Decidable (0 < length ∧ start + length < 2 ^ 64))
  | .seekData, _, _ | .seekHole, _, _ => inferInstanceAs (Decidable False)

/-- The ranges that the chunk names and the machine integers can express. -/
def RangeValid (operation : MountWriteRangeOperation) (chunkSize start length : ℕ) : Prop :=
  match operation with
  | .writeData => start + length ≤ maxChunkCount * chunkSize
  | .allocate => 0 < length ∧ start + length ≤ maxChunkCount * chunkSize
  | .holeDeallocate => 0 < length ∧ start + length < 2 ^ 64
  | .seekData | .seekHole => False

/-- What an operation leaves: the range below the limit of the chunk names is changed. -/
def settled {c : ℕ} (operation : MountWriteRangeOperation) (chunkSize start length : ℕ)
    (bytes : List UInt8) (file : SparseFile UInt8 c) : SparseFile UInt8 c :=
  let limit := maxChunkCount * chunkSize
  if RangeChecked operation start length then
    match operation with
    | .writeData =>
      applied .writeData (min start limit) length (bytes.take (limit - start)) file
    | .allocate =>
      applied .allocate (min start limit) (min length (limit - start)) bytes file
    | .holeDeallocate => applied .holeDeallocate start length bytes file
    | .seekData | .seekHole => file
  else file

/-- A stop in a range operation leaves a file from which the operation leads to the
same end. -/
def Halfway {c : ℕ} (operation : MountWriteRangeOperation) (chunkSize start length : ℕ)
    (bytes : List UInt8) (file half : SparseFile UInt8 c) : Prop :=
  settled operation chunkSize start length bytes half =
    settled operation chunkSize start length bytes file

section

variable {c : ℕ} {file : SparseFile UInt8 c} {chunkSize start length pos : ℕ}
  {bytes : List UInt8} {operation : MountWriteRangeOperation}

theorem RangeValid.checked (hcs : validateChunkSize chunkSize = .ok ())
    (h : RangeValid operation chunkSize start length) : RangeChecked operation start length := by
  have hlimit := limit_lt hcs
  cases operation with
  | writeData => exact Nat.lt_of_le_of_lt h hlimit
  | allocate => exact ⟨h.1, Nat.lt_of_le_of_lt h.2 hlimit⟩
  | holeDeallocate => exact h
  | seekData => exact h
  | seekHole => exact h

theorem settled_of_not_checked (h : ¬RangeChecked operation start length) :
    settled operation chunkSize start length bytes file = file :=
  if_neg h

theorem settled_grown (hgrows : operation.extends) (h : RangeChecked operation start length) :
    settled operation chunkSize start length bytes file =
      applied operation (min start (maxChunkCount * chunkSize))
        (min length (maxChunkCount * chunkSize - start))
        (bytes.take (maxChunkCount * chunkSize - start)) file := by
  cases operation with
  | writeData | allocate => exact if_pos h
  | _ => cases hgrows

theorem settled_deallocate (h : RangeChecked .holeDeallocate start length) :
    settled .holeDeallocate chunkSize start length bytes file =
      applied .holeDeallocate start length bytes file :=
  if_pos h

section

variable (hgrows : operation.extends)
include hgrows

theorem applied_padTo (h : pos ≤ start) : applied operation start length bytes (file.padTo pos) =
      applied operation start length bytes file := by
  cases operation with
  | writeData | allocate => simp only [applied, padTo_padTo h]
  | _ => cases hgrows

theorem applied_size (hbytes : operation = .writeData → bytes.length = length) :
    (applied operation start length bytes file).size = max file.size (start + length) := by
  cases operation with
  | writeData =>
    simp only [applied, SparseFile.write, padTo_size, hbytes rfl]
    split <;> omega
  | allocate =>
    simp only [applied, SparseFile.allocate, padTo_size]
    split <;> omega
  | _ => cases hgrows

theorem applied_zero : applied operation start 0 (bytes.take 0) file = file.padTo start := by
  cases operation with
  | writeData => exact write_nil
  | allocate => exact allocate_zero
  | _ => cases hgrows

theorem rangeValid_grown (h : RangeChecked operation start length) :
    RangeValid operation chunkSize start length ↔ start + length ≤ maxChunkCount * chunkSize := by
  cases operation with
  | writeData => exact Iff.rfl
  | allocate => exact and_iff_right h.1
  | _ => cases hgrows

theorem plannedSize_grown (h : RangeChecked operation start length) (current : ℕ) :
    plannedSize operation current start length = .ok (max current (start + length)) := by
  cases operation with
  | writeData => rw [plannedSize, checkedAdd, if_pos (c := _ < _) h]; rfl
  | allocate => rw [plannedSize, checkedAdd, if_pos h.2]; rfl
  | _ => cases hgrows

theorem applied_part (hbytes : operation = .writeData → pos ≤ bytes.length) (hpos : pos ≤ length) :
    applied operation start length bytes (applied operation start pos (bytes.take pos) file) =
      applied operation start length bytes file := by
  have hsize : start ≤ (applied operation start pos (bytes.take pos) file).size := by
    rw [applied_size hgrows fun h => List.length_take_of_le (hbytes h)]
    omega
  cases operation with
  | writeData =>
    change (SparseFile.padTo _ start).write start bytes = (file.padTo start).write start bytes
    rw [padTo_of_le hsize]
    have hagain : ((file.padTo start).write start (bytes.take pos)).write start
        (bytes.take pos ++ bytes.drop pos) =
          (file.padTo start).write start (bytes.take pos ++ bytes.drop pos) :=
      write_again
    rwa [List.take_append_drop] at hagain
  | allocate =>
    change (SparseFile.padTo _ start).allocate start length =
      (file.padTo start).allocate start length
    rw [padTo_of_le hsize, ← Nat.add_sub_cancel' hpos]
    exact allocate_again
  | _ => cases hgrows

end

theorem applied_punch_part (hc : c ∣ chunkSize)
    (hborder : Border chunkSize start (min (start + length) file.size - start) pos) :
    applied .holeDeallocate start length bytes (file.punch start pos) =
      applied .holeDeallocate start length bytes file := by
  obtain ⟨hpos, hborder⟩ := hborder
  change (file.punch start pos).punch start (min (start + length) file.size - start) =
    file.punch start (min (start + length) file.size - start)
  rcases hborder with rfl | hdvd | hlast
  · rw [punch_zero]
  · rw [← Nat.add_sub_cancel' hpos]
    exact punch_again (hc.trans hdvd)
  · rw [hlast]
    exact punch_self

end

variable {b c : ℕ} {R : SparseFile UInt8 b → SparseFile UInt8 c → Prop} {session operationId : Uuid}
  {chunkSize start length : ℕ} {hc : c ∣ chunkSize} {file : SparseFile UInt8 c} {bytes : List UInt8}
  {operation : MountWriteRangeOperation} {edits : ℕ → List FileEdit} {loop : ℕ → Operation b Unit}
  {s : Disk b}

/-- The extension by holes that comes before a write past the end. -/
theorem spec_extend (hR : Simulation R) (operationId : Uuid) (hcs : 0 < chunkSize)
    (start : ℕ) (hsize : file.size ≤ maxChunkCount * chunkSize)
    (hs : Stands R session chunkSize hc file s) (hclean : Clean session s) :
    Spec (Proc.onlyIf (file.size < start)
        (extendCowWithHoles session operationId chunkSize file.size (start - file.size))) s
      (fun t => OnlyCow session s t ∧ ∃ size, size ≤ min start (maxChunkCount * chunkSize) ∧
        Stands R session chunkSize hc (file.padTo size) t)
      (fun _ t => start ≤ maxChunkCount * chunkSize ∧ OnlyCow session s t ∧
        Stands R session chunkSize hc (file.padTo start) t ∧ Clean session t)
      (fun _ t => maxChunkCount * chunkSize < start ∧ OnlyCow session s t ∧
        Stands R session chunkSize hc (file.padTo (maxChunkCount * chunkSize)) t) := by
  refine spec_onlyIf (fun hlt => ?_) fun hge => ?_
  · have hloop := rangeLoop_extend (b := b) session operationId chunkSize file.size hcs
      (start - file.size)
    have hstep : ∀ pos, pos < start - file.size →
        Border chunkSize file.size (start - file.size) pos →
        Exchanged chunkSize hc ((file.size + pos) / chunkSize)
          [.pad ((file.size + pos) % chunkSize +
            pieceLength chunkSize file.size (start - file.size) pos)]
          (file.padTo (file.size + pos)) (file.padTo (file.size + (pos +
            pieceLength chunkSize file.size (start - file.size) pos))) := by
      intro pos hpos _
      have hend : (file.padTo (file.size + pos)).size = file.size + pos := by
        rw [padTo_size]
        omega
      have hexchanged := exchanged_pad hc (Nat.div_add_mod' _ _) hend
        (pieceLength_pos file.size hcs hpos) (within_add_pieceLength _ _ _ hcs)
      rwa [padTo_padTo (by omega), Nat.add_assoc] at hexchanged
    have hstart : Stands R session chunkSize hc (file.padTo (file.size + 0)) s := by
      rwa [padTo_of_le (by omega)]
    have hspec := hloop.spec hR hcs hstep ⟨Nat.zero_le _, .inl rfl⟩ hsize hstart hclean
    rw [Nat.add_sub_cancel' hlt.le] at hspec
    refine spec_mono hspec ?_ (fun _ _ ht => ht) ?_
    · rintro t ⟨hconfined, pos, ⟨hpos, -⟩, hlimit, hstands⟩
      exact ⟨hconfined, _, by omega, hstands⟩
    · rintro _ t ⟨hlarge, hconfined, hstands⟩
      rw [Nat.add_sub_cancel' hsize] at hstands
      exact ⟨hlarge, hconfined, hstands⟩
  · rw [padTo_of_le (by omega)]
    exact ⟨by omega, Confined.refl s, hs, hclean⟩

/-- An operation on the session, from a state whose chunks stand for `file`. -/
abbrev RangeSpec (R : SparseFile UInt8 b → SparseFile UInt8 c → Prop) (session : Uuid)
    (hc : c ∣ chunkSize) (operation : MountWriteRangeOperation) (start length : ℕ)
    (bytes : List UInt8) (file : SparseFile UInt8 c)
    (procedure : Operation b CowWriteResult) (s : Disk b) : Prop :=
  Proc.Spec procedure s (fun t => OnlyCow session s t ∧ ∃ half,
      Halfway operation chunkSize start length bytes file half ∧
      Stands R session chunkSize hc half t)
    (fun result t => RangeValid operation chunkSize start length ∧
      plannedSize operation file.size start length = .ok result.logicalSize ∧
      OnlyCow session s t ∧ Stands R session chunkSize hc
        (settled operation chunkSize start length bytes file) t ∧ Clean session t)
    (fun _ t => ¬RangeValid operation chunkSize start length ∧ OnlyCow session s t ∧
      Stands R session chunkSize hc (settled operation chunkSize start length bytes file) t)

/-- The extension to the start of a range, then the loop over its chunks. -/
theorem spec_grow (hR : Simulation R) (hcs : 0 < chunkSize)
    (hsize : file.size ≤ maxChunkCount * chunkSize) (hgrows : operation.extends)
    (hbytes : operation = .writeData → bytes.length = length)
    (hchecked : RangeChecked operation start length)
    (hloop : RangeLoop session operationId chunkSize start length edits loop)
    (hT : ∀ pos, pos < length → Exchanged chunkSize hc ((start + pos) / chunkSize) (edits pos)
        (applied operation start pos (bytes.take pos) file)
        (applied operation start (pos + pieceLength chunkSize start length pos)
          (bytes.take (pos + pieceLength chunkSize start length pos)) file))
    (hs : Stands R session chunkSize hc file s) (hclean : Clean session s) :
    RangeSpec R session hc operation start length bytes file (do
      Proc.onlyIf (file.size < start)
        (extendCowWithHoles session operationId chunkSize file.size (start - file.size))
      loop 0
      return writeResult file.size (max file.size (start + length))) s := by
  unfold RangeSpec Halfway
  simp only [rangeValid_grown hgrows hchecked, settled_grown hgrows hchecked,
    plannedSize_grown hgrows hchecked]
  refine spec_bind (spec_mono
    (spec_extend hR operationId hcs start hsize hs hclean) ?_ (fun _ _ ht => ht) ?_) ?_
  · rintro t ⟨hconfined, size, hle, hstands⟩
    exact ⟨hconfined, _, applied_padTo hgrows hle, hstands⟩
  · rintro _ t ⟨hlarge, hconfined, hstands⟩
    refine ⟨by omega, hconfined, ?_⟩
    rwa [min_eq_right hlarge.le, Nat.sub_eq_zero_of_le hlarge.le, Nat.min_zero, applied_zero hgrows]
  rintro _ t ⟨hstart, hconfined, hstands, hclean'⟩
  rw [min_eq_left hstart]
  have hspec := hloop.spec hR hcs (fun pos hpos _ => hT pos hpos)
    ⟨Nat.zero_le _, .inl rfl⟩ hstart (by rwa [applied_zero hgrows]) hclean'
  refine spec_bind (spec_mono hspec ?_ (fun _ _ hu => hu) ?_) ?_
  · rintro u ⟨hconfined', pos, ⟨hpos, -⟩, hlimit, hstands'⟩
    refine ⟨hconfined.trans hconfined', _, ?_, hstands'⟩
    rw [show bytes.take pos = (bytes.take (maxChunkCount * chunkSize - start)).take pos by
      rw [List.take_take, min_eq_left (by omega)]]
    exact applied_part hgrows (fun h => by rw [List.length_take, hbytes h]; omega) (by omega)
  · rintro _ u ⟨hlarge, hconfined', hstands'⟩
    rw [min_eq_right (by omega)]
    exact ⟨by omega, hconfined.trans hconfined', hstands'⟩
  · rintro _ u ⟨hfits, hconfined', hstands', hclean''⟩
    have hall : applied operation start length (bytes.take length) file =
        applied operation start length (bytes.take (maxChunkCount * chunkSize - start))
          file := by
      cases operation with
      | writeData =>
        rw [List.take_of_length_le (hbytes rfl).le, List.take_of_length_le (by
          rw [hbytes rfl]; omega)]
      | allocate => rfl
      | _ => cases hgrows
    rw [min_eq_left (by omega), ← hall]
    exact spec_pure ⟨hfits, rfl, hconfined.trans hconfined', hstands', hclean''⟩

theorem checkedNonemptyRangeEnd_eq (h : 0 < length ∧ start + length < 2 ^ 64) :
    checkedNonemptyRangeEnd start length = .ok (start + length) := by
  rw [checkedNonemptyRangeEnd, if_neg h.1.ne', checkedAdd, if_pos h.2]
  rfl

theorem checkedNonemptyRangeEnd_error (h : ¬(0 < length ∧ start + length < 2 ^ 64)) :
    checkedNonemptyRangeEnd start length = .error .stateConflict := by
  rw [checkedNonemptyRangeEnd]
  by_cases hlength : length = 0
  · rw [if_pos hlength]
  · rw [if_neg hlength, checkedAdd, if_neg (by omega)]
    rfl

variable (hR : Simulation R) (operationId : Uuid) (hcs : validateChunkSize chunkSize = .ok ())
  (hsize : file.size ≤ maxChunkCount * chunkSize) (hs : Stands R session chunkSize hc file s)
  (hclean : Clean session s)
include hR hcs hsize hs hclean

theorem spec_writeCowAt (start : ℕ) (bytes : List UInt8) :
    RangeSpec R session hc .writeData start bytes.length bytes file
      (writeCowAt session operationId chunkSize file.size start bytes) s := by
  have hpositive := pos_of_validate hcs
  apply spec_check_bind (f := fun _ => validateChunkSize chunkSize) hcs
  by_cases hchecked : RangeChecked .writeData start bytes.length
  swap
  · have hadd : checkedAdd start bytes.length = none := if_neg hchecked
    rw [hadd, settled_of_not_checked hchecked]
    refine spec_checked (fun _ hstop => nomatch hstop) fun _ _ => ⟨?_, Confined.refl s, hs⟩
    exact fun hvalid => hchecked (hvalid.checked hcs)
  have hadd : checkedAdd start bytes.length = some (start + bytes.length) := if_pos hchecked
  rw [hadd]
  refine spec_grow hR hpositive hsize rfl (fun _ => rfl) hchecked
    (rangeLoop_write session operationId chunkSize start hpositive bytes)
    (fun pos hpos => ?_) hs hclean
  have hlast : pieceLength chunkSize start bytes.length pos ≤ bytes.length - pos := min_le_left _ _
  have hlength : ((bytes.drop pos).take (pieceLength chunkSize start bytes.length pos)).length =
      pieceLength chunkSize start bytes.length pos := by
    rw [List.length_take, List.length_drop]
    omega
  have htake := List.length_take_of_le hpos.le
  have hbelow : start + pos ≤ (applied .writeData start pos (bytes.take pos) file).size := by
    rw [applied_size rfl fun _ => htake]
    omega
  have hexchanged := exchanged_write hc (Nat.div_add_mod' _ _) hbelow
    (hlength ▸ pieceLength_pos start hpositive hpos)
    (hlength.symm ▸ within_add_pieceLength _ _ _ hpositive)
  have hjoin : ((file.padTo start).write start (bytes.take pos)).write (start + pos)
      ((bytes.drop pos).take (pieceLength chunkSize start bytes.length pos)) =
      (file.padTo start).write start
        (bytes.take (pos + pieceLength chunkSize start bytes.length pos)) := by
    rw [List.take_add, ← write_write, htake]
  rwa [applied, hjoin] at hexchanged

theorem spec_allocateCowRange (start length : ℕ) (bytes : List UInt8) :
    RangeSpec R session hc .allocate start length bytes file
      (allocateCowRange session operationId chunkSize file.size start length) s := by
  have hpositive := pos_of_validate hcs
  apply spec_check_bind (f := fun _ => validateChunkSize chunkSize) hcs
  by_cases hchecked : RangeChecked .allocate start length
  swap
  · rw [checkedNonemptyRangeEnd_error hchecked, settled_of_not_checked hchecked]
    refine spec_checked (fun _ hstop => nomatch hstop) fun _ _ => ⟨?_, Confined.refl s, hs⟩
    exact fun hvalid => hchecked (hvalid.checked hcs)
  rw [checkedNonemptyRangeEnd_eq hchecked]
  have hbytes : MountWriteRangeOperation.allocate = .writeData → bytes.length = length := by
    rintro ⟨⟩
  refine spec_grow hR hpositive hsize rfl hbytes hchecked
    (rangeLoop_forEach session operationId chunkSize start hpositive _ length)
    (fun pos hpos => ?_) hs hclean
  have hbelow : start + pos ≤ (applied .allocate start pos (bytes.take pos) file).size := by
    rw [applied_size rfl (by rintro ⟨⟩)]
    omega
  have hexchanged := exchanged_allocate hc (Nat.div_add_mod' _ _) hbelow
    (pieceLength_pos start hpositive hpos) (within_add_pieceLength _ _ _ hpositive)
  rwa [applied, allocate_allocate] at hexchanged

theorem spec_deallocateCowRange (start length : ℕ) (bytes : List UInt8) :
    RangeSpec R session hc .holeDeallocate start length bytes file
      (deallocateCowRange session operationId chunkSize file.size start length) s := by
  have hpositive := pos_of_validate hcs
  apply spec_check_bind (f := fun _ => validateChunkSize chunkSize) hcs
  by_cases hchecked : RangeChecked .holeDeallocate start length
  swap
  · rw [checkedNonemptyRangeEnd_error hchecked, settled_of_not_checked hchecked]
    exact spec_checked (fun _ hstop => nomatch hstop) fun _ _ =>
      ⟨hchecked, Confined.refl s, hs⟩
  rw [checkedNonemptyRangeEnd_eq hchecked]
  apply spec_check_bind (f := fun _ => .ok (start + length)) rfl
  rw [settled_deallocate hchecked]
  refine spec_bind (P := fun _ t => OnlyCow session s t ∧
    Stands R session chunkSize hc (applied .holeDeallocate start length bytes file) t ∧
    Clean session t) (spec_onlyIf (fun hlt => ?_) fun hge => ?_) ?_
  · have hloop := rangeLoop_forEach (b := b) session operationId chunkSize start hpositive
      (fun within take => [.punch within take]) (min (start + length) file.size - start)
    have hstep : ∀ pos, pos < min (start + length) file.size - start →
        Border chunkSize start (min (start + length) file.size - start) pos →
        Exchanged chunkSize hc ((start + pos) / chunkSize) [.punch ((start + pos) % chunkSize)
            (pieceLength chunkSize start (min (start + length) file.size - start) pos)]
          (file.punch start pos) (file.punch start (pos +
            pieceLength chunkSize start (min (start + length) file.size - start) pos)) := by
      intro pos hpos hborder
      have hinside : start + pos < (file.punch start pos).size := by
        change start + pos < file.size
        omega
      have hexchanged := exchanged_punch hc (Nat.div_add_mod' _ _) hinside
        (within_add_pieceLength start (min (start + length) file.size - start) pos hpositive)
      by_cases hzero : pos = 0
      · subst hzero
        rw [punch_zero] at hexchanged ⊢
        rwa [Nat.zero_add]
      · have hdvd : chunkSize ∣ start + pos := by
          rcases hborder.2 with h | h | h
          · exact absurd h hzero
          · exact h
          · omega
        rwa [punch_punch (hc.trans hdvd)] at hexchanged
    have hbegin : Stands R session chunkSize hc (file.punch start 0) s := by
      rwa [punch_zero]
    have hspec := hloop.spec hR hpositive hstep ⟨Nat.zero_le _, .inl rfl⟩ (by omega) hbegin hclean
    refine spec_mono hspec ?_ (fun _ _ ht => ht.2) fun _ _ he => ?_
    · rintro t ⟨hconfined, pos, hborder, -, hstands⟩
      refine ⟨hconfined, _, ?_, hstands⟩
      rw [Halfway, settled_deallocate hchecked, settled_deallocate hchecked]
      exact applied_punch_part hc hborder
    · -- the range ends in the file, which is below the limit
      omega
  · have hnothing : min (start + length) file.size - start = 0 := by omega
    refine ⟨Confined.refl s, ?_, hclean⟩
    change Stands R session chunkSize hc (file.punch start _) s
    rwa [hnothing, punch_zero]
  · rintro _ t ⟨hconfined, hstands, hclean'⟩
    exact spec_pure ⟨hchecked, rfl, hconfined, hstands, hclean'⟩

theorem spec_mutateRange (operation : MountWriteRangeOperation) (start : ℕ) {length : ℕ}
    {bytes : List UInt8} (hbytes : operation = .writeData → bytes.length = length) :
    RangeSpec R session hc operation start length bytes file
      (mutateRange operation session operationId chunkSize file.size start length bytes) s := by
  cases operation with
  | writeData =>
    obtain rfl := hbytes rfl
    exact spec_writeCowAt hR operationId hcs hsize hs hclean start bytes
  | allocate => exact spec_allocateCowRange hR operationId hcs hsize hs hclean _ _ _
  | holeDeallocate => exact spec_deallocateCowRange hR operationId hcs hsize hs hclean _ _ _
  | seekData => exact spec_fail ⟨id, Confined.refl s, hs⟩
  | seekHole => exact spec_fail ⟨id, Confined.refl s, hs⟩

end FileBelt.Cow
