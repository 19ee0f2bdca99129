import FileBelt.Write.RangePieces
import Mathlib.Data.Int.ConditionallyCompleteOrder
import Mathlib.Order.ConditionallyCompleteLattice.Basic

/-!
# Extent maps keep their normal form

A range operation turns a normal extent list into the normal extent list with the
kinds of bytes that the operation gives, and a seek finds the first byte of its
kind.
-/

namespace FileBelt.Write

open Support

section

variable {extents : List NfsWriteExtent} {size requested o x : ℤ} {seekHole : Bool}

/-- The offset is of the kind that a seek looks for; the end of the file counts as
a hole. -/
def OfKind (extents : List NfsWriteExtent) (size : ℤ) (seekHole : Bool) (x : ℤ) : Prop :=
  holeAt extents x = some seekHole ∨ (seekHole ∧ x = size)

theorem holeAt_lt (h : extentView.Spans o extents size)
    (hx : holeAt extents x = some seekHole) : x < size := by
  by_contra hge
  have hnone : holeAt extents x = none := h.labelAt_eq_none_of_ge (not_lt.mp hge)
  rw [hnone] at hx
  cases hx

theorem holeAt_ge (h : extentView.Spans o extents size)
    (hx : holeAt extents x = some seekHole) : o ≤ x := by
  by_contra hlt
  have hnone : holeAt extents x = none := h.labelAt_eq_none (not_le.mp hlt)
  rw [hnone] at hx
  cases hx

/-- The kinds of a list are those of its first extent and of the rest. -/
theorem holeAt_cons_eq_some {extent : NfsWriteExtent} :
    holeAt (extent :: extents) x = some seekHole ↔
      (extent.isHole = seekHole ∧ extent.offsetBytes ≤ x ∧ x < extentView.stop extent) ∨
        (¬(extent.offsetBytes ≤ x ∧ x < extentView.stop extent) ∧
          holeAt extents x = some seekHole) := by
  rw [← List.singleton_append, holeAt_append, holeAt_singleton]
  change (if extent.offsetBytes ≤ x ∧ x < extentView.stop extent then
    some extent.isHole else none).or _ = _ ↔ _
  by_cases hin : extent.offsetBytes ≤ x ∧ x < extentView.stop extent
  · rw [if_pos hin, Option.some_or, Option.some_inj]
    tauto
  · rw [if_neg hin]
    tauto

theorem seekNfsExtentFrom_isFirst (h : extentView.Spans o extents size)
    (ho : 0 ≤ o) (hi64 : size < ((2 ^ 63 : ℕ) : ℤ)) :
    IsFirst (fun x => requested ≤ x ∧ holeAt extents x = some seekHole)
      (seekNfsExtentFrom requested seekHole extents) := by
  induction extents generalizing o with
  | nil =>
    rintro x ⟨-, hx⟩
    cases hx
  | cons extent rest ih =>
    have hall := h
    obtain ⟨hoffset, hlength, hrest⟩ := h
    change extent.offsetBytes = o at hoffset
    have hle := hrest.le
    have hafter : o < extentView.stop extent := by
      change o < extent.offsetBytes + extent.lengthBytes
      change 0 < extent.lengthBytes at hlength
      omega
    have hend : saturatingAddI64 extent.offsetBytes extent.lengthBytes =
        extentView.stop extent :=
      saturatingAddI64_eq (ho.trans hafter.le) (lt_of_le_of_lt hle hi64)
    have hthen := ih hrest (ho.trans hafter.le)
    rw [seekNfsExtentFrom, hend]
    by_cases hbefore : extentView.stop extent ≤ requested
    · rw [if_pos hbefore]
      refine hthen.congr fun x => and_congr_right fun hx => ?_
      rw [holeAt_cons_eq_some]
      have hout : ¬(extent.offsetBytes ≤ x ∧ x < extentView.stop extent) := by
        omega
      tauto
    · rw [if_neg hbefore]
      by_cases hkind : extent.isHole = seekHole
      · rw [if_pos hkind]
        refine isFirst_some ⟨le_max_right _ _, ?_⟩ ?_
        · exact holeAt_cons_eq_some.mpr (.inl ⟨hkind, le_max_left _ _, by omega⟩)
        · rintro x ⟨hx, hat⟩
          have hox := holeAt_ge hall hat
          omega
      · rw [if_neg hkind]
        refine hthen.congr fun x => and_congr_right fun _ => ?_
        rw [holeAt_cons_eq_some]
        constructor
        · intro hx
          have hstop := holeAt_ge hrest hx
          exact .inr ⟨by omega, hx⟩
        · rintro (⟨hsame, -⟩ | ⟨-, hx⟩)
          · exact absurd hsame hkind
          · exact hx

/-- A seek finds the least offset of its kind. -/
theorem NormalForm.seekNfsExtent_isFirst (h : NormalForm size extents)
    (hi64 : size < ((2 ^ 63 : ℕ) : ℤ)) :
    IsFirst (fun x => requested ≤ x ∧ OfKind extents size seekHole x)
      (seekNfsExtent extents size requested seekHole) := by
  have hloop : IsFirst (fun x => requested ≤ x ∧ holeAt extents x = some seekHole)
      (seekNfsExtentFrom requested seekHole extents) :=
    seekNfsExtentFrom_isFirst h.spans le_rfl hi64
  unfold seekNfsExtent
  by_cases hpast : size < requested
  · rw [if_pos hpast]
    rintro x ⟨hx, hat | ⟨-, rfl⟩⟩
    · have hlt := holeAt_lt h.spans hat
      omega
    · omega
  · rw [if_neg hpast]
    by_cases hend : seekHole ∧ requested = size
    · rw [if_pos hend]
      refine isFirst_some ⟨hend.2.le, .inr ⟨hend.1, rfl⟩⟩ ?_
      omega
    · rw [if_neg hend]
      generalize seekNfsExtentFrom requested seekHole extents = found at hloop
      cases found with
      | some =>
        obtain ⟨⟨hy, hat⟩, hleast⟩ := hloop
        refine isFirst_some ⟨hy, .inl hat⟩ ?_
        rintro x ⟨hx, hkind | ⟨-, rfl⟩⟩
        · exact hleast ⟨hx, hkind⟩
        · exact (holeAt_lt h.spans hat).le
      | none =>
        by_cases hhole : seekHole = true
        · rw [if_pos hhole]
          refine isFirst_some ⟨not_lt.mp hpast, .inr ⟨hhole, rfl⟩⟩ ?_
          rintro x ⟨hx, hkind | ⟨-, rfl⟩⟩
          · exact absurd ⟨hx, hkind⟩ (hloop x)
          · exact le_rfl
        · rw [if_neg hhole]
          rintro x ⟨hx, hkind | ⟨hseek, -⟩⟩
          · exact hloop x ⟨hx, hkind⟩
          · exact hhole hseek

end

/-- A range operation on a normal extent list gives the normal extent list with
the new kinds, unless that list is longer than the database allows; and a seek
finds the least offset of its kind. -/
theorem applyNfsExtentRange_normalForm {current : List NfsWriteExtent}
    {size resulting start rangeEnd : ℤ} {operation : MountWriteRangeOperation}
    {digest : Option Digest} (h : NormalForm size current)
    (hfits : RangeFits size resulting start rangeEnd)
    (hdigest : operation = .holeDeallocate → digest = none) :
    (∃ result, RangeApplied current size resulting start rangeEnd operation result ∧
        result.length ≤ current.length + 3 ∧
        applyNfsExtentRange current resulting start rangeEnd operation digest =
          if result.length ≤ maxNfsWriteExtents then .ok result
          else .error .invalidPersistedValue) ∧
      ∀ requested seekHole,
        IsFirst (fun x => requested ≤ x ∧ OfKind current size seekHole x)
          (seekNfsExtent current size requested seekHole) := by
  constructor
  · exact h.exists_rangeApplied hfits hdigest
  · intro requested seekHole
    exact h.seekNfsExtent_isFirst (lt_of_le_of_lt hfits.grows hfits.i64)

/-- Six bytes of data with a digest. -/
def sixBytes : List NfsWriteExtent :=
  [{ offsetBytes := 0, lengthBytes := 6, isHole := false
     digest := some (Vector.replicate 32 1) }]

theorem sixBytes_normalForm : NormalForm 6 sixBytes := by
  refine ⟨⟨rfl, by decide, rfl⟩, ?_, List.IsChain.singleton _⟩
  intro extent hextent
  rw [List.mem_singleton.mp hextent]
  exact fun hhole => nomatch hhole

/-- Two of six bytes are deallocated while the file grows to eight. -/
theorem sixBytes_deallocated :
    (∃ result, RangeApplied sixBytes 6 8 2 3 .holeDeallocate result ∧
        applyNfsExtentRange sixBytes 8 2 3 .holeDeallocate none = .ok result) ∧
      IsFirst (fun x => 4 ≤ x ∧ OfKind sixBytes 6 true x)
        (seekNfsExtent sixBytes 6 4 true) := by
  have hfits : RangeFits 6 8 2 3 := ⟨by decide, by decide, by decide, by decide, by decide⟩
  obtain ⟨⟨result, happlied, hlength, heq⟩, hseek⟩ := applyNfsExtentRange_normalForm
    sixBytes_normalForm hfits fun (_ : MountWriteRangeOperation.holeDeallocate =
      .holeDeallocate) => (rfl : (none : Option Digest) = none)
  refine ⟨⟨result, happlied, heq.trans (if_pos ?_)⟩, hseek 4 true⟩
  exact hlength.trans (by decide)

/-- Bytes written one by one, each with its digest. -/
def writtenBytes (digest : Digest) (n : ℕ) : List NfsWriteExtent :=
  (List.range n).map fun i : ℕ =>
    { offsetBytes := i, lengthBytes := 1, isHole := false, digest := some digest }

section

variable (digest : Digest) {n : ℕ}
include digest

theorem writtenBytes_succ (n : ℕ) : writtenBytes digest (n + 1) = writtenBytes digest n ++
      [rangeReplacement n (n + 1) .writeData (some digest)] := by
  have hlength : ((n : ℤ) + 1 - n) = 1 := by omega
  rw [writtenBytes, List.range_succ, List.map_append, rangeReplacement, hlength]
  rfl

@[simp]
theorem length_writtenBytes (n : ℕ) : (writtenBytes digest n).length = n := by
  rw [writtenBytes, List.length_map, List.length_range]

theorem writtenByte_sound (n : ℕ) :
    (rangeReplacement n (n + 1) .writeData (some digest)).Sound := by
  intro hhole
  have hfalse : (MountWriteRangeOperation.writeData == .holeDeallocate) := hhole
  exact absurd hfalse (by decide)

theorem writtenByte_length (n : ℕ) :
    (rangeReplacement n (n + 1) .writeData (some digest)).lengthBytes = 1 := by
  change (n : ℤ) + 1 - n = 1
  omega

theorem writtenBytes_normalForm (n : ℕ) : NormalForm n (writtenBytes digest n) := by
  induction n with
  | zero => exact NormalForm.nil
  | succ n ih =>
    have hlength := writtenByte_length digest n
    rw [writtenBytes_succ, Int.natCast_succ]
    nth_rewrite 1 [← hlength]
    refine (ih.pushed_apart rfl ?_ (writtenByte_sound digest n) ?_).normal
    · rw [hlength]
      exact Int.one_pos
    · intro previous _
      exact Bool.and_false _

theorem push_writtenBytes (hn : n + 1 < 2 ^ 63) : pushNormalizedNfsExtent (writtenBytes digest n)
        (rangeReplacement n (n + 1) .writeData (some digest)) =
      .ok (writtenBytes digest (n + 1)) := by
  have hpositive : 0 < (rangeReplacement n (n + 1) .writeData (some digest)).lengthBytes := by
    rw [writtenByte_length]
    exact Int.one_pos
  rw [writtenBytes_succ digest n]
  cases n with
  | zero => exact push_nil rfl hpositive (writtenByte_sound digest 0)
  | succ m =>
    have hlength := writtenByte_length digest (m + 1)
    have hprevious := writtenByte_length digest m
    have hoffset : (rangeReplacement m (m + 1) .writeData (some digest)).offsetBytes = m :=
      rfl
    have hnext : (rangeReplacement (m + 1 : ℕ) ((m + 1 : ℕ) + 1) .writeData
        (some digest)).offsetBytes = (m : ℤ) + 1 := Int.natCast_succ m
    rw [writtenBytes_succ digest m, push_concat (by omega) (by omega) hpositive
      (by omega) (by omega) (by omega) (writtenByte_sound digest (m + 1)), if_neg]
    exact Bool.eq_false_iff.mp (Bool.and_false _)

theorem foldlM_push_writtenBytes (hn : n < 2 ^ 63) :
    (writtenBytes digest n).foldlM pushNormalizedNfsExtent [] = .ok (writtenBytes digest n) := by
  induction n with
  | zero => rfl
  | succ n ih =>
    conv_lhs => rw [writtenBytes_succ, List.foldlM_append, ih (by omega), ok_bind]
    rw [← push_writtenBytes digest hn]
    exact bind_pure _

end

theorem rangePieces_append {replacement : NfsWriteExtent} {start stop o : ℤ}
    {xs : List NfsWriteExtent} (ys : List NfsWriteExtent)
    (h : extentView.Spans o xs start) (hrange : start < stop) :
    rangePieces replacement start stop false (xs ++ ys) =
      xs ++ rangePieces replacement start stop false ys := by
  induction xs generalizing o with
  | nil => rfl
  | cons extent rest ih =>
    obtain ⟨hoffset, hlength, hrest⟩ := h
    have hbefore := hrest.le
    have hlt : extent.offsetBytes < stop := by
      change extent.offsetBytes + extent.lengthBytes ≤ start at hbefore
      change 0 < extent.lengthBytes at hlength
      omega
    rw [List.cons_append, rangePieces, extentPieces_before hbefore hlt]
    rw [ih hrest]
    rfl

theorem apply_writtenBytes (digest : Digest) {n : ℕ} (hn : n + 1 < 2 ^ 63) :
    applyNfsExtentRange (writtenBytes digest n) (n + 1) n n .writeData (some digest) =
      if n + 1 ≤ maxNfsWriteExtents then .ok (writtenBytes digest (n + 1))
      else .error .invalidPersistedValue := by
  have hnormal := writtenBytes_normalForm digest n
  have hfits : RangeFits n (n + 1) n n := ⟨by omega, le_rfl, by omega, by omega, by omega⟩
  have hgap : rangePieces (rangeReplacement n (n + 1) .writeData (some digest)) n
      (n + 1) false [gapExtent n (n + 1)] =
      [rangeReplacement n (n + 1) .writeData (some digest)] := by
    have hstop : extentView.stop (gapExtent n (n + 1)) = (n : ℤ) + 1 := by
      change (n : ℤ) + ((n : ℤ) + 1 - n) = n + 1
      omega
    have hleft : leftPiece n (gapExtent n (n + 1)) = [] := if_neg (lt_irrefl _)
    have hright : rightPiece (n + 1) (gapExtent n (n + 1)) = [] := by
      rw [rightPiece, hstop, if_neg (lt_irrefl _)]
    have hlt : (n : ℤ) < extentView.stop (gapExtent n (n + 1)) := by omega
    have hoffset : (gapExtent n (n + 1)).offsetBytes < (n : ℤ) + 1 := by
      change (n : ℤ) < n + 1
      omega
    rw [rangePieces, extentPieces_first hlt hoffset, hleft, hright]
    rfl
  have hgrown : grownNfsExtents (writtenBytes digest n) n (n + 1) =
      writtenBytes digest n ++ [gapExtent n (n + 1)] :=
    if_pos (Int.lt_add_one_of_le le_rfl)
  rw [applyNfsExtentRange_eq hnormal hfits, hgrown,
    rangePieces_append _ hnormal.spans (Int.lt_add_one_of_le le_rfl), hgap,
    ← writtenBytes_succ, foldlM_push_writtenBytes digest hn, ok_bind]
  have hvalid := (writtenBytes_normalForm digest (n + 1)).validate_eq (by omega)
  rw [Int.natCast_succ, length_writtenBytes] at hvalid
  rw [hvalid]
  by_cases hlength : n + 1 ≤ maxNfsWriteExtents
  · rw [if_pos hlength, if_pos hlength, ok_bind]
  · rw [if_neg hlength, if_neg hlength, error_bind]

/-- A session with as many written bytes as the database has room for extents
cannot take the next byte, although it satisfies everything asked of it. -/
theorem writtenBytes_full :
    NormalForm 1048576 (writtenBytes (Vector.replicate 32 0) 1048576) ∧
      RangeFits 1048576 1048577 1048576 1048576 ∧
      applyNfsExtentRange (writtenBytes (Vector.replicate 32 0) 1048576) 1048577
          1048576 1048576 .writeData (some (Vector.replicate 32 0)) =
        .error .invalidPersistedValue := by
  refine ⟨writtenBytes_normalForm _ 1048576, ⟨?_, ?_, ?_, ?_, ?_⟩, ?_⟩
  · decide
  · decide
  · decide
  · decide
  · decide
  · exact (apply_writtenBytes _ (by decide)).trans (if_neg (by decide))

end FileBelt.Write
