import FileBelt.Write.Extents
import Mathlib.Data.List.Chain

/-!
# Normal extent lists

A normal extent list covers the bytes of a file without gaps, and no two
neighbours of it could be joined.  Pushing the extent that follows a normal list
gives a normal list with the same kinds of bytes.
-/

namespace FileBelt.Write

open Support

/-- Extents as segments labelled by their kind. -/
def extentView : SegmentView NfsWriteExtent Bool where
  offset := NfsWriteExtent.offsetBytes
  length := NfsWriteExtent.lengthBytes
  label := NfsWriteExtent.isHole

/-- Whether the byte at `x` is a hole, for a byte that an extent covers. -/
def holeAt (extents : List NfsWriteExtent) (x : ℤ) : Option Bool := extentView.labelAt extents x

theorem holeAt_singleton (extent : NfsWriteExtent) (x : ℤ) : holeAt [extent] x =
      if extent.offsetBytes ≤ x ∧ x < extent.offsetBytes + extent.lengthBytes then
        some extent.isHole else none :=
  SegmentView.labelAt_singleton

theorem holeAt_append (xs ys : List NfsWriteExtent) (x : ℤ) :
    holeAt (xs ++ ys) x = (holeAt xs x).or (holeAt ys x) :=
  SegmentView.labelAt_append

/-- No hole carries a digest. -/
def NfsWriteExtent.Sound (extent : NfsWriteExtent) : Prop :=
  extent.isHole → extent.digest = none

/-- Extents from 0 to `size` without gaps, digests on holes or joinable neighbours. -/
structure NormalForm (size : ℤ) (extents : List NfsWriteExtent) : Prop where
  spans : extentView.Spans 0 extents size
  sound : ∀ extent ∈ extents, extent.Sound
  apart : extents.IsChain fun previous extent => previous.joins extent = false

theorem NormalForm.nil : NormalForm 0 [] where
  spans := rfl
  sound := fun _ h => absurd h List.not_mem_nil
  apart := List.IsChain.nil

section

variable {extents : List NfsWriteExtent} {a b : ℤ}

theorem nfsExtentEnd_ok {extent : NfsWriteExtent}
    (hoffset : extent.offsetBytes = a) (hlength : 0 < extent.lengthBytes)
    (hsound : extent.Sound) (ha : 0 ≤ a) (hi64 : a + extent.lengthBytes < ((2 ^ 63 : ℕ) : ℤ)) :
    nfsExtentEnd a extent = .ok (a + extent.lengthBytes) := by
  have hdigest : ¬(extent.isHole ∧ extent.digest.isSome) := by
    rintro ⟨hhole, hsome⟩
    rw [hsound hhole] at hsome
    cases hsome
  rw [nfsExtentEnd, if_neg, checkedAddI64_eq_some (by omega) hi64, okOr_some]
  rw [not_or, not_or]
  exact ⟨not_not.mpr hoffset, not_le.mpr hlength, hdigest⟩

theorem foldlM_nfsExtentEnd (hspans : extentView.Spans a extents b)
    (hsound : ∀ extent ∈ extents, extent.Sound) (ha : 0 ≤ a)
    (hi64 : b < ((2 ^ 63 : ℕ) : ℤ)) : extents.foldlM nfsExtentEnd a = .ok b := by
  induction extents generalizing a with
  | nil =>
    have hab : a = b := hspans
    rw [hab]
    rfl
  | cons extent rest ih =>
    obtain ⟨hoffset, hlength, hrest⟩ := hspans
    change 0 < extent.lengthBytes at hlength
    have hstop : extentView.stop extent = a + extent.lengthBytes := by
      rw [← hoffset]
      rfl
    rw [hstop] at hrest
    have hle := hrest.le
    rw [List.foldlM_cons, nfsExtentEnd_ok hoffset hlength
      (hsound extent List.mem_cons_self) ha (by omega)]
    exact ih hrest (List.forall_mem_cons.mp hsound).2 (by omega)

theorem NormalForm.normalizedNfsExtentSize_eq (h : NormalForm b extents)
    (hi64 : b < ((2 ^ 63 : ℕ) : ℤ)) : normalizedNfsExtentSize extents = .ok b :=
  foldlM_nfsExtentEnd h.spans h.sound le_rfl hi64

theorem NormalForm.validate_eq (h : NormalForm b extents) (hi64 : b < ((2 ^ 63 : ℕ) : ℤ)) :
    validateNormalizedNfsExtents extents b = if extents.length ≤ maxNfsWriteExtents then .ok ()
      else .error .invalidPersistedValue := by
  have hb : ¬b < 0 := not_lt.mpr h.spans.le
  unfold validateNormalizedNfsExtents
  by_cases hlength : extents.length ≤ maxNfsWriteExtents
  · rw [if_neg, if_pos hlength, h.normalizedNfsExtentSize_eq hi64, ok_bind,
      if_neg (not_not.mpr rfl)]
    rw [not_or]
    exact ⟨hb, not_lt.mpr hlength⟩
  · rw [if_pos (.inr (not_le.mp hlength)), if_neg hlength]

end

variable {extents pieces init : List NfsWriteExtent} {extent previous : NfsWriteExtent} {a b x : ℤ}

/-- The check at the start of `push_normalized_nfs_extent` passes. -/
theorem push_guard (hlength : 0 < extent.lengthBytes) (hsound : extent.Sound) :
    ¬(extent.lengthBytes ≤ 0 ∨ (extent.isHole ∧ extent.digest.isSome)) := by
  rintro (hle | ⟨hhole, hsome⟩)
  · exact absurd hlength (not_lt.mpr hle)
  · rw [hsound hhole] at hsome
    cases hsome

theorem push_concat (hstop : previous.offsetBytes + previous.lengthBytes = extent.offsetBytes)
    (hlow : 0 ≤ extent.offsetBytes) (hlength : 0 < extent.lengthBytes)
    (hprevious : 0 < previous.lengthBytes)
    (hi64 : extent.offsetBytes + extent.lengthBytes < ((2 ^ 63 : ℕ) : ℤ))
    (hoffset : 0 ≤ previous.offsetBytes) (hsound : extent.Sound) :
    pushNormalizedNfsExtent (extents ++ [previous]) extent = .ok (if previous.joins extent then
          extents ++ [{ previous with
            lengthBytes := previous.lengthBytes + extent.lengthBytes }]
        else extents ++ [previous] ++ [extent]) := by
  unfold pushNormalizedNfsExtent
  rw [if_neg (push_guard hlength hsound), List.getLast?_concat]
  dsimp only
  rw [checkedAddI64_eq_some (by omega) (by omega), okOr_some, ok_bind, if_neg (not_not.mpr hstop)]
  by_cases hjoins : previous.joins extent = true
  · rw [if_pos hjoins, if_pos hjoins,
      checkedAddI64_eq_some (by omega) (by omega), okOr_some, ok_bind,
      List.dropLast_concat]
  · rw [if_neg hjoins, if_neg hjoins]

theorem push_nil (hoffset : extent.offsetBytes = 0) (hlength : 0 < extent.lengthBytes)
    (hsound : extent.Sound) : pushNormalizedNfsExtent [] extent = .ok [extent] := by
  unfold pushNormalizedNfsExtent
  rw [if_neg (push_guard hlength hsound)]
  exact if_neg (not_not.mpr hoffset)

theorem holeAt_joined (hstop : previous.offsetBytes + previous.lengthBytes = extent.offsetBytes)
    (hlength : 0 < extent.lengthBytes) (hprevious : 0 < previous.lengthBytes)
    (hkind : previous.isHole = extent.isHole) :
    holeAt [{ previous with
        lengthBytes := previous.lengthBytes + extent.lengthBytes }] x =
      (holeAt [previous] x).or (holeAt [extent] x) := by
  rw [holeAt_singleton, holeAt_singleton, holeAt_singleton]
  dsimp only
  by_cases hleft : previous.offsetBytes ≤ x ∧ x < previous.offsetBytes + previous.lengthBytes
  · rw [if_pos hleft, if_pos (by omega), Option.some_or]
  · rw [if_neg hleft, Option.none_or]
    by_cases hright : extent.offsetBytes ≤ x ∧ x < extent.offsetBytes + extent.lengthBytes
    · rw [if_pos hright, if_pos (by omega), hkind]
    · rw [if_neg hright, if_neg (by omega)]

theorem joins_eq_true (h : previous.joins extent) :
    previous.isHole = extent.isHole ∧ previous.digest = none := by
  rw [NfsWriteExtent.joins, Bool.and_eq_true, Bool.and_eq_true] at h
  exact ⟨beq_iff_eq.mp h.1.1, Option.isNone_iff_eq_none.mp h.1.2⟩

/-- What a push leaves: the bytes of the list and of the new extent, again in
normal form. -/
structure Pushed (extents pieces result : List NfsWriteExtent) (size : ℤ) : Prop where
  normal : NormalForm size result
  kinds : ∀ x, holeAt result x = holeAt (extents ++ pieces) x
  length : result.length ≤ extents.length + pieces.length

theorem NormalForm.pushed_joined (h : NormalForm a (init ++ [previous]))
    (hoffset : extent.offsetBytes = a) (hlength : 0 < extent.lengthBytes)
    (hjoins : previous.joins extent) :
    Pushed (init ++ [previous]) [extent] (init ++ [{ previous with
        lengthBytes := previous.lengthBytes + extent.lengthBytes }])
      (a + extent.lengthBytes) := by
  obtain ⟨hkind, hnone⟩ := joins_eq_true hjoins
  obtain ⟨c, hinit, hprevious, hpositive, hstop⟩ := SegmentView.spans_append.mp h.spans
  change previous.offsetBytes + previous.lengthBytes = a at hstop
  obtain ⟨happart, -, hlast⟩ := List.isChain_append.mp h.apart
  refine ⟨⟨?_, ?_, ?_⟩, ?_, ?_⟩
  · refine SegmentView.spans_append.mpr ⟨c, hinit, hprevious, ?_, ?_⟩
    · exact Int.add_pos hpositive hlength
    · change previous.offsetBytes + (previous.lengthBytes + extent.lengthBytes) = _
      omega
  · exact List.forall_mem_append.mpr ⟨fun e he => h.sound e (List.mem_append_left _ he),
      List.forall_mem_singleton.mpr fun _ => hnone⟩
  · refine List.isChain_append.mpr ⟨happart, List.IsChain.singleton _, ?_⟩
    intro e he f hf
    rw [← Option.some.inj hf]
    exact hlast e he previous rfl
  · intro x
    rw [holeAt_append, List.append_assoc, holeAt_append, holeAt_append,
      holeAt_joined (hstop.trans hoffset.symm) hlength hpositive hkind]
  · simp

variable (h : NormalForm a extents)
include h

theorem NormalForm.pushed_apart
    (hoffset : extent.offsetBytes = a) (hlength : 0 < extent.lengthBytes) (hsound : extent.Sound)
    (hlast : ∀ previous ∈ extents.getLast?, previous.joins extent = false) :
    Pushed extents [extent] (extents ++ [extent]) (a + extent.lengthBytes) := by
  refine ⟨⟨?_, ?_, ?_⟩, fun _ => rfl, ?_⟩
  · refine SegmentView.spans_append.mpr ⟨a, h.spans, hoffset, hlength, ?_⟩
    change extent.offsetBytes + extent.lengthBytes = _
    rw [hoffset]
  · exact List.forall_mem_append.mpr ⟨h.sound, List.forall_mem_singleton.mpr hsound⟩
  · refine List.isChain_append.mpr ⟨h.apart, List.IsChain.singleton _, ?_⟩
    intro e he f hf
    rw [← Option.some.inj hf]
    exact hlast e he
  · rw [List.length_append]

theorem NormalForm.push_ok (hoffset : extent.offsetBytes = a) (hlength : 0 < extent.lengthBytes)
    (hsound : extent.Sound) (hi64 : a + extent.lengthBytes < ((2 ^ 63 : ℕ) : ℤ)) :
    ∃ result, pushNormalizedNfsExtent extents extent = .ok result ∧
      Pushed extents [extent] result (a + extent.lengthBytes) := by
  have ha := h.spans.le
  rcases List.eq_nil_or_concat' extents with rfl | ⟨init, previous, rfl⟩
  · have hzero : (0 : ℤ) = a := h.spans
    refine ⟨[extent], push_nil (hoffset.trans hzero.symm) hlength hsound, ?_⟩
    exact h.pushed_apart hoffset hlength hsound fun _ hlast => nomatch hlast
  · obtain ⟨c, hinit, hprevious, hpositive, hstop⟩ := SegmentView.spans_append.mp h.spans
    have hc := hinit.le
    change previous.offsetBytes = c at hprevious
    refine ⟨_, push_concat (hstop.trans hoffset.symm) (by omega) hlength hpositive
      (by omega) (by omega) hsound, ?_⟩
    by_cases hjoins : previous.joins extent = true
    · rw [if_pos hjoins]
      exact h.pushed_joined hoffset hlength hjoins
    · rw [if_neg hjoins]
      refine h.pushed_apart hoffset hlength hsound ?_
      intro e he
      rw [List.getLast?_concat] at he
      rw [← Option.some.inj he]
      exact Bool.eq_false_iff.mpr hjoins

/-- Pushing pieces that follow a normal list one after the other. -/
theorem NormalForm.foldlM_push_ok (hspans : extentView.Spans a pieces b)
    (hsound : ∀ piece ∈ pieces, piece.Sound) (hi64 : b < ((2 ^ 63 : ℕ) : ℤ)) :
    ∃ result, pieces.foldlM pushNormalizedNfsExtent extents = .ok result ∧
      Pushed extents pieces result b := by
  induction pieces generalizing a extents with
  | nil =>
    have hab : a = b := hspans
    rw [← hab]
    refine ⟨extents, rfl, h, ?_, le_rfl⟩
    intro x
    rw [List.append_nil]
  | cons piece rest ih =>
    obtain ⟨hoffset, hlength, hrest⟩ := hspans
    have hstop : extentView.stop piece = a + piece.lengthBytes := by
      rw [← hoffset]
      rfl
    rw [hstop] at hrest
    have hle := hrest.le
    obtain ⟨middle, hpush, hmiddle⟩ := h.push_ok hoffset hlength
      (hsound piece List.mem_cons_self) (by omega)
    obtain ⟨result, hfold, hresult⟩ := ih hmiddle.normal hrest
      (List.forall_mem_cons.mp hsound).2
    refine ⟨result, ?_, hresult.normal, ?_, ?_⟩
    · rw [List.foldlM_cons, hpush]
      exact hfold
    · intro x
      rw [hresult.kinds x, holeAt_append, hmiddle.kinds x, ← holeAt_append, ← List.append_cons]
    · have hfirst := hmiddle.length
      have hthen := hresult.length
      rw [List.length_singleton] at hfirst
      rw [List.length_cons]
      omega

end FileBelt.Write
