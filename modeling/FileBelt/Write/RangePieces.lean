import FileBelt.Write.NormalForm

/-!
# The pieces of a range operation

The rebuild loop is split in two: the pieces that it pushes, which span the
resulting size and have the new kinds, and the pushes themselves, which join
neighbours and change no kind.
-/

namespace FileBelt.Write

open Support

/-- The pieces that `apply_nfs_extent_range` pushes for the extents of `source`,
the replacement included. -/
def rangePieces (replacement : NfsWriteExtent) (rangeStart rangeEnd : ℤ) :
    Bool → List NfsWriteExtent → List NfsWriteExtent
  | inserted, [] => if inserted then [] else [replacement]
  | inserted, extent :: rest =>
    let step := extentPieces replacement rangeStart rangeEnd inserted extent
      (extentView.stop extent)
    step.1 ++ rangePieces replacement rangeStart rangeEnd step.2 rest

/-- The kinds of bytes after the range has been replaced. -/
def patched (replacement : NfsWriteExtent) (rangeStart rangeEnd : ℤ)
    (kinds : ℤ → Option Bool) (x : ℤ) : Option Bool :=
  if rangeStart ≤ x ∧ x < rangeEnd then some replacement.isHole else kinds x

section

variable {source : List NfsWriteExtent} {replacement extent : NfsWriteExtent}
  {start stop o total x : ℤ} {inserted : Bool} {kinds : ℤ → Option Bool}

/-- The loop of `apply_nfs_extent_range` and the push after it push the pieces. -/
theorem foldlM_rebuild_eq (acc : List NfsWriteExtent)
    (hspans : extentView.Spans o source total) (ho : 0 ≤ o) (hi64 : total < ((2 ^ 63 : ℕ) : ℤ)) :
    (do let state ← source.foldlM (rebuildNfsExtents replacement start stop) (acc, inserted)
        insertReplacement replacement state) =
      (rangePieces replacement start stop inserted source).foldlM
        pushNormalizedNfsExtent acc := by
  induction source generalizing acc o inserted with
  | nil =>
    cases inserted with
    | true => rfl
    | false => exact (bind_pure (pushNormalizedNfsExtent acc replacement)).symm
  | cons extent rest ih =>
    obtain ⟨hoffset, hlength, hrest⟩ := hspans
    have hle := hrest.le
    have hlow : 0 ≤ extentView.stop extent := by
      rw [SegmentView.stop]
      omega
    have hend : checkedAddI64 extent.offsetBytes extent.lengthBytes =
        some (extentView.stop extent) :=
      checkedAddI64_eq_some hlow (lt_of_le_of_lt hle hi64)
    rw [List.foldlM_cons, rebuildNfsExtents, hend, okOr_some, ok_bind,
      rangePieces, List.foldlM_append]
    dsimp only
    cases (extentPieces replacement start stop inserted extent
        (extentView.stop extent)).1.foldlM pushNormalizedNfsExtent acc with
    | error error => rfl
    | ok middle =>
      exact ih middle hrest hlow

def leftPiece (start : ℤ) (extent : NfsWriteExtent) : List NfsWriteExtent :=
  if extent.offsetBytes < start then
    [{ extent with
        lengthBytes := start - extent.offsetBytes, digest := none }]
  else []

def rightPiece (stop : ℤ) (extent : NfsWriteExtent) : List NfsWriteExtent :=
  if stop < extentView.stop extent then
    [{ extent with
        offsetBytes := stop
        lengthBytes := extentView.stop extent - stop
        digest := none }]
  else []

theorem extentPieces_before (h : extentView.stop extent ≤ start) (hlt : extent.offsetBytes < stop) :
    extentPieces replacement start stop false extent (extentView.stop extent) =
      ([extent], false) := by
  rw [extentPieces, if_pos (.inl h), if_neg]
  exact fun hand => absurd hand.2 (not_le.mpr hlt)

theorem extentPieces_first (h : start < extentView.stop extent) (hlt : extent.offsetBytes < stop) :
    extentPieces replacement start stop false extent (extentView.stop extent) =
      (leftPiece start extent ++ [replacement] ++ rightPiece stop extent, true) := by
  rw [extentPieces, if_neg]
  · rfl
  · rw [not_or]
    exact ⟨not_le.mpr h, not_le.mpr hlt⟩

theorem extentPieces_inside (h : start < extent.offsetBytes)
    (hlength : 0 < extent.lengthBytes) (hlt : extent.offsetBytes < stop) :
    extentPieces replacement start stop true extent (extentView.stop extent) =
      (rightPiece stop extent, true) := by
  have hstop : start < extentView.stop extent := by
    change start < extent.offsetBytes + extent.lengthBytes
    omega
  rw [extentPieces, if_neg]
  · rw [if_neg (by omega)]
    rfl
  · rw [not_or]
    exact ⟨not_le.mpr hstop, not_le.mpr hlt⟩

theorem extentPieces_after (h : stop ≤ extent.offsetBytes) :
    extentPieces replacement start stop true extent (extentView.stop extent) =
      ([extent], true) := by
  rw [extentPieces, if_pos (.inr h), if_neg]
  exact fun hand => Bool.noConfusion hand.1

theorem patched_of_lt (h : x < start) : patched replacement start stop kinds x = kinds x :=
  if_neg fun hand => absurd hand.1 (not_le.mpr h)

theorem patched_of_ge (h : stop ≤ x) : patched replacement start stop kinds x = kinds x :=
  if_neg fun hand => absurd hand.2 (not_lt.mpr h)

theorem patched_of_mem (hlow : start ≤ x) (hhigh : x < stop) :
    patched replacement start stop kinds x = some replacement.isHole :=
  if_pos ⟨hlow, hhigh⟩

/-- Pieces that render `kinds` on `[a, b)`, with no digest on a hole, and their
number at most `bound`. -/
structure Rendering (kinds : ℤ → Option Bool) (a : ℤ)
    (pieces : List NfsWriteExtent) (b : ℤ) (bound : ℕ) : Prop where
  renders : extentView.Renders kinds a pieces b
  sound : ∀ piece ∈ pieces, piece.Sound
  length : pieces.length ≤ bound

theorem Rendering.nil (a : ℤ) (bound : ℕ) : Rendering kinds a [] a bound where
  renders := SegmentView.renders_nil a
  sound := fun _ h => absurd h List.not_mem_nil
  length := Nat.zero_le bound

theorem Rendering.singleton (hoffset : extent.offsetBytes = o)
    (hlength : 0 < extent.lengthBytes) (hsound : extent.Sound)
    (hkinds : ∀ x, o ≤ x → x < extentView.stop extent → kinds x = some extent.isHole) :
    Rendering kinds o [extent] (extentView.stop extent) 1 where
  renders := SegmentView.renders_singleton hoffset hlength rfl
    fun x hlow hhigh => (hkinds x hlow hhigh).symm
  sound := fun _ h => List.mem_singleton.mp h ▸ hsound
  length := le_rfl

theorem Rendering.append {xs ys : List NfsWriteExtent} {a b c : ℤ} {m n k : ℕ}
    (hxs : Rendering kinds a xs b m) (hys : Rendering kinds b ys c n)
    (hbound : m + n ≤ k) : Rendering kinds a (xs ++ ys) c k where
  renders := hxs.renders.append hys.renders
  sound := fun piece h =>
    (List.mem_append.mp h).elim (hxs.sound piece) (hys.sound piece)
  length := by
    have hfirst := hxs.length
    have hthen := hys.length
    rw [List.length_append]
    omega

theorem leftPiece_rendering (hoffset : extent.offsetBytes = o) (ho : o ≤ start)
    (hkinds : ∀ x, o ≤ x → x < extentView.stop extent → kinds x = some extent.isHole)
    (hstart : start < extentView.stop extent) :
    Rendering (patched replacement start stop kinds) o (leftPiece start extent) start 1 := by
  rw [leftPiece]
  by_cases hlt : extent.offsetBytes < start
  · have hend : extentView.stop { extent with
        lengthBytes := start - extent.offsetBytes, digest := none } = start := by
      change extent.offsetBytes + (start - extent.offsetBytes) = start
      omega
    rw [if_pos hlt]
    nth_rewrite 3 [← hend]
    refine Rendering.singleton hoffset (Int.sub_pos.mpr hlt) (fun _ => rfl) ?_
    intro x hlow hhigh
    rw [hend] at hhigh
    rw [patched_of_lt hhigh, hkinds x hlow (by omega)]
  · rw [if_neg hlt, show o = start by omega]
    exact Rendering.nil start 1

theorem rightPiece_rendering (hoffset : extent.offsetBytes ≤ stop)
    (hkinds : ∀ x, extent.offsetBytes ≤ x → x < extentView.stop extent →
      kinds x = some extent.isHole) : Rendering (patched replacement start stop kinds) stop
      (rightPiece stop extent) (max (extentView.stop extent) stop) 1 := by
  rw [rightPiece]
  by_cases hlt : stop < extentView.stop extent
  · have hend : extentView.stop { extent with
        offsetBytes := stop
        lengthBytes := extentView.stop extent - stop
        digest := none } = extentView.stop extent := by
      change stop + (extentView.stop extent - stop) = extentView.stop extent
      omega
    rw [if_pos hlt, max_eq_left hlt.le]
    refine ⟨SegmentView.renders_singleton rfl (Int.sub_pos.mpr hlt) hend ?_, ?_, ?_⟩
    · intro x hlow hhigh
      rw [patched_of_ge hlow, hkinds x (by omega) hhigh]
      rfl
    · intro piece hpiece
      rw [List.mem_singleton.mp hpiece]
      exact fun _ => rfl
    · exact le_rfl
  · rw [if_neg hlt, max_eq_right (not_lt.mp hlt)]
    exact Rendering.nil stop 1

theorem rangePieces_true_rendering (h : extentView.Renders kinds o source total)
    (hsound : ∀ extent ∈ source, extent.Sound) (ho : start < o) (htotal : stop ≤ total) :
    Rendering (patched replacement start stop kinds) (max o stop)
      (rangePieces replacement start stop true source) total source.length := by
  induction source generalizing o with
  | nil =>
    have hend : o = total := h.1
    rw [hend, max_eq_left htotal]
    exact Rendering.nil total 0
  | cons extent rest ih =>
    obtain ⟨hoffset, hlength, hkinds, hrest⟩ := h.cons_inv
    change extent.offsetBytes = o at hoffset
    change 0 < extent.lengthBytes at hlength
    have hafter : o < extentView.stop extent := by
      change o < extent.offsetBytes + extent.lengthBytes
      omega
    have hthen := ih hrest (List.forall_mem_cons.mp hsound).2 (ho.trans hafter)
    have hbound : 1 + rest.length ≤ (extent :: rest).length := by
      rw [List.length_cons, Nat.add_comm]
    rw [rangePieces]
    by_cases hstop : stop ≤ o
    · rw [extentPieces_after (hoffset ▸ hstop), max_eq_left hstop]
      rw [max_eq_left (hstop.trans hafter.le)] at hthen
      refine Rendering.append ?_ hthen hbound
      refine Rendering.singleton hoffset hlength (hsound extent List.mem_cons_self) ?_
      intro x hlow hhigh
      rw [patched_of_ge (hstop.trans hlow), hkinds x hlow hhigh]
      rfl
    · have hinside := not_le.mp hstop
      rw [extentPieces_inside (by omega) hlength (by omega), max_eq_right hinside.le]
      exact Rendering.append (rightPiece_rendering (by omega) (hoffset ▸ hkinds)) hthen hbound

/-- The pieces render the kinds after the operation. -/
theorem rangePieces_false_rendering (h : extentView.Renders kinds o source total)
    (hsound : ∀ extent ∈ source, extent.Sound) (ho : o ≤ start)
    (hrange : start < stop) (htotal : stop ≤ total)
    (hreplacement : Rendering (patched replacement start stop kinds) start [replacement] stop 1) :
    Rendering (patched replacement start stop kinds) o
      (rangePieces replacement start stop false source) total (source.length + 2) := by
  induction source generalizing o with
  | nil =>
    have hend : o = total := h.1
    omega
  | cons extent rest ih =>
    obtain ⟨hoffset, hlength, hkinds, hrest⟩ := h.cons_inv
    change extent.offsetBytes = o at hoffset
    have hrestSound : ∀ e ∈ rest, e.Sound := (List.forall_mem_cons.mp hsound).2
    rw [rangePieces]
    by_cases hbefore : extentView.stop extent ≤ start
    · rw [extentPieces_before hbefore (by omega)]
      have hfirst : Rendering (patched replacement start stop kinds) o [extent]
          (extentView.stop extent) 1 := by
        refine Rendering.singleton hoffset hlength (hsound extent List.mem_cons_self) ?_
        intro x hlow hhigh
        rw [patched_of_lt (by omega), hkinds x hlow hhigh]
        rfl
      refine hfirst.append (ih hrest hrestSound hbefore) ?_
      rw [List.length_cons]
      omega
    · have hlt := not_le.mp hbefore
      have hleft : Rendering (patched replacement start stop kinds) o
          (leftPiece start extent) start 1 :=
        leftPiece_rendering hoffset ho hkinds hlt
      have hright : Rendering (patched replacement start stop kinds) stop
          (rightPiece stop extent) (max (extentView.stop extent) stop) 1 :=
        rightPiece_rendering (by omega) (hoffset ▸ hkinds)
      rw [extentPieces_first hlt (by omega)]
      refine Rendering.append ((hleft.append hreplacement le_rfl).append hright
        le_rfl) (rangePieces_true_rendering hrest hrestSound hlt htotal) ?_
      rw [List.length_cons]
      omega

end

variable {current : List NfsWriteExtent} {size resulting start rangeEnd x : ℤ}
  {operation : MountWriteRangeOperation} {digest : Option Digest}

/-- The hole that `apply_nfs_extent_range` adds at the end. -/
def gapExtent (size resulting : ℤ) : NfsWriteExtent where
  offsetBytes := size
  lengthBytes := resulting - size
  isHole := true
  digest := none

/-- The kinds of the current bytes and of the bytes that are added. -/
def grownKinds (current : List NfsWriteExtent) (size : ℤ) (x : ℤ) : Option Bool :=
  if x < size then holeAt current x else some true

theorem NormalForm.grown_rendering (h : NormalForm size current) (hsize : size ≤ resulting) :
    Rendering (grownKinds current size) 0
      (grownNfsExtents current size resulting) resulting (current.length + 1) := by
  have hcurrent : Rendering (grownKinds current size) 0 current size
      current.length := by
    refine ⟨⟨h.spans, ?_⟩, h.sound, le_rfl⟩
    intro x _ hx
    rw [grownKinds, if_pos hx]
    rfl
  rw [grownNfsExtents]
  by_cases hlt : size < resulting
  · have hgap : Rendering (grownKinds current size) size
        [gapExtent size resulting] resulting 1 := by
      refine ⟨SegmentView.renders_singleton rfl (Int.sub_pos.mpr hlt) ?_ ?_, ?_, le_rfl⟩
      · change size + (resulting - size) = resulting
        omega
      · intro x hx _
        rw [grownKinds, if_neg (not_lt.mpr hx)]
        rfl
      · intro piece hpiece
        rw [List.mem_singleton.mp hpiece]
        exact fun _ => rfl
    rw [if_pos hlt]
    exact hcurrent.append hgap le_rfl
  · have heq : size = resulting := by omega
    rw [if_neg hlt, ← heq]
    exact ⟨hcurrent.renders, hcurrent.sound, Nat.le_succ _⟩

/-- What a range operation makes of a normal extent list. -/
structure RangeApplied (current : List NfsWriteExtent)
    (size resulting start rangeEnd : ℤ) (operation : MountWriteRangeOperation)
    (result : List NfsWriteExtent) : Prop where
  normal : NormalForm resulting result
  range : ∀ x, start ≤ x → x ≤ rangeEnd → holeAt result x = some (operation == .holeDeallocate)
  added : ∀ x, size ≤ x → x < resulting → ¬(start ≤ x ∧ x ≤ rangeEnd) → holeAt result x = some true
  kept : ∀ x, 0 ≤ x → x < size → ¬(start ≤ x ∧ x ≤ rangeEnd) → holeAt result x = holeAt current x

/-- Not empty, and inside the resulting size, which is not below the current one. -/
structure RangeFits (size resulting start rangeEnd : ℤ) : Prop where
  nonnegative : 0 ≤ start
  nonempty : start ≤ rangeEnd
  grows : size ≤ resulting
  inside : rangeEnd < resulting
  i64 : resulting < ((2 ^ 63 : ℕ) : ℤ)

theorem rangeReplacement_rendering (hrange : start ≤ rangeEnd)
    (hdigest : operation = .holeDeallocate → digest = none) {kinds : ℤ → Option Bool} :
    Rendering (patched (rangeReplacement start (rangeEnd + 1) operation digest)
        start (rangeEnd + 1) kinds) start
      [rangeReplacement start (rangeEnd + 1) operation digest] (rangeEnd + 1) 1 := by
  refine ⟨SegmentView.renders_singleton rfl ?_ ?_ ?_, ?_, le_rfl⟩
  · change 0 < rangeEnd + 1 - start
    omega
  · change start + (rangeEnd + 1 - start) = rangeEnd + 1
    omega
  · intro x hlow hhigh
    rw [patched_of_mem hlow hhigh]
    rfl
  · intro piece hpiece
    rw [List.mem_singleton.mp hpiece]
    exact fun hhole => hdigest (beq_iff_eq.mp hhole)

/-- The function pushes the pieces and refuses only a list that is too long. -/
theorem applyNfsExtentRange_eq (h : NormalForm size current)
    (hfits : RangeFits size resulting start rangeEnd) :
    applyNfsExtentRange current resulting start rangeEnd operation digest =
      (do let result ← (rangePieces (rangeReplacement start (rangeEnd + 1) operation digest) start
              (rangeEnd + 1) false
              (grownNfsExtents current size resulting)).foldlM
            pushNormalizedNfsExtent []
          validateNormalizedNfsExtents result resulting
          .ok result) := by
  obtain ⟨hstart, hrange, hsize, hstop, hi64⟩ := hfits
  have hguard : ¬(start < 0 ∨ rangeEnd < start ∨ resulting < size ∨ resulting < rangeEnd + 1) := by
    omega
  unfold applyNfsExtentRange
  rw [h.normalizedNfsExtentSize_eq (by omega), ok_bind,
    checkedAddI64_eq_some (by omega) (by omega), okOr_some, ok_bind,
    if_neg hguard]
  rw [← foldlM_rebuild_eq [] (h.grown_rendering hsize).renders.1 le_rfl hi64, bind_assoc]

/-- The rebuilt list has the new kinds, and at most three extents more. -/
theorem NormalForm.exists_rangeApplied (h : NormalForm size current)
    (hfits : RangeFits size resulting start rangeEnd)
    (hdigest : operation = .holeDeallocate → digest = none) :
    ∃ result, RangeApplied current size resulting start rangeEnd operation result ∧
      result.length ≤ current.length + 3 ∧
      applyNfsExtentRange current resulting start rangeEnd operation digest =
        if result.length ≤ maxNfsWriteExtents then .ok result
        else .error .invalidPersistedValue := by
  have hgrown := h.grown_rendering hfits.grows
  have hpieces := rangePieces_false_rendering hgrown.renders hgrown.sound
    hfits.nonnegative (Int.lt_add_one_of_le hfits.nonempty)
    (Int.add_one_le_of_lt hfits.inside) (rangeReplacement_rendering hfits.nonempty hdigest)
  obtain ⟨result, hfold, hpushed⟩ := NormalForm.nil.foldlM_push_ok
    hpieces.renders.1 hpieces.sound hfits.i64
  have hkinds : ∀ x, 0 ≤ x → x < resulting → holeAt result x =
      patched (rangeReplacement start (rangeEnd + 1) operation digest) start
        (rangeEnd + 1) (grownKinds current size) x := by
    intro x hlow hhigh
    rw [hpushed.kinds x]
    exact hpieces.renders.2 x hlow hhigh
  have hstart := hfits.nonnegative
  have hstop := hfits.inside
  have hsize := hfits.grows
  have hzero := h.spans.le
  refine ⟨result, ⟨hpushed.normal, ?_, ?_, ?_⟩, ?_, ?_⟩
  · intro x hlow hhigh
    rw [hkinds x (by omega) (by omega), patched_of_mem hlow (by omega)]
    rfl
  · intro x hlow hhigh hout
    rw [hkinds x (by omega) hhigh, patched, if_neg (by omega), grownKinds, if_neg (not_lt.mpr hlow)]
  · intro x hlow hhigh hout
    rw [hkinds x hlow (by omega), patched, if_neg (by omega), grownKinds, if_pos hhigh]
  · have hlength := hpushed.length
    have hbound := hpieces.length
    have hgrownBound := hgrown.length
    rw [List.length_nil] at hlength
    omega
  · rw [applyNfsExtentRange_eq h hfits, hfold, ok_bind, hpushed.normal.validate_eq hfits.i64]
    by_cases hlength : result.length ≤ maxNfsWriteExtents
    · rw [if_pos hlength, if_pos hlength, ok_bind]
    · rw [if_neg hlength, if_neg hlength, error_bind]

end FileBelt.Write
