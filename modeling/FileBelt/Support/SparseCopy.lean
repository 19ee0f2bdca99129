import FileBelt.Support.Segments
import FileBelt.Support.SparseFile

/-!
# Searching and copying sparse files

`SEEK_DATA` and `SEEK_HOLE` find the next element in an allocated block and the next
one in a hole; the end of the file counts as a hole.  Writing the runs of data that
these searches find to a file of the same length copies the file with its holes.
-/

namespace FileBelt.Support

theorem isFirst_find?_range' (p : ℕ → Bool) (x n : ℕ) :
    IsFirst (fun y => x ≤ y ∧ y < x + n ∧ p y) ((List.range' x n).find? p) := by
  induction n generalizing x with
  | zero =>
    rintro y ⟨hlow, hhigh, -⟩
    omega
  | succ n ih =>
    rw [List.range'_succ]
    by_cases hp : p x = true
    · rw [List.find?_cons_of_pos hp]
      exact isFirst_some ⟨le_rfl, by omega, hp⟩ fun y hy => hy.1
    · rw [List.find?_cons_of_neg hp]
      refine (ih (x + 1)).congr fun y => ?_
      constructor
      · rintro ⟨hlow, hhigh, hy⟩
        exact ⟨by omega, by omega, hy⟩
      · rintro ⟨hlow, hhigh, hy⟩
        have hne : x ≠ y := by
          rintro rfl
          exact hp hy
        exact ⟨by omega, by omega, hy⟩

namespace SparseFile

variable {α : Type} [Zero α] {b : ℕ}

/-- `SEEK_DATA`; nothing stands for `ENXIO`. -/
def seekData (f : SparseFile α b) (x : ℕ) : Option ℕ :=
  if x < f.size then (List.range' x (f.size - x)).find? fun y => f.data (y / b)
  else none

/-- `SEEK_HOLE`; nothing stands for `ENXIO`. -/
def seekHole (f : SparseFile α b) (x : ℕ) : Option ℕ :=
  if x < f.size then
    some (((List.range' x (f.size - x)).find? fun y => !f.data (y / b)).getD f.size)
  else none

section

variable {f : SparseFile α b} {x d e : ℕ}

theorem seekData_isFirst : IsFirst
    (fun y => x ≤ y ∧ y < f.size ∧ f.data (y / b)) (f.seekData x) := by
  rw [seekData]
  by_cases hx : x < f.size
  · rw [if_pos hx]
    refine (isFirst_find?_range' _ x (f.size - x)).congr fun y => ?_
    rw [Nat.add_sub_cancel' hx.le]
  · rw [if_neg hx]
    rintro y ⟨hlow, hhigh, -⟩
    omega

theorem seekHole_isFirst (hx : x < f.size) : IsFirst
    (fun y => x ≤ y ∧ (y < f.size ∧ f.data (y / b) = false ∨ y = f.size)) (f.seekHole x) := by
  have hfind := isFirst_find?_range' (fun y => !f.data (y / b)) x (f.size - x)
  rw [Nat.add_sub_cancel' hx.le] at hfind
  rw [seekHole, if_pos hx]
  generalize (List.range' x (f.size - x)).find? (fun y => !f.data (y / b)) = found at hfind
  cases found with
  | some =>
    obtain ⟨⟨hlow, hhigh, hhole⟩, hleast⟩ := hfind
    refine isFirst_some ⟨hlow, .inl ⟨hhigh, ?_⟩⟩ ?_
    · exact (Bool.not_eq_true' _).mp hhole
    · rintro z ⟨hz, ⟨hsize, hdata⟩ | rfl⟩
      · exact hleast ⟨hz, hsize, (Bool.not_eq_true' _).mpr hdata⟩
      · exact hhigh.le
  | none =>
    refine isFirst_some ⟨hx.le, .inr rfl⟩ ?_
    rintro z ⟨hz, ⟨hsize, hdata⟩ | rfl⟩
    · exact absurd ⟨hz, hsize, (Bool.not_eq_true' _).mpr hdata⟩ (hfind z)
    · exact le_rfl

theorem seekData_eq_some (h : f.seekData x = some d) :
    x ≤ d ∧ d < f.size ∧ f.data (d / b) ∧ ∀ y, x ≤ y → y < d → f.data (y / b) = false := by
  have hfirst : IsFirst (fun y => x ≤ y ∧ y < f.size ∧ f.data (y / b))
      (f.seekData x) := seekData_isFirst
  rw [h] at hfirst
  obtain ⟨⟨hlow, hhigh, hdata⟩, hleast⟩ := hfirst
  refine ⟨hlow, hhigh, hdata, fun y hy hlt => ?_⟩
  by_contra hne
  have hle : d ≤ y := hleast ⟨hy, by omega, Bool.eq_true_of_not_eq_false hne⟩
  omega

theorem seekHole_eq_some (h : f.seekHole d = some e) (hd : d < f.size)
    (hdata : f.data (d / b)) :
    d < e ∧ e ≤ f.size ∧ ∀ y, d ≤ y → y < e → f.data (y / b) := by
  have hfirst := seekHole_isFirst hd
  rw [h] at hfirst
  obtain ⟨⟨hlow, hend⟩, hleast⟩ := hfirst
  have hsize : e ≤ f.size := by
    rcases hend with ⟨hlt, -⟩ | rfl
    · exact hlt.le
    · exact le_rfl
  refine ⟨?_, hsize, fun y hy hlt => ?_⟩
  · by_contra hge
    have heq : d = e := by omega
    rcases hend with ⟨-, hhole⟩ | hsame
    · rw [← heq, hdata] at hhole
      cases hhole
    · omega
  · by_contra hne
    have hle : e ≤ y := hleast ⟨hy, .inl ⟨by omega, Bool.eq_false_of_not_eq_true hne⟩⟩
    omega

end

/-- The runs of data from `cursor` on, as pairs of a start and an end. -/
def dataRuns (f : SparseFile α b) (cursor : ℕ) : List (ℕ × ℕ) :=
  match _hd : f.seekData cursor with
  | none => []
  | some d =>
    match _he : f.seekHole d with
    | none => []
    | some e => (d, e) :: dataRuns f e
termination_by f.size - cursor
decreasing_by
  obtain ⟨hlow, hsize, hdata, -⟩ := seekData_eq_some ‹f.seekData cursor = some d›
  obtain ⟨hlt, -, -⟩ := seekHole_eq_some ‹f.seekHole d = some e› hsize hdata
  omega

/-- A range cut into pieces of at most `limit` elements. -/
def cutBy (limit offset length : ℕ) : List (ℕ × ℕ) :=
  if _h : 0 < length ∧ 0 < limit then
    (offset, min length limit) ::
      cutBy limit (offset + min length limit) (length - min length limit)
  else []
termination_by length
decreasing_by omega

def copyRange (f g : SparseFile α b) (range : ℕ × ℕ) : SparseFile α b :=
  g.write range.1 (f.read range.1 range.2)

section

variable {f g : SparseFile α b} {offset length m n x cursor d e : ℕ}

@[simp]
theorem length_read : (f.read offset length).length = length := by
  rw [read, List.length_map, List.length_range]

theorem read_add : f.read offset (m + n) = f.read offset m ++ f.read (offset + m) n := by
  rw [read, List.range_add, List.map_append, List.map_map]
  congr 1
  refine List.map_congr_left fun i _ => ?_
  rw [Function.comp_apply, Nat.add_assoc]

theorem getD_read (h : x < length) : (f.read offset length).getD x 0 = f.content (offset + x) := by
  rw [read, List.getD_eq_getElem?_getD, List.getElem?_map, List.getElem?_range h]
  rfl

theorem empty_write_read_size :
    ((empty : SparseFile α b).write 0 (f.read offset length)).size = length := by
  change (if (f.read offset length).length = 0 then 0
    else max 0 (0 + (f.read offset length).length)) = length
  rw [length_read]
  split <;> omega

theorem empty_write_read_content (h : x < length) :
    ((empty : SparseFile α b).write 0 (f.read offset length)).content x =
      f.content (offset + x) := by
  change (if 0 ≤ x ∧ x < 0 + (f.read offset length).length then
    (f.read offset length).getD (x - 0) 0 else 0) = _
  rw [length_read, if_pos (by omega), Nat.sub_zero, getD_read h]

theorem foldl_write_cutBy {source : ℕ → ℕ → List α} (hlength : ∀ o n, (source o n).length = n)
    (hadd : ∀ o m n, source o (m + n) = source o m ++ source (o + m) n)
    (limit : ℕ) (hlimit : 0 < limit) :
    (cutBy limit offset length).foldl (fun g range => g.write range.1 (source range.1 range.2)) g =
      g.write offset (source offset length) := by
  induction offset, length using cutBy.induct limit generalizing g with
  | case1 offset length hcond ih =>
    have hsplit : min length limit + (length - min length limit) = length := by omega
    rw [cutBy, dif_pos hcond, List.foldl_cons, ih]
    conv_rhs => rw [← hsplit, hadd, ← write_write, hlength]
  | case2 offset length hcond =>
    have hzero : length = 0 := by omega
    have hnil : source offset 0 = [] := List.eq_nil_of_length_eq_zero (hlength offset 0)
    rw [cutBy, hzero, hnil]
    exact write_nil.symm

theorem foldl_copyRange_cutBy (limit : ℕ) (hlimit : 0 < limit) :
    (cutBy limit offset length).foldl (copyRange f) g = g.write offset (f.read offset length) := by
  have hlength : ∀ o n, (f.read o n).length = n := fun _ _ => length_read
  exact foldl_write_cutBy hlength (fun _ _ _ => read_add) limit hlimit

/-- The part of a file before `cursor`, with the length of the file. -/
def upTo (f : SparseFile α b) (cursor : ℕ) : SparseFile α b := (f.setLen cursor).setLen f.size

theorem upTo_content (hcursor : cursor ≤ f.size) :
    (f.upTo cursor).content x = if x < cursor then f.content x else 0 := by
  rw [upTo, setLen_content_of_le (by exact hcursor)]
  rfl

theorem upTo_data (hcursor : cursor ≤ f.size) (k : ℕ) :
    (f.upTo cursor).data k = (f.data k && decide (k * b < cursor)) := by
  rw [upTo, setLen_data_of_le (by exact hcursor)]
  rfl

theorem upTo_copyRange (hb : 0 < b) (hcursor : cursor ≤ f.size) (hd : f.seekData cursor = some d)
    (he : f.seekHole d = some e) : (f.upTo cursor).write d (f.read d (e - d)) = f.upTo e := by
  obtain ⟨hlow, hsize, hdata, hholes⟩ := seekData_eq_some hd
  obtain ⟨hlt, hend, hrun⟩ := seekHole_eq_some he hsize hdata
  ext
  · change (if (f.read d (e - d)).length = 0 then f.size else
      max f.size (d + (f.read d (e - d)).length)) = f.size
    rw [length_read]
    split <;> omega
  · next x =>
    rw [upTo_content hend]
    change (if d ≤ x ∧ x < d + (f.read d (e - d)).length then
      (f.read d (e - d)).getD (x - d) 0 else (f.upTo cursor).content x) = _
    rw [length_read, upTo_content hcursor]
    by_cases hin : d ≤ x ∧ x < d + (e - d)
    · rw [if_pos hin, getD_read (by omega), if_pos (by omega)]
      congr 1
      omega
    · rw [if_neg hin]
      by_cases hbefore : x < cursor
      · rw [if_pos hbefore, if_pos (by omega)]
      · rw [if_neg hbefore]
        split
        · exact (f.content_of_hole x (hholes x (by omega) (by omega))).symm
        · rfl
  · next k =>
    rw [upTo_data hend]
    change ((f.upTo cursor).data k || touches b d (f.read d (e - d)).length k) = _
    rw [length_read, upTo_data hcursor, Bool.eq_iff_iff]
    simp only [Bool.or_eq_true, Bool.and_eq_true, decide_eq_true_eq]
    constructor
    · rintro (⟨hk, hbefore⟩ | htouch)
      · exact ⟨hk, by omega⟩
      · have hkb := lt_of_touches htouch
        obtain ⟨-, hfirst, hlast⟩ := of_decide_eq_true htouch
        refine ⟨?_, by omega⟩
        -- the block contains an element of the run
        have hblock : max d (k * b) / b = k := by
          have hdle : d < (k + 1) * b := (Nat.div_lt_iff_lt_mul hb).mp (by omega)
          have hge : k ≤ max d (k * b) / b := (Nat.le_div_iff_mul_le hb).mpr (le_max_right _ _)
          have hle : max d (k * b) / b < k + 1 :=
            (Nat.div_lt_iff_lt_mul hb).mpr (max_lt hdle (by
              rw [Nat.add_mul]
              omega))
          omega
        rw [← hblock]
        exact hrun _ (le_max_left _ _) (by omega)
    · rintro ⟨hk, hkb⟩
      by_cases hbefore : k * b < cursor
      · exact .inl ⟨hk, hbefore⟩
      · right
        have hdiv : k * b / b = k := Nat.mul_div_cancel k hb
        have hge : d ≤ k * b := by
          by_contra hnot
          have hhole := hholes (k * b) (by omega) (by omega)
          rw [hdiv, hk] at hhole
          cases hhole
        have htouch : touches b d (e - d) (k * b / b) := touches_of_mem hge (by omega)
        rw [hdiv] at htouch
        exact htouch

/-- A file without data from `cursor` on. -/
theorem upTo_of_seekData_none (hb : 0 < b) (hcursor : cursor ≤ f.size)
    (hd : f.seekData cursor = none) : f.upTo cursor = f := by
  have hfirst : IsFirst (fun y => cursor ≤ y ∧ y < f.size ∧ f.data (y / b))
      (f.seekData cursor) := seekData_isFirst
  rw [hd] at hfirst
  have hholes : ∀ y, cursor ≤ y → y < f.size → f.data (y / b) = false := by
    intro y hy hlt
    by_contra hne
    exact hfirst y ⟨hy, hlt, Bool.eq_true_of_not_eq_false hne⟩
  ext
  · rfl
  · next x =>
    rw [upTo_content hcursor]
    by_cases hx : x < cursor
    · exact if_pos hx
    · rw [if_neg hx]
      by_cases hsize : x < f.size
      · exact (f.content_of_hole x (hholes x (by omega) hsize)).symm
      · exact (f.content_of_ge x (by omega)).symm
  · next k =>
    rw [upTo_data hcursor]
    cases hk : f.data k with
    | false => rfl
    | true =>
      have hlt := f.data_lt k hk
      rw [Bool.true_and, decide_eq_true_eq]
      by_contra hnot
      have hhole := hholes (k * b) (by omega) hlt
      rw [Nat.mul_div_cancel k hb, hk] at hhole
      cases hhole

theorem foldl_copyRange_dataRuns (hb : 0 < b) (limit : ℕ) (hlimit : 0 < limit)
    (hcursor : cursor ≤ f.size) :
    ((f.dataRuns cursor).flatMap fun run => cutBy limit run.1 (run.2 - run.1)).foldl
      (copyRange f) (f.upTo cursor) = f := by
  induction cursor using dataRuns.induct f with
  | case1 cursor hd =>
    rw [dataRuns]
    split
    · exact upTo_of_seekData_none hb hcursor hd
    · next heq =>
      rw [hd] at heq
      cases heq
  | case2 cursor d hd he =>
    obtain ⟨-, hsize, -, -⟩ := seekData_eq_some hd
    rw [seekHole, if_pos hsize] at he
    cases he
  | case3 cursor d hd e he ih =>
    obtain ⟨-, hsize, hdata, -⟩ := seekData_eq_some hd
    obtain ⟨-, hend, -⟩ := seekHole_eq_some he hsize hdata
    have hruns : f.dataRuns cursor = (d, e) :: f.dataRuns e := by
      rw [dataRuns]
      split
      · next heq =>
        rw [hd] at heq
        cases heq
      · next d' heq =>
        rw [hd] at heq
        obtain rfl := Option.some.inj heq
        split
        · next heq' =>
          rw [he] at heq'
          cases heq'
        · next e' heq' =>
          rw [he] at heq'
          rw [Option.some.inj heq']
    rw [hruns, List.flatMap_cons, List.foldl_append,
      foldl_copyRange_cutBy limit hlimit, upTo_copyRange hb hcursor hd he]
    exact ih hend

end

end SparseFile

end FileBelt.Support
