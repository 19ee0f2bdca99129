import Mathlib.Algebra.Group.Nat.Defs
import Mathlib.Algebra.Order.Ring.Nat
import Mathlib.Data.List.GetD
import Mathlib.Data.Nat.Basic

/-!
# Sparse files

A file with a size, a content and a map of its allocated blocks of `b` elements;
unallocated blocks read as zero.  The operations set the length, write, allocate and
punch holes.
-/

namespace FileBelt.Support

/-- A file whose holes and whose part beyond the end read as zero. -/
@[ext]
structure SparseFile (α : Type) [Zero α] (b : ℕ) where
  size : ℕ
  content : ℕ → α
  data : ℕ → Bool
  content_of_ge : ∀ x, size ≤ x → content x = 0
  content_of_hole : ∀ x, data (x / b) = false → content x = 0
  data_lt : ∀ k, data k → k * b < size

namespace SparseFile

variable {α : Type} [Zero α] {b offset length x m k : ℕ}

def empty : SparseFile α b where
  size := 0
  content _ := 0
  data _ := false
  content_of_ge _ _ := rfl
  content_of_hole _ _ := rfl
  data_lt _ h := nomatch h

/-- The blocks that a range of bytes meets. -/
def touches (b offset length k : ℕ) : Bool :=
  decide (0 < length ∧ offset / b ≤ k ∧ k ≤ (offset + length - 1) / b)

theorem touches_of_mem (hlow : offset ≤ x) (hhigh : x < offset + length) :
    touches b offset length (x / b) := by
  refine decide_eq_true ⟨by omega, Nat.div_le_div_right hlow, ?_⟩
  exact Nat.div_le_div_right (by omega)

theorem lt_of_touches (h : touches b offset length k) : k * b < offset + length := by
  obtain ⟨hpos, -, hk⟩ := of_decide_eq_true h
  have hle : k * b ≤ (offset + length - 1) / b * b := Nat.mul_le_mul_right b hk
  have hdiv := Nat.div_mul_le_self (offset + length - 1) b
  omega

variable (f : SparseFile α b)

/-- `ftruncate`: cut the file, or extend it by a hole. -/
def setLen (n : ℕ) : SparseFile α b where
  size := n
  content x := if x < n then f.content x else 0
  data k := f.data k && decide (k * b < n)
  content_of_ge x hx := if_neg (not_lt.mpr hx)
  content_of_hole x hx := by
    rw [Bool.and_eq_false_iff] at hx
    rcases hx with hx | hx
    · rw [f.content_of_hole x hx]
      exact ite_self 0
    · have hdiv := Nat.div_mul_le_self x b
      have hnot := of_decide_eq_false hx
      exact if_neg (by omega)
  data_lt k hk := of_decide_eq_true (Bool.and_eq_true_iff.mp hk).2

/-- `pwrite` of a list of elements. -/
def write (offset : ℕ) (bytes : List α) : SparseFile α b where
  size := if bytes.length = 0 then f.size else max f.size (offset + bytes.length)
  content x := if offset ≤ x ∧ x < offset + bytes.length then
      bytes.getD (x - offset) 0
    else f.content x
  data k := f.data k || touches b offset bytes.length k
  content_of_ge x hx := by
    split at hx
    · rw [if_neg (by omega)]
      exact f.content_of_ge x hx
    · rw [if_neg (by omega)]
      exact f.content_of_ge x (by omega)
  content_of_hole x hx := by
    rw [Bool.or_eq_false_iff] at hx
    have hout : ¬(offset ≤ x ∧ x < offset + bytes.length) := by
      rintro ⟨hlow, hhigh⟩
      rw [touches_of_mem hlow hhigh] at hx
      exact Bool.noConfusion hx.2
    rw [if_neg hout]
    exact f.content_of_hole x hx.1
  data_lt k hk := by
    rw [Bool.or_eq_true] at hk
    rcases hk with hk | hk
    · have hlt := f.data_lt k hk
      split
      · exact hlt
      · exact lt_of_lt_of_le hlt (le_max_left _ _)
    · have hlt := lt_of_touches hk
      have hpos : 0 < bytes.length := (of_decide_eq_true hk).1
      rw [if_neg (by omega)]
      exact lt_of_lt_of_le hlt (le_max_right _ _)

/-- `fallocate` of a range that is not empty. -/
def allocate (offset length : ℕ) : SparseFile α b where
  size := if length = 0 then f.size else max f.size (offset + length)
  content := f.content
  data k := f.data k || touches b offset length k
  content_of_ge x hx := by
    refine f.content_of_ge x ?_
    split at hx <;> omega
  content_of_hole x hx := f.content_of_hole x (Bool.or_eq_false_iff.mp hx).1
  data_lt k hk := by
    rw [Bool.or_eq_true] at hk
    rcases hk with hk | hk
    · have hlt := f.data_lt k hk
      split
      · exact hlt
      · exact lt_of_lt_of_le hlt (le_max_left _ _)
    · have hlt := lt_of_touches hk
      have hpos : 0 < length := (of_decide_eq_true hk).1
      rw [if_neg (by omega)]
      exact lt_of_lt_of_le hlt (le_max_right _ _)

/-- The blocks that lie inside a range. -/
def covers (b offset length k : ℕ) : Bool :=
  decide (0 < b ∧ offset ≤ k * b ∧ k * b + b ≤ offset + length)

theorem mem_of_covers (h : covers b offset length (x / b)) :
    offset ≤ x ∧ x < offset + length := by
  obtain ⟨hb, hlow, hhigh⟩ := of_decide_eq_true h
  have hdiv := Nat.div_mul_le_self x b
  have hlt := Nat.lt_div_mul_add (a := x) hb
  omega

/-- `FALLOC_FL_PUNCH_HOLE` with `FALLOC_FL_KEEP_SIZE`. -/
def punch (offset length : ℕ) : SparseFile α b where
  size := f.size
  content x := if offset ≤ x ∧ x < offset + length then 0 else f.content x
  data k := f.data k && !covers b offset length k
  content_of_ge x hx := by
    rw [f.content_of_ge x hx]
    exact ite_self 0
  content_of_hole x hx := by
    rw [Bool.and_eq_false_iff, Bool.not_eq_false'] at hx
    rcases hx with hx | hx
    · rw [f.content_of_hole x hx]
      exact ite_self 0
    · exact if_pos (mem_of_covers hx)
  data_lt k hk := f.data_lt k (Bool.and_eq_true_iff.mp hk).1

/-- Extend the file to at least `n` elements. -/
def padTo (n : ℕ) : SparseFile α b := if f.size < n then f.setLen n else f

def read (offset length : ℕ) : List α :=
  (List.range length).map fun i => f.content (offset + i)

section

variable {f : SparseFile α b} {offset n x k : ℕ} {xs ys : List α}

@[simp]
theorem setLen_size : (f.setLen n).size = n := rfl

theorem padTo_size : (f.padTo n).size = max f.size n := by
  rw [padTo]
  split
  · rw [setLen_size]
    omega
  · omega

theorem padTo_of_le (h : n ≤ f.size) : f.padTo n = f := if_neg (not_lt.mpr h)

/-- Growing a file changes no content and allocates nothing. -/
theorem setLen_content_of_le (h : f.size ≤ n) : (f.setLen n).content = f.content := by
  funext x
  by_cases hx : x < n
  · exact if_pos hx
  · rw [f.content_of_ge x (by omega)]
    exact if_neg hx

theorem setLen_data_of_le (h : f.size ≤ n) : (f.setLen n).data = f.data := by
  funext k
  change (f.data k && decide (k * b < n)) = f.data k
  cases hk : f.data k with
  | false => rfl
  | true =>
    have hlt := f.data_lt k hk
    exact decide_eq_true (by omega)

theorem padTo_content : (f.padTo n).content = f.content := by
  rw [padTo]
  split
  · next h => exact setLen_content_of_le h.le
  · rfl

theorem padTo_data : (f.padTo n).data = f.data := by
  rw [padTo]
  split
  · next h => exact setLen_data_of_le h.le
  · rfl

theorem padTo_padTo (h : m ≤ n) : (f.padTo m).padTo n = f.padTo n := by
  ext
  · rw [padTo_size, padTo_size, padTo_size]
    omega
  · rw [padTo_content, padTo_content, padTo_content]
  · rw [padTo_data, padTo_data, padTo_data]

end

section

variable {f : SparseFile α b} {offset m n x k : ℕ} {xs ys : List α}

theorem touches_add : touches b offset (m + n) k =
    (touches b offset m k || touches b (offset + m) n k) := by
  have hsucc : (offset + m) / b ≤ (offset + m - 1) / b + 1 := by
    by_cases hb : b = 0
    · rw [hb, Nat.div_zero]
      exact Nat.zero_le _
    · rw [← Nat.add_div_right _ (Nat.pos_of_ne_zero hb)]
      exact Nat.div_le_div_right (by omega)
  have hfirst : offset / b ≤ (offset + m) / b := Nat.div_le_div_right (by omega)
  have hlast : (offset + m - 1) / b ≤ (offset + (m + n) - 1) / b := Nat.div_le_div_right (by omega)
  rcases Nat.eq_zero_or_pos m with rfl | hm
  · simp [touches]
  rcases Nat.eq_zero_or_pos n with rfl | hn
  · simp [touches]
  rw [Bool.eq_iff_iff, Bool.or_eq_true]
  simp only [touches, decide_eq_true_eq, Nat.add_assoc] at *
  omega

theorem touches_zero : touches b offset 0 k = false :=
  decide_eq_false fun h => absurd h.1 (Nat.lt_irrefl 0)

theorem write_write : (f.write offset xs).write (offset + xs.length) ys =
    f.write offset (xs ++ ys) := by
  ext
  · simp only [write, List.length_append]
    split <;> split <;> split <;> omega
  · next x =>
    simp only [write, List.length_append]
    by_cases hsecond : offset + xs.length ≤ x ∧ x < offset + xs.length + ys.length
    · rw [if_pos hsecond, if_pos (by omega), List.getD_append_right _ _ _ _ (by omega), Nat.sub_sub]
    · rw [if_neg hsecond]
      by_cases hfirst : offset ≤ x ∧ x < offset + xs.length
      · rw [if_pos hfirst, if_pos (by omega), List.getD_append _ _ _ _ (by omega)]
      · rw [if_neg hfirst, if_neg (by omega)]
  · simp only [write, List.length_append]
    rw [touches_add, Bool.or_assoc]

theorem write_again : (f.write offset xs).write offset (xs ++ ys) = f.write offset (xs ++ ys) := by
  have hsame : (f.write offset xs).write offset xs = f.write offset xs := by
    ext
    · simp only [write]
      split <;> omega
    · simp only [write]
      split <;> rfl
    · simp [write]
  rw [← write_write, hsame, write_write]

theorem write_nil : f.write offset [] = f := by
  ext
  · rfl
  · next x => exact if_neg fun h => absurd h.2 (not_lt.mpr h.1)
  · next k =>
    change (f.data k || touches b offset 0 k) = _
    rw [touches_zero, Bool.or_false]

theorem allocate_allocate : (f.allocate offset m).allocate (offset + m) n =
    f.allocate offset (m + n) := by
  ext
  · simp only [allocate]
    split <;> split <;> split <;> omega
  · rfl
  · simp only [allocate]
    rw [touches_add, Bool.or_assoc]

theorem allocate_again : (f.allocate offset m).allocate offset (m + n) =
    f.allocate offset (m + n) := by
  have hsame : (f.allocate offset m).allocate offset m = f.allocate offset m := by
    ext
    · simp only [allocate]
      split <;> omega
    · rfl
    · simp [allocate]
  rw [← allocate_allocate, hsame, allocate_allocate]

theorem allocate_padTo (hn : 0 < n) :
    (f.padTo (offset + n)).allocate offset n = f.allocate offset n := by
  refine SparseFile.ext ?_ ?_ ?_
  · simp only [allocate, padTo_size]
    split <;> omega
  · exact padTo_content
  · simp only [allocate, padTo_data]

theorem allocate_zero : f.allocate offset 0 = f := by
  ext
  · rfl
  · rfl
  · next k =>
    change (f.data k || touches b offset 0 k) = _
    rw [touches_zero, Bool.or_false]

/-- The blocks inside a range that is cut at a block boundary. -/
theorem covers_add (h : b ∣ offset + m) : covers b offset (m + n) k =
    (covers b offset m k || covers b (offset + m) n k) := by
  rw [Bool.eq_iff_iff, Bool.or_eq_true]
  simp only [covers, decide_eq_true_eq]
  obtain ⟨q, hq⟩ := h
  constructor
  · rintro ⟨hb, hlow, hhigh⟩
    by_cases hk : k * b + b ≤ offset + m
    · exact .inl ⟨hb, hlow, hk⟩
    · refine .inr ⟨hb, ?_, by omega⟩
      -- the block after the cut starts at the cut or later
      have hlt : b * q < b * (k + 1) := by
        rw [Nat.mul_add, Nat.mul_comm b k]
        omega
      have hle : q ≤ k := Nat.lt_succ_iff.mp (Nat.lt_of_mul_lt_mul_left hlt)
      rw [hq, Nat.mul_comm k b]
      exact Nat.mul_le_mul_left b hle
  · rintro (⟨hb, hlow, hhigh⟩ | ⟨hb, hlow, hhigh⟩)
    · exact ⟨hb, hlow, by omega⟩
    · exact ⟨hb, by omega, by omega⟩

theorem punch_punch (h : b ∣ offset + m) :
    (f.punch offset m).punch (offset + m) n = f.punch offset (m + n) := by
  ext
  · rfl
  · next x =>
    simp only [punch]
    by_cases hsecond : offset + m ≤ x ∧ x < offset + m + n
    · rw [if_pos hsecond, if_pos (by omega)]
    · rw [if_neg hsecond]
      by_cases hfirst : offset ≤ x ∧ x < offset + m
      · rw [if_pos hfirst, if_pos (by omega)]
      · rw [if_neg hfirst, if_neg (by omega)]
  · simp only [punch]
    rw [covers_add h, Bool.not_or, Bool.and_assoc]

theorem covers_zero : covers b offset 0 k = false := decide_eq_false fun h => by omega

theorem punch_zero : f.punch offset 0 = f := by
  ext
  · rfl
  · next x => exact if_neg fun h => absurd h.2 (not_lt.mpr h.1)
  · next k =>
    change (f.data k && !covers b offset 0 k) = _
    rw [covers_zero, Bool.not_false, Bool.and_true]

theorem punch_self : (f.punch offset m).punch offset m = f.punch offset m := by
  refine SparseFile.ext rfl (funext fun x => ?_) (funext fun k => ?_)
  · simp only [punch]
    split
    · rfl
    · rfl
  · simp only [punch, Bool.and_assoc, Bool.and_self]

theorem punch_again (h : b ∣ offset + m) :
    (f.punch offset m).punch offset (m + n) = f.punch offset (m + n) := by
  have hsame : (f.punch offset m).punch offset m = f.punch offset m := by
    ext
    · rfl
    · simp only [punch]
      split <;> rfl
    · simp [punch]
  rw [← punch_punch h, hsame, punch_punch h]

end

end SparseFile

end FileBelt.Support
