import FileBelt.Support.SparseFile

/-!
# Sparse files in chunks

A sparse file cut into chunks of `c` elements, where blocks do not cross chunks.
An operation on a range inside one chunk is that operation on the chunk, and
leaves the other chunks as they are.
-/

namespace FileBelt.Support.SparseFile

variable {α : Type} [Zero α] {b x : ℕ} {f g : SparseFile α b} {c j n w l k : ℕ} {bytes : List α}

theorem div_chunk (h : b ∣ c) (n x : ℕ) : (n * c + x) / b = n * (c / b) + x / b := by
  obtain ⟨q, rfl⟩ := h
  by_cases hb : b = 0
  · rw [hb, Nat.div_zero, Nat.div_zero, Nat.div_zero, Nat.mul_zero]
  · have hpos : 0 < b := Nat.pos_of_ne_zero hb
    rw [Nat.mul_div_cancel_left q hpos, Nat.mul_left_comm, Nat.mul_add_div hpos]

theorem chunk_mul (h : b ∣ c) (n k : ℕ) : (n * (c / b) + k) * b = n * c + k * b := by
  rw [Nat.add_mul, Nat.mul_assoc, Nat.div_mul_cancel h]

def chunk (f : SparseFile α b) (c : ℕ) (h : b ∣ c) (n : ℕ) : SparseFile α b where
  size := min c (f.size - n * c)
  content x := if x < c then f.content (n * c + x) else 0
  data k := decide (k * b < c) && f.data (n * (c / b) + k)
  content_of_ge x hx := by
    split
    · exact f.content_of_ge _ (by omega)
    · rfl
  content_of_hole x hx := by
    by_cases hlt : x < c
    · have hdiv := Nat.div_mul_le_self x b
      rw [decide_eq_true (by omega : x / b * b < c), Bool.true_and] at hx
      rw [if_pos hlt]
      refine f.content_of_hole _ ?_
      rw [div_chunk h]
      exact hx
    · exact if_neg hlt
  data_lt k hk := by
    rw [Bool.and_eq_true, decide_eq_true_eq] at hk
    have hlt := f.data_lt _ hk.2
    rw [chunk_mul h] at hlt
    omega

theorem chunk_eq_empty (h : b ∣ c) (hsize : f.size ≤ n * c) : f.chunk c h n = empty := by
  refine SparseFile.ext ?_ (funext fun x => ?_) (funext fun k => ?_)
  · change min c (f.size - n * c) = 0
    omega
  · change (if x < c then f.content (n * c + x) else 0) = 0
    rw [f.content_of_ge (n * c + x) (by omega)]
    exact ite_self 0
  · change (decide (k * b < c) && f.data (n * (c / b) + k)) = false
    cases hk : f.data (n * (c / b) + k) with
    | false => exact Bool.and_false _
    | true =>
      have hlt := f.data_lt _ hk
      rw [chunk_mul h] at hlt
      omega

theorem touches_shift (h : b ∣ c) :
    touches b (n * c + w) l (n * (c / b) + k) = touches b w l k := by
  rw [Bool.eq_iff_iff]
  simp only [touches, decide_eq_true_eq, div_chunk h]
  by_cases hl : 0 < l
  · rw [show n * c + w + l - 1 = n * c + (w + l - 1) by omega, div_chunk h]
    omega
  · tauto

theorem touches_other (h : b ∣ c) (hj : j ≠ n) (hw : w + l ≤ c) (hk : k * b < c) :
    touches b (n * c + w) l (j * (c / b) + k) = false := by
  refine decide_eq_false ?_
  rintro ⟨hpos, hlow, hhigh⟩
  rw [div_chunk h] at hlow
  rw [show n * c + w + l - 1 = n * c + (w + l - 1) by omega, div_chunk h] at hhigh
  have hb : 0 < b := by
    by_contra hzero
    obtain ⟨q, rfl⟩ := h
    rw [Nat.eq_zero_of_not_pos hzero] at hk
    omega
  have hkq : k < c / b := (Nat.lt_div_iff_mul_lt' h k).mpr (by rwa [Nat.mul_comm])
  have hlast : (w + l - 1) / b < c / b := by
    rw [Nat.div_lt_iff_lt_mul hb, Nat.div_mul_cancel h]
    omega
  have hnonneg := Nat.zero_le (w / b)
  rcases Nat.lt_or_gt_of_ne hj with hlt | hgt
  · have hmul : (j + 1) * (c / b) ≤ n * (c / b) := Nat.mul_le_mul_right _ hlt
    rw [Nat.add_mul] at hmul
    omega
  · have hmul : (n + 1) * (c / b) ≤ j * (c / b) := Nat.mul_le_mul_right _ hgt
    rw [Nat.add_mul] at hmul
    omega

theorem chunk_apart (hj : j ≠ n) : j * c + c ≤ n * c ∨ n * c + c ≤ j * c := by
  rcases Nat.lt_or_gt_of_ne hj with hlt | hgt
  · left
    have hmul : (j + 1) * c ≤ n * c := Nat.mul_le_mul_right _ hlt
    rwa [Nat.add_mul, Nat.one_mul] at hmul
  · right
    have hmul : (n + 1) * c ≤ j * c := Nat.mul_le_mul_right _ hgt
    rwa [Nat.add_mul, Nat.one_mul] at hmul

variable (h : b ∣ c)
include h

theorem chunk_eq (hsize : g.size = min c (f.size - n * c))
    (hcontent : ∀ x, x < c → f.content (n * c + x) = g.content x)
    (hdata : ∀ k, k * b < c → f.data (n * (c / b) + k) = g.data k) : f.chunk c h n = g := by
  refine SparseFile.ext hsize.symm (funext fun x => ?_) (funext fun k => ?_)
  · by_cases hx : x < c
    · exact (if_pos hx).trans (hcontent x hx)
    · exact (if_neg hx).trans (g.content_of_ge x (by omega)).symm
  · change (decide (k * b < c) && _) = _
    by_cases hk : k * b < c
    · rw [decide_eq_true hk, Bool.true_and, hdata k hk]
    · rw [decide_eq_false hk, Bool.false_and, eq_comm, Bool.eq_false_iff]
      intro hg
      have hlt := g.data_lt k hg
      omega

theorem content_chunk (n : ℕ) (hx : x < c) : (f.chunk c h n).content x = f.content (n * c + x) :=
  if_pos hx

theorem data_chunk (n : ℕ) (hk : k * b < c) :
    (f.chunk c h n).data k = f.data (n * (c / b) + k) := by
  change (decide (k * b < c) && _) = _
  rw [decide_eq_true hk, Bool.true_and]

theorem chunk_write_self (hw : w + bytes.length ≤ c) (hsize : n * c + w ≤ f.size) :
    (f.write (n * c + w) bytes).chunk c h n = (f.chunk c h n).write w bytes := by
  refine chunk_eq h ?_ (fun x hx => ?_) fun k hk => ?_
  · simp only [chunk, write]
    split <;> omega
  · simp only [write, content_chunk h n hx, Nat.add_assoc, Nat.add_le_add_iff_left,
      Nat.add_lt_add_iff_left, Nat.add_sub_add_left]
  · simp only [write, data_chunk h n hk, touches_shift h]

theorem chunk_write_other (hj : j ≠ n) (hw : w + bytes.length ≤ c)
    (hsize : n * c + w ≤ f.size) : (f.write (n * c + w) bytes).chunk c h j = f.chunk c h j := by
  have hapart := chunk_apart (c := c) hj
  refine chunk_eq h ?_ (fun x hx => ?_) fun k hk => ?_
  · simp only [chunk, write]
    split <;> omega
  · rw [content_chunk h j hx]
    exact if_neg (by omega)
  · simp only [write, data_chunk h j hk, touches_other h hj hw hk, Bool.or_false]

theorem chunk_allocate_self (hw : w + l ≤ c) (hsize : n * c + w ≤ f.size) :
    (f.allocate (n * c + w) l).chunk c h n = (f.chunk c h n).allocate w l := by
  refine chunk_eq h ?_ (fun x hx => (content_chunk h n hx).symm) fun k hk => ?_
  · simp only [chunk, allocate]
    split <;> omega
  · simp only [allocate, data_chunk h n hk, touches_shift h]

theorem chunk_allocate_other (hj : j ≠ n) (hw : w + l ≤ c)
    (hsize : n * c + w ≤ f.size) : (f.allocate (n * c + w) l).chunk c h j = f.chunk c h j := by
  have hapart := chunk_apart (c := c) hj
  refine chunk_eq h ?_ (fun x hx => (content_chunk h j hx).symm) fun k hk => ?_
  · simp only [chunk, allocate]
    split <;> omega
  · simp only [allocate, data_chunk h j hk, touches_other h hj hw hk, Bool.or_false]

theorem covers_shift : covers b (n * c + w) l (n * (c / b) + k) = covers b w l k := by
  rw [Bool.eq_iff_iff]
  simp only [covers, decide_eq_true_eq, chunk_mul h]
  omega

theorem chunk_punch_self : (f.punch (n * c + w) l).chunk c h n = (f.chunk c h n).punch w l := by
  refine chunk_eq h rfl (fun x hx => ?_) fun k hk => ?_
  · simp only [punch, content_chunk h n hx, Nat.add_assoc, Nat.add_le_add_iff_left,
      Nat.add_lt_add_iff_left]
  · simp only [punch, data_chunk h n hk, covers_shift h]

theorem chunk_punch_other (hj : j ≠ n) (hw : w + l ≤ c) :
    (f.punch (n * c + w) l).chunk c h j = f.chunk c h j := by
  have hapart := chunk_apart (c := c) hj
  refine chunk_eq h rfl (fun x hx => ?_) fun k hk => ?_
  · rw [content_chunk h j hx]
    exact if_neg (by omega)
  · have hnot : covers b (n * c + w) l (j * (c / b) + k) = false := by
      refine decide_eq_false ?_
      rintro ⟨hb, hlow, hhigh⟩
      rw [chunk_mul h] at hlow hhigh
      omega
    simp only [punch, data_chunk h j hk, hnot, Bool.not_false, Bool.and_true]

theorem chunk_padTo_self (hw : w ≤ c) (hsize : n * c ≤ f.size) :
    (f.padTo (n * c + w)).chunk c h n = (f.chunk c h n).padTo w := by
  ext
  · simp only [chunk, padTo_size]
    omega
  · simp only [chunk, padTo_content]
  · simp only [chunk, padTo_data]

theorem chunk_padTo_other (hj : j ≠ n) (hw : w ≤ c) (hsize : n * c ≤ f.size) :
    (f.padTo (n * c + w)).chunk c h j = f.chunk c h j := by
  have hapart := chunk_apart (c := c) hj
  ext
  · simp only [chunk, padTo_size]
    omega
  · next x => simp only [chunk, padTo_content]
  · next k => simp only [chunk, padTo_data]

end FileBelt.Support.SparseFile
