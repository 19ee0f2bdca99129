import Mathlib.Data.List.Basic
import Mathlib.Data.UInt
import Mathlib.Tactic.Common

/-!
# Encodings by concatenation

Numbers of fixed width with the most significant byte first, slices of a byte string,
and codes that can be told apart from whatever follows them.  A record is encoded by
the codes of its fields one after the other.
-/

namespace FileBelt.Support.Encoding

/-- The last `width` bytes of a number, most significant first. -/
def beBytes : ℕ → ℕ → List UInt8
  | 0, _ => []
  | width + 1, n => beBytes width (n / 256) ++ [UInt8.ofNat n]

def ofBeBytes (bytes : List UInt8) : ℕ := bytes.foldl (fun n byte => n * 256 + byte.toNat) 0

@[simp]
theorem length_beBytes (width n : ℕ) : (beBytes width n).length = width := by
  induction width generalizing n with
  | zero => rfl
  | succ width ih =>
    rw [beBytes, List.length_append, ih]
    rfl

@[simp]
theorem ofBeBytes_append_singleton (bytes : List UInt8) (byte : UInt8) :
    ofBeBytes (bytes ++ [byte]) = ofBeBytes bytes * 256 + byte.toNat := by
  rw [ofBeBytes, List.foldl_append]
  rfl

theorem ofBeBytes_beBytes {width n : ℕ} (h : n < 256 ^ width) :
    ofBeBytes (beBytes width n) = n := by
  induction width generalizing n with
  | zero =>
    obtain rfl : n = 0 := Nat.lt_one_iff.mp h
    rfl
  | succ width ih =>
    have hdiv : n / 256 < 256 ^ width := by
      apply Nat.div_lt_of_lt_mul
      rw [Nat.pow_succ, Nat.mul_comm] at h
      exact h
    rw [beBytes, ofBeBytes_append_singleton, ih hdiv]
    exact Nat.div_add_mod' n 256

theorem ofBeBytes_lt (bytes : List UInt8) : ofBeBytes bytes < 256 ^ bytes.length := by
  induction bytes using List.reverseRecOn with
  | nil => exact Nat.one_pos
  | append_singleton bytes byte ih =>
    have hbyte := byte.toNat_lt
    rw [ofBeBytes_append_singleton, List.length_append, List.length_singleton]
    omega

theorem beBytes_ofBeBytes (bytes : List UInt8) :
    beBytes bytes.length (ofBeBytes bytes) = bytes := by
  induction bytes using List.reverseRecOn with
  | nil => rfl
  | append_singleton bytes byte ih =>
    have hbyte : byte.toNat < 256 := byte.toNat_lt
    have hdiv : (ofBeBytes bytes * 256 + byte.toNat) / 256 = ofBeBytes bytes := by
      omega
    have hlast : UInt8.ofNat (ofBeBytes bytes * 256 + byte.toNat) = byte := by
      apply UInt8.toNat_inj.mp
      rw [UInt8.toNat_ofNat']
      omega
    rw [List.length_append, List.length_singleton, ofBeBytes_append_singleton,
      beBytes, hdiv, ih, hlast]

section

variable {α : Type*} {xs ys : List α} {n start stop mid : ℕ}

/-- The elements from one position to another. -/
def slice (xs : List α) (start stop : ℕ) : List α := (xs.drop start).take (stop - start)

theorem length_slice (h : stop ≤ xs.length) : (slice xs start stop).length = stop - start := by
  rw [slice, List.length_take, List.length_drop]
  omega

theorem slice_append (h : xs.length ≤ start) :
    slice (xs ++ ys) start stop = slice ys (start - xs.length) (stop - xs.length) := by
  rw [slice, List.drop_append, List.drop_eq_nil_of_le h]
  congr 1
  omega

theorem slice_append_self (h : xs.length = n) (ys : List α) : slice (xs ++ ys) 0 n = xs := by
  rw [slice, List.drop_zero, Nat.sub_zero, ← h, List.take_left]

theorem slice_self (h : xs.length = n) : slice xs 0 n = xs := by
  rw [slice, List.drop_zero, Nat.sub_zero, ← h, List.take_length]

theorem slice_append_slice (xs : List α) (hstart : start ≤ mid) (hstop : mid ≤ stop) :
    slice xs start mid ++ slice xs mid stop = slice xs start stop := by
  rw [slice, slice, slice]
  have hdrop : xs.drop mid = (xs.drop start).drop (mid - start) := by
    rw [List.drop_drop]
    congr 1
    omega
  have hlength : stop - start = (mid - start) + (stop - mid) := by omega
  rw [hdrop, hlength, List.take_add]

end

variable {α β : Type*}

/-- What begins with the codes of two values begins with one code, and goes on in
one way. -/
def Unambiguous (P : α → Prop) (code : α → List β) : Prop :=
  ∀ {a b : α} {s t : List β}, P a → P b → code a ++ s = code b ++ t → a = b ∧ s = t

variable {P : α → Prop} {code : α → List β}

theorem unambiguous_of_length (width : ℕ) (hlength : ∀ a, P a → (code a).length = width)
    (hinjective : ∀ a b, P a → P b → code a = code b → a = b) : Unambiguous P code := by
  intro a b s t ha hb h
  have hlengths : (code a).length = (code b).length := (hlength a ha).trans (hlength b hb).symm
  obtain ⟨hcode, hrest⟩ := List.append_inj h hlengths
  exact ⟨hinjective a b ha hb hcode, hrest⟩

/-- As many codes, one after the other. -/
theorem Unambiguous.flatMap (h : Unambiguous P code) {xs ys : List α}
    {s t : List β} (hxs : ∀ x ∈ xs, P x) (hys : ∀ y ∈ ys, P y) (hlength : xs.length = ys.length)
    (heq : xs.flatMap code ++ s = ys.flatMap code ++ t) : xs = ys ∧ s = t := by
  induction xs generalizing ys with
  | nil =>
    obtain rfl := List.length_eq_zero_iff.mp hlength.symm
    exact ⟨rfl, heq⟩
  | cons x xs ih =>
    cases ys with
    | nil => cases hlength
    | cons y =>
      rw [List.flatMap_cons, List.flatMap_cons, List.append_assoc, List.append_assoc] at heq
      obtain ⟨rfl, hrest⟩ := h (hxs x List.mem_cons_self) (hys y List.mem_cons_self) heq
      obtain ⟨rfl, hst⟩ := ih (List.forall_mem_cons.mp hxs).2
        (List.forall_mem_cons.mp hys).2
        (Nat.succ.inj hlength) hrest
      exact ⟨rfl, hst⟩

theorem unambiguous_beBytes (width : ℕ) :
    Unambiguous (fun n => n < 256 ^ width) (beBytes width) := by
  apply unambiguous_of_length width
  · intro n _
    exact length_beBytes width n
  · intro n m hn hm h
    rw [← ofBeBytes_beBytes hn, h, ofBeBytes_beBytes hm]

/-- Bytes behind their number. -/
def lengthPrefixed (width : ℕ) (bytes : List UInt8) : List UInt8 :=
  beBytes width bytes.length ++ bytes

theorem unambiguous_lengthPrefixed (width : ℕ) :
    Unambiguous (fun bytes : List UInt8 => bytes.length < 256 ^ width) (lengthPrefixed width) := by
  intro a b s t ha hb h
  rw [lengthPrefixed, lengthPrefixed, List.append_assoc, List.append_assoc] at h
  obtain ⟨hlength, hrest⟩ := unambiguous_beBytes width ha hb h
  exact List.append_inj hrest hlength

end FileBelt.Support.Encoding
