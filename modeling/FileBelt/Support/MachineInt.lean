import Mathlib.Algebra.Group.Nat.Defs
import Mathlib.Data.Nat.Basic
import Mathlib.Tactic.Common

/-!
# Checked machine arithmetic

Unsigned machine integers are natural numbers and signed ones integers.  The
operations of this module are the checked ones: they return nothing where the
result does not fit the machine type.
-/

namespace FileBelt.Support

/-- Checked addition of 64-bit unsigned integers. -/
def checkedAdd (a b : ℕ) : Option ℕ := if a + b < 2 ^ 64 then some (a + b) else none

/-- Checked multiplication of 64-bit unsigned integers. -/
def checkedMul (a b : ℕ) : Option ℕ := if a * b < 2 ^ 64 then some (a * b) else none

/-- Checked subtraction of unsigned integers. -/
def checkedSub (a b : ℕ) : Option ℕ := if b ≤ a then some (a - b) else none

def toI32 (n : ℕ) : Option ℤ := if n < 2 ^ 31 then some n else none

def toI64 (n : ℕ) : Option ℤ := if n < 2 ^ 63 then some n else none

def checkedAddI64 (a b : ℤ) : Option ℤ :=
  if -((2 ^ 63 : ℕ) : ℤ) ≤ a + b ∧ a + b < ((2 ^ 63 : ℕ) : ℤ) then some (a + b)
  else none

def checkedMulI64 (a b : ℤ) : Option ℤ :=
  if -((2 ^ 63 : ℕ) : ℤ) ≤ a * b ∧ a * b < ((2 ^ 63 : ℕ) : ℤ) then some (a * b)
  else none

def saturatingAddI64 (a b : ℤ) : ℤ :=
  max (-((2 ^ 63 : ℕ) : ℤ)) (min (a + b) (((2 ^ 63 : ℕ) : ℤ) - 1))

def toUnsigned (z : ℤ) : Option ℕ := if 0 ≤ z then some z.toNat else none

/-- The 64-bit unsigned value with the bits of a signed one. -/
def asU64 (z : ℤ) : ℕ := if 0 ≤ z then z.toNat else (z + (2 ^ 64 : ℕ)).toNat

/-- The 64-bit signed value with the bits of an unsigned one. -/
def asI64 (n : ℕ) : ℤ := if n < 2 ^ 63 then n else (n : ℤ) - (2 ^ 64 : ℕ)

variable {n : ℕ} {z b a : ℤ}

theorem asI64_asU64 (hlow : -((2 ^ 63 : ℕ) : ℤ) ≤ z) (hhigh : z < ((2 ^ 63 : ℕ) : ℤ)) :
    asI64 (asU64 z) = z := by
  unfold asU64 asI64
  split
  · omega
  · omega

theorem asU64_asI64 (h : n < 2 ^ 64) : asU64 (asI64 n) = n := by
  unfold asU64 asI64
  split
  · exact Int.toNat_natCast n
  · rw [if_neg (by omega)]
    omega

theorem asI64_toUInt64 (v : Int64) : asI64 v.toUInt64.toNat = v.toInt := by
  have hbits : v.toUInt64.toNat = v.toBitVec.toNat := rfl
  rw [Int64.toInt, BitVec.toInt_eq_toNat_cond, asI64]
  split <;> split <;> omega

theorem asU64_lt (hlow : -((2 ^ 63 : ℕ) : ℤ) ≤ z) (hhigh : z < ((2 ^ 63 : ℕ) : ℤ)) :
    asU64 z < 2 ^ 64 := by
  unfold asU64
  split
  · omega
  · omega

theorem checkedAdd_eq_some {a b : ℕ} (h : a + b < 2 ^ 64) : checkedAdd a b = some (a + b) :=
  if_pos h

theorem checkedMul_eq_some {a b : ℕ} (h : a * b < 2 ^ 64) : checkedMul a b = some (a * b) :=
  if_pos h

theorem checkedMul_comm (a b : ℕ) : checkedMul a b = checkedMul b a := by
  rw [checkedMul, checkedMul, Nat.mul_comm]

theorem checkedSub_eq_some {a b : ℕ} (h : b ≤ a) : checkedSub a b = some (a - b) := if_pos h

theorem toI32_eq_some (h : n < 2 ^ 31) : toI32 n = some (n : ℤ) := if_pos h

theorem toI64_eq_some (h : n < 2 ^ 63) : toI64 n = some (n : ℤ) := if_pos h

theorem toI64_inv (h : toI64 n = some z) : z = n := by
  obtain ⟨-, h⟩ := Option.ite_none_right_eq_some.mp h
  exact (Option.some.inj h).symm

theorem checkedAddI64_eq_some (hlow : 0 ≤ a + b) (hhigh : a + b < ((2 ^ 63 : ℕ) : ℤ)) :
    checkedAddI64 a b = some (a + b) :=
  if_pos ⟨by omega, hhigh⟩

theorem checkedMulI64_eq_some (hlow : 0 ≤ a * b) (hhigh : a * b < ((2 ^ 63 : ℕ) : ℤ)) :
    checkedMulI64 a b = some (a * b) :=
  if_pos ⟨by omega, hhigh⟩

theorem saturatingAddI64_eq (hlow : 0 ≤ a + b) (hhigh : a + b < ((2 ^ 63 : ℕ) : ℤ)) :
    saturatingAddI64 a b = a + b := by
  unfold saturatingAddI64
  omega

theorem checkedAddI64_inv {c : ℤ} (h : checkedAddI64 a b = some c) : c = a + b := by
  obtain ⟨-, h⟩ := Option.ite_none_right_eq_some.mp h
  exact (Option.some.inj h).symm

@[simp]
theorem toUnsigned_natCast (n : ℕ) : toUnsigned (n : ℤ) = some n := by
  simp [toUnsigned]

end FileBelt.Support
