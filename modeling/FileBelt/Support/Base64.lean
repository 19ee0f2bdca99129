import Mathlib.Data.Nat.Basic
import Mathlib.Tactic.Common

/-!
# Base64 of the URL alphabet, without padding

Three bytes are four digits of six bits.  The decoder is strict: it refuses other
characters, a lone last digit and last digits with unused bits that are not zero.
-/

namespace FileBelt.Support.Base64

def digit (n : ℕ) : UInt8 :=
  UInt8.ofNat (if n < 26 then n + 65 else if n < 52 then n + 71 else if n < 62 then n - 4
    else if n = 62 then 45 else 95)

def value (b : UInt8) : Option ℕ :=
  let n := b.toNat
  if 65 ≤ n ∧ n ≤ 90 then some (n - 65)
  else if 97 ≤ n ∧ n ≤ 122 then some (n - 71)
  else if 48 ≤ n ∧ n ≤ 57 then some (n + 4)
  else if n = 45 then some 62
  else if n = 95 then some 63
  else none

def encode : List UInt8 → List UInt8
  | [] => []
  | [a] => [digit (a.toNat / 4), digit (a.toNat % 4 * 16)]
  | [a, b] =>
    [digit (a.toNat / 4), digit (a.toNat % 4 * 16 + b.toNat / 16), digit (b.toNat % 16 * 4)]
  | a :: b :: c :: rest =>
    digit (a.toNat / 4) :: digit (a.toNat % 4 * 16 + b.toNat / 16) ::
      digit (b.toNat % 16 * 4 + c.toNat / 64) :: digit (c.toNat % 64) :: encode rest

def decode : List UInt8 → Option (List UInt8)
  | [] => some []
  | [_] => none
  | [w, x] => do
      let w ← value w
      let x ← value x
      if x % 16 ≠ 0 then none else some [UInt8.ofNat (w * 4 + x / 16)]
  | [w, x, y] => do
      let w ← value w
      let x ← value x
      let y ← value y
      if y % 4 ≠ 0 then none
      else
        some [UInt8.ofNat (w * 4 + x / 16), UInt8.ofNat (x % 16 * 16 + y / 4)]
  | w :: x :: y :: z :: rest => do
      let w ← value w
      let x ← value x
      let y ← value y
      let z ← value z
      let rest ← decode rest
      some (UInt8.ofNat (w * 4 + x / 16) :: UInt8.ofNat (x % 16 * 16 + y / 4) ::
        UInt8.ofNat (y % 4 * 64 + z) :: rest)

theorem value_digit {n : ℕ} (h : n < 64) : value (digit n) = some n := by
  have hall : ∀ n < 64, value (digit n) = some n := by decide +kernel
  exact hall n h

theorem ofNat_eq {a : UInt8} {n : ℕ} (h : n = a.toNat) : UInt8.ofNat n = a := by
  rw [h, UInt8.ofNat_toNat]

theorem decode_encode (bytes : List UInt8) : decode (encode bytes) = some bytes := by
  induction bytes using encode.induct with
  | case1 => rfl
  | case2 a =>
    have ha := a.toNat_lt
    have hbyte : UInt8.ofNat (a.toNat / 4 * 4 + a.toNat % 4 * 16 / 16) = a := ofNat_eq (by omega)
    rw [encode, decode, value_digit (by omega), value_digit (by omega)]
    simp only [Option.bind_eq_bind, Option.bind_some, hbyte]
    rw [if_neg (by omega)]
  | case3 a b =>
    have ha := a.toNat_lt
    have hb := b.toNat_lt
    have hfirst : UInt8.ofNat (a.toNat / 4 * 4 +
        (a.toNat % 4 * 16 + b.toNat / 16) / 16) = a := ofNat_eq (by omega)
    have hsecond : UInt8.ofNat ((a.toNat % 4 * 16 + b.toNat / 16) % 16 * 16 +
        b.toNat % 16 * 4 / 4) = b := ofNat_eq (by omega)
    rw [encode, decode, value_digit (by omega), value_digit (by omega), value_digit (by omega)]
    simp only [Option.bind_eq_bind, Option.bind_some, hfirst, hsecond]
    rw [if_neg (by omega)]
  | case4 a b c rest ih =>
    have ha := a.toNat_lt
    have hb := b.toNat_lt
    have hc := c.toNat_lt
    have hfirst : UInt8.ofNat (a.toNat / 4 * 4 +
        (a.toNat % 4 * 16 + b.toNat / 16) / 16) = a := ofNat_eq (by omega)
    have hsecond : UInt8.ofNat ((a.toNat % 4 * 16 + b.toNat / 16) % 16 * 16 +
        (b.toNat % 16 * 4 + c.toNat / 64) / 4) = b := ofNat_eq (by omega)
    have hthird : UInt8.ofNat ((b.toNat % 16 * 4 + c.toNat / 64) % 4 * 64 +
        c.toNat % 64) = c := ofNat_eq (by omega)
    rw [encode, decode, value_digit (by omega), value_digit (by omega),
      value_digit (by omega), value_digit (by omega), ih]
    simp only [Option.bind_eq_bind, Option.bind_some, hfirst, hsecond, hthird]

theorem encode_length (bytes : List UInt8) :
    (encode bytes).length = (bytes.length * 4 + 2) / 3 := by
  induction bytes using encode.induct with
  | case1 => rfl
  | case2 => simp [encode]
  | case3 => simp [encode]
  | case4 a b c rest ih =>
    simp only [encode, List.length_cons]
    omega

end FileBelt.Support.Base64
