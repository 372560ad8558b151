/-
  MangoV4.Lib.Arith

  Number formats.

  Code that computes with fixed-point numbers is written once, over any number
  format.  Run on `Fixed bits frac` it rounds and overflows as the machine
  does; run on `ℚ` it is the same code in exact arithmetic.  `LawfulArith` says
  what holds in both: sums, differences and products with whole numbers are
  exact if there is a result at all.
-/

import MangoV4.Lib.FixedRat
import Mathlib.Data.Rat.Floor

namespace MangoV4.Lib

/-- A number format: every number stands for a rational, and an operation may
    round its result or end in a panic. -/
class Arith (N : Type) extends Zero N, LE N, LT N where
  decEq : DecidableEq N
  decLE : DecidableLE N
  decLT : DecidableLT N
  toRat : N → ℚ
  ofInt {ε : Type} : Int → Exec ε N
  add {ε : Type} : N → N → Exec ε N
  sub {ε : Type} : N → N → Exec ε N
  neg {ε : Type} : N → Exec ε N
  mul {ε : Type} : N → N → Exec ε N
  div {ε : Type} : N → N → Exec ε N
  /-- the quotient in double precision; there has to be one -/
  divF64 {ε : Type} : N → N → Exec ε N
  /-- the integer part, rounded down -/
  toInt : N → Int

namespace Arith

section Order

variable {N : Type} [Arith N]

instance (priority := low) : DecidableEq N := decEq
instance (priority := low) : DecidableLE N := decLE
instance (priority := low) : DecidableLT N := decLT

def min (x y : N) : N := if x ≤ y then x else y

def max (x y : N) : N := if x ≤ y then y else x

/-- `Ord::clamp` -/
def clamp {ε : Type} (x low high : N) : Exec ε N := do
  Exec.assert (decide (low ≤ high))
  return if x < low then low else if high < x then high else x

end Order

end Arith

open Arith (toRat)

/-- What holds in every number format. -/
class LawfulArith (N : Type) [Arith N] : Prop where
  toRat_injective : Function.Injective (toRat : N → ℚ)
  toRat_zero : toRat (0 : N) = 0
  toRat_ofInt {ε : Type} {n : Int} {x : N} : (Arith.ofInt n : Exec ε N) = .ok x → toRat x = n
  toRat_add {ε : Type} {x y z : N} : (Arith.add x y : Exec ε N) = .ok z →
    toRat z = toRat x + toRat y
  toRat_sub {ε : Type} {x y z : N} : (Arith.sub x y : Exec ε N) = .ok z →
    toRat z = toRat x - toRat y
  toRat_neg {ε : Type} {x y : N} : (Arith.neg x : Exec ε N) = .ok y → toRat y = -toRat x
  toRat_mul_ofInt {ε ε' : Type} {n : Int} {x y z : N} : (Arith.ofInt n : Exec ε N) = .ok y →
    (Arith.mul x y : Exec ε' N) = .ok z → toRat z = toRat x * n

/-- Numbers are ordered as the rationals they stand for, and a product is rounded
    down, if at all; that of an integer is exact. -/
class RoundsDown (N : Type) [Arith N] : Prop extends LawfulArith N where
  le_iff {x y : N} : x ≤ y ↔ toRat x ≤ toRat y
  lt_iff {x y : N} : x < y ↔ toRat x < toRat y
  mul_of_whole {ε : Type} {n : Int} {x y z : N} : toRat x = n →
    (Arith.mul x y : Exec ε N) = .ok z → toRat z = n * toRat y
  mul_le {ε : Type} {x y z : N} : (Arith.mul x y : Exec ε N) = .ok z → toRat z ≤ toRat x * toRat y
  mul_nonneg {ε : Type} {x y z : N} : (Arith.mul x y : Exec ε N) = .ok z → 0 ≤ toRat x →
    0 ≤ toRat y → 0 ≤ toRat z
  mul_mono {ε : Type} {x y z x' y' z' : N} : (Arith.mul x y : Exec ε N) = .ok z →
    (Arith.mul x' y' : Exec ε N) = .ok z' →
    toRat x * toRat y ≤ toRat x' * toRat y' → toRat z ≤ toRat z'

namespace RoundsDown

variable {N : Type} [Arith N] [RoundsDown N]

theorem toRat_min (x y : N) :
    toRat (Arith.min x y) = Min.min (toRat x) (toRat y) := by
  rw [Arith.min, min_def, apply_ite toRat]
  simp only [le_iff]

theorem toRat_max (x y : N) :
    toRat (Arith.max x y) = Max.max (toRat x) (toRat y) := by
  rw [Arith.max, max_def, apply_ite toRat]
  simp only [le_iff]

end RoundsDown

/-- The conversions from and to double precision next to a number format; a
    double is the rational it stands for. -/
class Doubles (N : Type) where
  /-- the nearest double -/
  round : ℚ → ℚ
  /-- the number nearest to a double -/
  ofDouble {ε : Type} : ℚ → Exec ε N
  /-- the largest number -/
  maxValue : N

/-- `f64::MAX` -/
def F64_MAX : ℚ := (2 ^ 53 - 1) * 2 ^ 971

/-! ## Exact arithmetic -/

namespace Rat

open Exec Arith

instance : Arith ℚ where
  decEq := inferInstance
  decLE := inferInstance
  decLT := inferInstance
  toRat x := x
  ofInt n := .ok n
  add x y := .ok (x + y)
  sub x y := .ok (x - y)
  neg x := .ok (-x)
  mul x y := .ok (x * y)
  div x y := if y = 0 then panic .divideByZero else .ok (x / y)
  divF64 x y := if y = 0 then panic .unwrap else .ok (x / y)
  toInt x := ⌊x⌋

variable {ε : Type} {x y : ℚ}

@[simp] theorem arith_toRat (x : ℚ) : toRat x = x := rfl
@[simp] theorem arith_ofInt (n : Int) : (ofInt n : Exec ε ℚ) = .ok (n : ℚ) := rfl
@[simp] theorem arith_add (x y : ℚ) : (add x y : Exec ε ℚ) = .ok (x + y) := rfl
@[simp] theorem arith_mul (x y : ℚ) : (mul x y : Exec ε ℚ) = .ok (x * y) := rfl
@[simp] theorem arith_sub (x y : ℚ) : (sub x y : Exec ε ℚ) = .ok (x - y) := rfl

theorem arith_div (hy : y ≠ 0) : (div x y : Exec ε ℚ) = .ok (x / y) := if_neg hy

theorem arith_divF64 (hy : y ≠ 0) : (divF64 x y : Exec ε ℚ) = .ok (x / y) := if_neg hy

@[simp] theorem arith_min (x y : ℚ) : Arith.min x y = Min.min x y := rfl

instance : Doubles ℚ where
  round x := x
  ofDouble x := .ok x
  -- of the fixed-point numbers that stand for the rationals
  maxValue := 2 ^ 79 - 1 / 2 ^ 48

instance : LawfulArith ℚ where
  toRat_injective _ _ h := h
  toRat_zero := rfl
  toRat_ofInt h := (ok_inj h).symm
  toRat_add h := (ok_inj h).symm
  toRat_sub h := (ok_inj h).symm
  toRat_neg h := (ok_inj h).symm
  toRat_mul_ofInt hy h := by
    rw [← ok_inj hy] at h
    exact (ok_inj h).symm

instance : RoundsDown ℚ where
  le_iff := Iff.rfl
  lt_iff := Iff.rfl
  mul_of_whole hx h := by
    rw [← ok_inj h, ← hx]
    rfl
  mul_le h := (ok_inj h).ge
  mul_nonneg h hx hy := ok_inj h ▸ Rat.mul_nonneg hx hy
  mul_mono h h' hle := ok_inj h ▸ ok_inj h' ▸ hle

end Rat

/-! ## Fixed-point numbers -/

/-- The integer nearest to `m / n`; ties go to the even one. -/
def divNearest (m n : Nat) : Nat :=
  if n < 2 * (m % n) ∨ (2 * (m % n) = n ∧ m / n % 2 = 1) then m / n + 1 else m / n

/-- `m / n` rounded to `p` significant bits, as a multiple of `2 ^ -frac`: first
    rounded as a floating-point number, then as a fixed-point number. -/
def divFloat (p frac m n : Nat) : Nat :=
  -- enough bits of the quotient to have `p` of them, and whether there are more
  let shift := p + Nat.log2 n + 1
  let q := m * 2 ^ shift / n
  let inexact := decide (m * 2 ^ shift % n ≠ 0)
  let drop := Nat.log2 q + 1 - p
  let rest := q % 2 ^ drop
  let up := decide (2 ^ drop < 2 * rest ∨ (2 * rest = 2 ^ drop ∧ (inexact ∨ q / 2 ^ drop % 2 = 1)))
  let mantissa := if up then q / 2 ^ drop + 1 else q / 2 ^ drop
  divNearest (mantissa * 2 ^ (drop + frac)) (2 ^ shift)

namespace Fixed

open Exec

variable {bits frac : Nat}

/-- Both numbers are converted to double precision and divided. -/
def divF64 {ε : Type} (x y : Fixed bits frac) : Exec ε (Fixed bits frac) :=
  if y.raw = 0 then panic .unwrap
  else
    let q : Int := divFloat 53 frac (Float.roundNat 53 x.raw.natAbs) (Float.roundNat 53 y.raw.natAbs)
    unwrapResult (ofRaw (x.raw.sign * y.raw.sign * q))

instance : Arith (Fixed bits frac) where
  zero := zero
  decEq := inferInstance
  decLE := inferInstance
  decLT := inferInstance
  toRat := toRat
  ofInt := ofInt
  add := add
  sub := sub
  neg := neg
  mul := mul
  div := div
  divF64 := divF64
  toInt := toInt

/-- Doubles are multiples of `2 ^ -1100`. -/
instance : Doubles (Fixed bits frac) where
  round x := x.num.sign * (divFloat 53 1100 x.num.natAbs x.den / 2 ^ 1100)
  ofDouble x := ofRaw (x.num.sign * divNearest (x.num.natAbs * 2 ^ frac) x.den)
  maxValue := ⟨2 ^ (bits - 1) - 1, by
    have hpos : (0 : Int) < 2 ^ (bits - 1) := by positivity
    omega⟩

instance : LawfulArith (Fixed bits frac) where
  toRat_injective _ _ := toRat_inj.mp
  toRat_zero := Fixed.toRat_zero
  toRat_ofInt h := (isWhole_ofInt h).toRat
  toRat_add h := Fixed.toRat_add h
  toRat_sub h := Fixed.toRat_sub h
  toRat_neg h := Fixed.toRat_neg h
  toRat_mul_ofInt hy h := toRat_mul_right (isWhole_ofInt hy) h

instance : RoundsDown (Fixed bits frac) where
  le_iff := toRat_le_iff.symm
  lt_iff := toRat_lt_iff.symm
  mul_of_whole hx h := toRat_mul_left (isWhole_of_toRat hx) h
  mul_le h := (toRat_mul_bounds h).1
  mul_nonneg h hx hy := toRat_mul_nonneg hx hy h
  mul_mono h h' hle := toRat_mul_mono h h' hle

end Fixed

end MangoV4.Lib
