/-
  MangoV4.Lib.Fixed

  Signed fixed-point numbers.

  `Fixed bits frac` has `bits` bits, `frac` of them after the binary point; its
  value is `raw / 2 ^ frac`.  A value carries the proof that it is in range,
  and arithmetic that would leave the range is an overflow panic.  Products
  are rounded down, quotients towards zero.

  `Float p frac` is a binary floating-point number with `p` significant bits
  as it comes out of a conversion from a fixed-point number: a multiple of
  `2 ^ -frac`.
-/

import MangoV4.Lib.Exec
import Mathlib.Algebra.Order.Ring.Int
import Mathlib.Tactic.Positivity

namespace MangoV4.Lib

/-- A signed fixed-point number. -/
@[ext]
structure Fixed (bits frac : Nat) where
  raw : Int
  inRange : -(2 : Int) ^ (bits - 1) ≤ raw ∧ raw < (2 : Int) ^ (bits - 1)
deriving DecidableEq

namespace Fixed

variable {ε : Type} {bits frac : Nat}

open Exec

/-- The number with the given bits, if they are in range. -/
def ofRaw (x : Int) : Exec ε (Fixed bits frac) :=
  if h : -(2 : Int) ^ (bits - 1) ≤ x ∧ x < (2 : Int) ^ (bits - 1) then .ok ⟨x, h⟩
  else panic .overflow

def zero : Fixed bits frac where
  raw := 0
  inRange := ⟨by simp, by positivity⟩

instance : LE (Fixed bits frac) := ⟨fun x y => x.raw ≤ y.raw⟩
instance : LT (Fixed bits frac) := ⟨fun x y => x.raw < y.raw⟩

instance (x y : Fixed bits frac) : Decidable (x ≤ y) := inferInstanceAs (Decidable (x.raw ≤ y.raw))
instance (x y : Fixed bits frac) : Decidable (x < y) := inferInstanceAs (Decidable (x.raw < y.raw))

def ofInt (n : Int) : Exec ε (Fixed bits frac) := ofRaw (n * 2 ^ frac)

def add (x y : Fixed bits frac) : Exec ε (Fixed bits frac) := ofRaw (x.raw + y.raw)
def sub (x y : Fixed bits frac) : Exec ε (Fixed bits frac) := ofRaw (x.raw - y.raw)
def neg (x : Fixed bits frac) : Exec ε (Fixed bits frac) := ofRaw (-x.raw)
def abs (x : Fixed bits frac) : Exec ε (Fixed bits frac) := ofRaw x.raw.natAbs

/-- Rounded down. -/
def mul (x y : Fixed bits frac) : Exec ε (Fixed bits frac) := ofRaw (x.raw * y.raw / 2 ^ frac)

/-- Rounded towards zero. -/
def div (x y : Fixed bits frac) : Exec ε (Fixed bits frac) :=
  if y.raw = 0 then panic .divideByZero else ofRaw ((x.raw * 2 ^ frac).tdiv y.raw)

def min (x y : Fixed bits frac) : Fixed bits frac := if x ≤ y then x else y
def max (x y : Fixed bits frac) : Fixed bits frac := if x ≤ y then y else x

/-- The integer part, rounded down. -/
def toInt (x : Fixed bits frac) : Int := x.raw / 2 ^ frac

/-- The integer part, rounded up. -/
def ceilInt (x : Fixed bits frac) : Int := -(-x.raw / 2 ^ frac)

/-- The integer part, rounded towards zero. -/
def truncInt (x : Fixed bits frac) : Int := x.raw.tdiv (2 ^ frac)

/-- The whole number below. -/
def floor (x : Fixed bits frac) : Exec ε (Fixed bits frac) := ofInt x.toInt

/-- The next whole number. -/
def ceil (x : Fixed bits frac) : Exec ε (Fixed bits frac) := ofInt x.ceilInt

def toI64 (x : Fixed bits frac) : Exec ε Int := checkI64 x.toInt

def toU64 (x : Fixed bits frac) : Exec ε Nat :=
  if 0 ≤ x.toInt then checkU64 x.toInt.toNat else panic .overflow

/-! ## Reading outcomes

In range, the outcome is the one number with the computed bits. -/

section

variable {x y z : Fixed bits frac}

theorem ofRaw_eq_ok {n : Int} : (ofRaw n : Exec ε (Fixed bits frac)) = .ok x ↔ x.raw = n := by
  unfold ofRaw
  by_cases h : -(2 : Int) ^ (bits - 1) ≤ n ∧ n < (2 : Int) ^ (bits - 1)
  · rw [dif_pos h]
    constructor
    · intro heq
      rw [← ok_inj heq]
    · rintro rfl
      rfl
  · rw [dif_neg h]
    constructor
    · intro heq
      cases heq
    · rintro rfl
      exact absurd x.inRange h

theorem add_eq_ok : (x.add y : Exec ε _) = .ok z ↔ z.raw = x.raw + y.raw := ofRaw_eq_ok
theorem sub_eq_ok : (x.sub y : Exec ε _) = .ok z ↔ z.raw = x.raw - y.raw := ofRaw_eq_ok
theorem neg_eq_ok : (x.neg : Exec ε _) = .ok z ↔ z.raw = -x.raw := ofRaw_eq_ok
theorem mul_eq_ok : (x.mul y : Exec ε _) = .ok z ↔ z.raw = x.raw * y.raw / 2 ^ frac := ofRaw_eq_ok

theorem ofInt_eq_ok {n : Int} : (ofInt n : Exec ε _) = .ok z ↔ z.raw = n * 2 ^ frac := ofRaw_eq_ok

theorem floor_eq_ok : (x.floor : Exec ε _) = .ok z ↔ z.raw = x.raw / 2 ^ frac * 2 ^ frac :=
  ofRaw_eq_ok

theorem ceil_eq_ok : (x.ceil : Exec ε _) = .ok z ↔ z.raw = -(-x.raw / 2 ^ frac) * 2 ^ frac :=
  ofRaw_eq_ok

theorem toU64_eq_ok {n : Nat} (h : (x.toU64 : Exec ε Nat) = .ok n) :
    (n : Int) = x.raw / 2 ^ frac := by
  unfold toU64 at h
  split at h
  · rename_i hnonneg
    obtain ⟨-, rfl⟩ := checkU64_eq_ok.mp h
    exact Int.toNat_of_nonneg hnonneg
  · cases h

theorem div_eq_ok :
    (x.div y : Exec ε _) = .ok z ↔ y.raw ≠ 0 ∧ z.raw = (x.raw * 2 ^ frac).tdiv y.raw := by
  unfold div
  by_cases h : y.raw = 0
  · simp [h, Exec.panic]
  · simp [h, ofRaw_eq_ok]

theorem le_iff : x ≤ y ↔ x.raw ≤ y.raw := Iff.rfl
theorem lt_iff : x < y ↔ x.raw < y.raw := Iff.rfl
theorem not_lt : ¬ x < y ↔ y ≤ x := Int.not_lt
theorem not_le : ¬ x ≤ y ↔ y < x := Int.not_le

@[simp] theorem raw_zero : (zero : Fixed bits frac).raw = 0 := rfl

theorem raw_max : (x.max y).raw = Max.max x.raw y.raw := by
  unfold max
  split
  · next h => exact (max_eq_right h).symm
  · next h => exact (max_eq_left (Int.le_of_lt (Int.not_le.mp h))).symm

theorem raw_min : (x.min y).raw = Min.min x.raw y.raw := by
  unfold min
  split
  · next h => exact (min_eq_left h).symm
  · next h => exact (min_eq_right (Int.le_of_lt (Int.not_le.mp h))).symm

end

end Fixed

/-- A floating-point number with `p` significant bits, as a multiple of `2 ^ -frac`. -/
structure Float (p frac : Nat) where
  raw : Int
deriving DecidableEq

namespace Float

variable {ε : Type} {bits frac p : Nat}

/-- The nearest number with `p` significant bits; ties go to the even one. -/
def roundNat (p m : Nat) : Nat :=
  if m < 2 ^ p then m
  else
    let shift := Nat.log2 m + 1 - p
    let q := m / 2 ^ shift
    let rest := m % 2 ^ shift
    let up := decide (2 ^ shift < 2 * rest ∨ (2 * rest = 2 ^ shift ∧ q % 2 = 1))
    (if up then q + 1 else q) * 2 ^ shift

def ofFixed (x : Fixed bits frac) : Float p frac where
  raw := x.raw.sign * roundNat p x.raw.natAbs

def toFixed (x : Float p frac) : Exec ε (Fixed bits frac) := Fixed.ofRaw x.raw

end Float

end MangoV4.Lib
