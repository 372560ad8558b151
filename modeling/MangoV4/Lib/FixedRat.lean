/-
  MangoV4.Lib.FixedRat

  The rational number that a fixed-point number stands for.

  Sums, differences and negations are exact if they do not overflow.  Products
  are rounded in general, but not if one factor is a whole number.  A number
  that fits the mantissa of a floating-point format survives the conversion.
-/

import MangoV4.Lib.Fixed
import Mathlib.Algebra.Order.Field.Basic
import Mathlib.Data.Rat.Cast.Order
import Mathlib.Tactic.FieldSimp
import Mathlib.Tactic.Ring

namespace MangoV4.Lib

variable {ε : Type} {bits frac : Nat}

namespace Fixed

variable {x y z : Fixed bits frac} {n : Int}

/-- The value of the number. -/
def toRat (x : Fixed bits frac) : ℚ := x.raw / 2 ^ frac

theorem scale_pos (frac : Nat) : (0 : ℚ) < 2 ^ frac := by positivity

@[simp] theorem toRat_zero : (zero : Fixed bits frac).toRat = 0 := by simp [toRat]

theorem toRat_inj : x.toRat = y.toRat ↔ x = y := by
  constructor
  · intro h
    have hraw : (x.raw : ℚ) = y.raw := (div_left_inj' (scale_pos frac).ne').mp h
    exact Fixed.ext (by exact_mod_cast hraw)
  · rintro rfl
    rfl

theorem toRat_add (h : (x.add y : Exec ε _) = .ok z) : z.toRat = x.toRat + y.toRat := by
  rw [toRat, add_eq_ok.mp h, Int.cast_add, add_div, toRat, toRat]

theorem toRat_sub (h : (x.sub y : Exec ε _) = .ok z) : z.toRat = x.toRat - y.toRat := by
  rw [toRat, sub_eq_ok.mp h, Int.cast_sub, sub_div, toRat, toRat]

theorem toRat_neg (h : (x.neg : Exec ε _) = .ok z) : z.toRat = -x.toRat := by
  rw [toRat, neg_eq_ok.mp h, Int.cast_neg, neg_div, toRat]

/-- The number is the integer `n`. -/
def IsWhole (x : Fixed bits frac) (n : Int) : Prop := x.raw = n * 2 ^ frac

theorem isWhole_ofInt (h : (ofInt n : Exec ε _) = .ok x) : x.IsWhole n := ofRaw_eq_ok.mp h

theorem IsWhole.toRat (h : x.IsWhole n) : x.toRat = n := by
  rw [Fixed.toRat, h]
  push_cast
  exact mul_div_cancel_right₀ _ (scale_pos frac).ne'

theorem isWhole_of_toRat (h : x.toRat = n) : x.IsWhole n := by
  rw [toRat, div_eq_iff (scale_pos frac).ne'] at h
  exact_mod_cast h

theorem IsWhole.abs (hx : x.IsWhole n) (h : (x.abs : Exec ε _) = .ok z) : z.IsWhole |n| := by
  have hraw : z.raw = x.raw.natAbs := ofRaw_eq_ok.mp h
  rw [IsWhole, hraw, hx, Int.natCast_natAbs, abs_mul, abs_of_pos (a := (2 : Int) ^ frac) (by positivity)]

theorem raw_mul_of_isWhole (hy : y.IsWhole n) (h : (x.mul y : Exec ε _) = .ok z) :
    z.raw = x.raw * n := by
  rw [mul_eq_ok.mp h, hy, ← Int.mul_assoc]
  exact Int.mul_ediv_cancel _ (by positivity)

theorem IsWhole.mul {m : Int} (hx : x.IsWhole m) (hy : y.IsWhole n)
    (h : (x.mul y : Exec ε _) = .ok z) : z.IsWhole (m * n) := by
  rw [IsWhole, raw_mul_of_isWhole hy h, hx]
  ring

theorem IsWhole.neg (hx : x.IsWhole n) (h : (x.neg : Exec ε _) = .ok z) : z.IsWhole (-n) := by
  rw [IsWhole, neg_eq_ok.mp h, hx, neg_mul]

/-- A product with zero. -/
theorem IsWhole.zero_mul (hx : x.IsWhole 0) (h : (x.mul y : Exec ε _) = .ok z) :
    z.IsWhole 0 := by
  rw [IsWhole, mul_eq_ok.mp h, hx, Int.zero_mul, Int.zero_mul, Int.zero_ediv]

/-- A whole factor is not rounded. -/
theorem toRat_mul_right (hy : y.IsWhole n) (h : (x.mul y : Exec ε _) = .ok z) :
    z.toRat = x.toRat * n := by
  rw [Fixed.toRat, raw_mul_of_isWhole hy h, Int.cast_mul, Fixed.toRat]
  ring

theorem toRat_mul_left (hx : x.IsWhole n) (h : (x.mul y : Exec ε _) = .ok z) :
    z.toRat = n * y.toRat := by
  have hcomm : (y.mul x : Exec ε _) = .ok z := by
    rw [mul_eq_ok, Int.mul_comm]
    exact mul_eq_ok.mp h
  rw [toRat_mul_right hx hcomm, mul_comm]

/-! ### Rounding

The distance between two neighbouring numbers is `1 / 2 ^ frac`. -/

theorem toRat_le_iff : x.toRat ≤ y.toRat ↔ x ≤ y := by
  rw [toRat, toRat, div_le_div_iff_of_pos_right (scale_pos frac), Int.cast_le]
  exact Iff.rfl

theorem toRat_lt_iff : x.toRat < y.toRat ↔ x < y := by
  rw [toRat, toRat, div_lt_div_iff_of_pos_right (scale_pos frac), Int.cast_lt]
  exact Iff.rfl

theorem toRat_nonneg_iff : 0 ≤ x.toRat ↔ zero ≤ x := toRat_zero.symm ▸ toRat_le_iff

theorem toRat_pos_iff : 0 < x.toRat ↔ zero < x := toRat_zero.symm ▸ toRat_lt_iff

theorem toRat_mul_nonneg (hx : 0 ≤ x.toRat) (hy : 0 ≤ y.toRat) (h : (x.mul y : Exec ε _) = .ok z) :
    0 ≤ z.toRat := by
  rw [toRat_nonneg_iff] at hx hy ⊢
  rw [le_iff, mul_eq_ok.mp h]
  exact Int.ediv_nonneg (Int.mul_nonneg hx hy) (by positivity)

theorem toRat_div_nonneg (hx : 0 ≤ x.toRat) (hy : 0 ≤ y.toRat) (h : (x.div y : Exec ε _) = .ok z) :
    0 ≤ z.toRat := by
  rw [toRat_nonneg_iff] at hx hy ⊢
  rw [le_iff, (div_eq_ok.mp h).2]
  exact Int.tdiv_nonneg (Int.mul_nonneg hx (by positivity)) hy

theorem toRat_min : (x.min y).toRat = Min.min x.toRat y.toRat := by
  rw [min, min_def, apply_ite toRat]
  simp only [toRat_le_iff]

theorem toRat_max : (x.max y).toRat = Max.max x.toRat y.toRat := by
  rw [max, max_def, apply_ite toRat]
  simp only [toRat_le_iff]

/-- A product is rounded down, by less than one step. -/
theorem toRat_mul_bounds (h : (x.mul y : Exec ε _) = .ok z) :
    z.toRat ≤ x.toRat * y.toRat ∧ x.toRat * y.toRat < z.toRat + 1 / 2 ^ frac := by
  have hraw := mul_eq_ok.mp h
  have hpos := scale_pos frac
  have hscale : (0 : Int) < 2 ^ frac := by positivity
  have hle : z.raw * 2 ^ frac ≤ x.raw * y.raw := by
    rw [hraw]
    exact Int.ediv_mul_le _ hscale.ne'
  have hlt : x.raw * y.raw < (z.raw + 1) * 2 ^ frac := by
    rw [hraw]
    exact Int.lt_ediv_add_one_mul_self _ hscale
  have hle' : (z.raw : ℚ) * 2 ^ frac ≤ x.raw * y.raw := by exact_mod_cast hle
  have hlt' : (x.raw : ℚ) * y.raw < (z.raw + 1) * 2 ^ frac := by exact_mod_cast hlt
  unfold toRat
  rw [div_mul_div_comm, ← add_div]
  refine ⟨(div_le_div_iff₀ hpos (mul_pos hpos hpos)).mpr ?_,
    (div_lt_div_iff₀ (mul_pos hpos hpos) hpos).mpr ?_⟩
  · rw [← mul_assoc]
    exact mul_le_mul_of_nonneg_right hle' hpos.le
  · rw [← mul_assoc]
    exact mul_lt_mul_of_pos_right hlt' hpos

/-- So is a quotient of nonnegative numbers. -/
theorem toRat_div_bounds (hx : 0 ≤ x.toRat) (hy : 0 < y.toRat) (h : (x.div y : Exec ε _) = .ok z) :
    z.toRat ≤ x.toRat / y.toRat ∧ x.toRat / y.toRat < z.toRat + 1 / 2 ^ frac := by
  have hx : 0 ≤ x.raw := toRat_nonneg_iff.mp hx
  have hy : 0 < y.raw := toRat_pos_iff.mp hy
  obtain ⟨-, hraw⟩ := div_eq_ok.mp h
  rw [Int.tdiv_eq_ediv_of_nonneg (by positivity)] at hraw
  have hpos := scale_pos frac
  have hypos : (0 : ℚ) < y.raw := by exact_mod_cast hy
  have hle : z.raw * y.raw ≤ x.raw * 2 ^ frac := by
    rw [hraw]
    exact Int.ediv_mul_le _ hy.ne'
  have hlt : x.raw * 2 ^ frac < (z.raw + 1) * y.raw := by
    rw [hraw]
    exact Int.lt_ediv_add_one_mul_self _ hy
  have hle' : (z.raw : ℚ) * y.raw ≤ x.raw * 2 ^ frac := by exact_mod_cast hle
  have hlt' : (x.raw : ℚ) * 2 ^ frac < (z.raw + 1) * y.raw := by exact_mod_cast hlt
  unfold toRat
  rw [div_div_div_cancel_right₀ hpos.ne', ← add_div]
  exact ⟨(div_le_div_iff₀ hpos hypos).mpr hle', (div_lt_div_iff₀ hypos hpos).mpr hlt'⟩

/-- Rounding keeps the order of products. -/
theorem toRat_mul_mono {x' y' z' : Fixed bits frac} (h : (x.mul y : Exec ε _) = .ok z)
    (h' : (x'.mul y' : Exec ε _) = .ok z') (hle : x.toRat * y.toRat ≤ x'.toRat * y'.toRat) :
    z.toRat ≤ z'.toRat := by
  rw [toRat_le_iff, le_iff, mul_eq_ok.mp h, mul_eq_ok.mp h']
  refine Int.ediv_le_ediv (by positivity) ?_
  have hscale := mul_pos (scale_pos frac) (scale_pos frac)
  unfold toRat at hle
  rw [div_mul_div_comm, div_mul_div_comm, div_le_div_iff_of_pos_right hscale] at hle
  exact_mod_cast hle

end Fixed

namespace Float

variable {p : Nat}

/-- The value of the number. -/
def toRat (x : Float p frac) : ℚ := x.raw / 2 ^ frac

theorem toRat_toFixed {x : Float p frac} {z : Fixed bits frac} (h : (x.toFixed : Exec ε _) = .ok z) :
    z.toRat = x.toRat := by
  rw [Fixed.toRat, Fixed.ofRaw_eq_ok.mp h, Float.toRat]

/-- Rounding keeps numbers that have no more than `p` significant bits. -/
theorem roundNat_mul_two_pow {n : Nat} (k : Nat) (hn : n < 2 ^ p) :
    roundNat p (n * 2 ^ k) = n * 2 ^ k := by
  unfold roundNat
  split
  · rfl
  · rename_i hlarge
    have hpos : n * 2 ^ k ≠ 0 := by
      omega
    -- the bits that are cut off are among the `k` zeros at the end
    have hlog : Nat.log2 (n * 2 ^ k) < p + k := by
      rw [Nat.log2_lt hpos, Nat.pow_add]
      exact Nat.mul_lt_mul_of_pos_right hn (Nat.two_pow_pos k)
    have hdvd : 2 ^ (Nat.log2 (n * 2 ^ k) + 1 - p) ∣ n * 2 ^ k :=
      Dvd.dvd.mul_left (Nat.pow_dvd_pow 2 (by omega)) n
    have hshift := Nat.two_pow_pos (Nat.log2 (n * 2 ^ k) + 1 - p)
    simp only [Nat.mod_eq_zero_of_dvd hdvd]
    rw [if_neg (by simp [hshift.ne]), Nat.div_mul_cancel hdvd]

/-- The number has no more than `p` significant bits. -/
def Fits (p : Nat) (x : Fixed bits frac) : Prop := ∃ n k, n < 2 ^ p ∧ x.raw.natAbs = n * 2 ^ k

theorem fits_zero : Fits p (.zero : Fixed bits frac) := ⟨0, 0, Nat.two_pow_pos p, rfl⟩

theorem toRat_ofFixed {x : Fixed bits frac} (h : Fits p x) :
    (ofFixed x : Float p frac).toRat = x.toRat := by
  obtain ⟨n, k, hn, hx⟩ := h
  have hraw : (ofFixed x : Float p frac).raw = x.raw := by
    rw [ofFixed, hx, roundNat_mul_two_pow k hn, ← hx, Int.sign_mul_natAbs]
  rw [toRat, hraw, Fixed.toRat]

end Float

end MangoV4.Lib
