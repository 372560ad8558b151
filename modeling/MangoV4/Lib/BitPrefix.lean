/-
  MangoV4.Lib.BitPrefix

  Shared prefixes of fixed-width keys, read from the most significant bit.

  `topBits n k` is the number formed by the `n` highest bits of `k`; two keys
  share a prefix of length `n` when these numbers agree.  Stating prefixes
  through a quotient (and not bit by bit) makes the order argument of a
  crit-bit tree one line: with the same `n` top bits, the next bit decides
  the comparison (`lt_of_samePrefix`).
-/

import Mathlib.Data.Nat.Bitwise
import Mathlib.Tactic.Ring

namespace MangoV4.Lib

open BitVec

variable {w : Nat}

/-- Number of zero bits above the highest set bit, the width for zero. -/
def leadingZeros (x : BitVec w) : Nat :=
  if x.toNat = 0 then w else w - 1 - Nat.log2 x.toNat

/-- The number formed by the `n` highest bits. -/
def topBits (n : Nat) (x : BitVec w) : Nat := x.toNat / 2 ^ (w - n)

/-- The two keys agree on their `n` highest bits. -/
def SamePrefix (n : Nat) (a b : BitVec w) : Prop := topBits n a = topBits n b

instance (n : Nat) (a b : BitVec w) : Decidable (SamePrefix n a b) :=
  inferInstanceAs (Decidable (topBits n a = topBits n b))

/-! ## Prefixes -/

theorem SamePrefix.refl (n : Nat) (a : BitVec w) : SamePrefix n a a := rfl

variable {n : Nat}

theorem SamePrefix.symm {a b : BitVec w} (h : SamePrefix n a b) :
    SamePrefix n b a := Eq.symm h

theorem SamePrefix.trans {a b c : BitVec w} (hab : SamePrefix n a b)
    (hbc : SamePrefix n b c) : SamePrefix n a c := Eq.trans hab hbc

/-- One more bit of prefix appends that bit to the number. -/
theorem topBits_succ (hn : n < w) (x : BitVec w) :
    topBits (n + 1) x = 2 * topBits n x + (x.getMsbD n).toNat := by
  have hexp : w - n = (w - (n + 1)) + 1 := by omega
  have hmsb : x.getMsbD n = x.toNat.testBit (w - (n + 1)) := by
    rw [getMsbD_eq_getLsbD, decide_eq_true hn, Bool.true_and, ← testBit_toNat]
    congr 1
    omega
  have hbit : (x.getMsbD n).toNat = x.toNat / 2 ^ (w - (n + 1)) % 2 := by
    rw [hmsb, Nat.testBit_eq_decide_div_mod_eq]
    rcases Nat.mod_two_eq_zero_or_one (x.toNat / 2 ^ (w - (n + 1))) with h | h <;> simp [h]
  rw [hbit, topBits, topBits, hexp, Nat.pow_succ, ← Nat.div_div_eq_div_mul]
  omega

theorem samePrefix_succ_iff (hn : n < w) {a b : BitVec w} :
    SamePrefix (n + 1) a b ↔ SamePrefix n a b ∧ a.getMsbD n = b.getMsbD n := by
  unfold SamePrefix
  rw [topBits_succ hn, topBits_succ hn]
  cases a.getMsbD n <;> cases b.getMsbD n <;>
    simp only [Bool.toNat_true, Bool.toNat_false, reduceCtorEq, and_true, and_false,
      iff_false] <;> omega

/-- A longer shared prefix contains every shorter one. -/
theorem SamePrefix.mono {m : Nat} {a b : BitVec w} (h : SamePrefix m a b) (hnm : n ≤ m)
    (hm : m ≤ w) : SamePrefix n a b := by
  induction m with
  | zero =>
    obtain rfl : n = 0 := by omega
    exact h
  | succ m ih =>
    rcases Nat.lt_or_ge n (m + 1) with hlt | hge
    · exact ih ((samePrefix_succ_iff (by omega)).mp h).1 (by omega) (by omega)
    · obtain rfl : n = m + 1 := by omega
      exact h

/-- Inside a shared prefix the bits agree. -/
theorem SamePrefix.getMsbD_eq {m : Nat} {a b : BitVec w} (h : SamePrefix m a b) (hnm : n < m)
    (hm : m ≤ w) : a.getMsbD n = b.getMsbD n :=
  ((samePrefix_succ_iff (by omega)).mp (h.mono (Nat.succ_le_of_lt hnm) hm)).2

/-- Keys that agree on all bits are equal. -/
theorem eq_of_samePrefix_width {a b : BitVec w} (h : SamePrefix w a b) : a = b := by
  unfold SamePrefix topBits at h
  rw [Nat.sub_self, Nat.pow_zero, Nat.div_one, Nat.div_one] at h
  exact eq_of_toNat_eq h

/-- With the same `n` top bits, the next bit decides the order. -/
theorem lt_of_samePrefix (hn : n < w) {a b : BitVec w} (h : SamePrefix n a b)
    (ha : a.getMsbD n = false) (hb : b.getMsbD n = true) : a < b := by
  have h1 := topBits_succ hn a
  have h2 := topBits_succ hn b
  rw [ha, h] at h1
  rw [hb] at h2
  have hlt : topBits (n + 1) a < topBits (n + 1) b := by
    rw [h1, h2]
    simp
  exact Nat.lt_of_div_lt_div hlt

/-! ## Leading zeros of a difference -/

theorem le_leadingZeros_iff (hn : n ≤ w) (x : BitVec w) :
    n ≤ leadingZeros x ↔ x.toNat < 2 ^ (w - n) := by
  unfold leadingZeros
  split
  · next h0 => simp [h0, hn]
  · rename_i h0
    have hlog : Nat.log2 x.toNat < w := (Nat.log2_lt h0).mpr x.isLt
    rw [← Nat.log2_lt h0]
    omega

/-- The leading zeros of `a ^ b` count the bits `a` and `b` share. -/
theorem le_leadingZeros_xor_iff (hn : n ≤ w) (a b : BitVec w) :
    n ≤ leadingZeros (a ^^^ b) ↔ SamePrefix n a b := by
  rw [le_leadingZeros_iff hn, toNat_xor, SamePrefix, topBits, topBits,
    ← Nat.shiftRight_eq_div_pow, ← Nat.shiftRight_eq_div_pow, ← Nat.xor_eq_zero_iff,
    ← Nat.shiftRight_xor_distrib, Nat.shiftRight_eq_div_pow,
    Nat.div_eq_zero_iff_lt (Nat.two_pow_pos _)]

theorem leadingZeros_le (x : BitVec w) : leadingZeros x ≤ w := by
  unfold leadingZeros
  split <;> omega

/-- Different keys differ before the width is reached. -/
theorem leadingZeros_xor_lt {a b : BitVec w} (h : a ≠ b) : leadingZeros (a ^^^ b) < w := by
  by_contra hge
  exact h (eq_of_samePrefix_width
    ((le_leadingZeros_xor_iff (Nat.le_refl w) a b).mp (Nat.le_of_not_lt hge)))

theorem samePrefix_leadingZeros (a b : BitVec w) : SamePrefix (leadingZeros (a ^^^ b)) a b :=
  (le_leadingZeros_xor_iff (leadingZeros_le _) a b).mp (Nat.le_refl _)

/-- The first bit after the shared prefix is the one that differs. -/
theorem getMsbD_leadingZeros_ne {a b : BitVec w} (h : leadingZeros (a ^^^ b) < w) :
    a.getMsbD (leadingZeros (a ^^^ b)) ≠ b.getMsbD (leadingZeros (a ^^^ b)) := by
  intro heq
  have hsucc := (samePrefix_succ_iff h).mpr ⟨samePrefix_leadingZeros a b, heq⟩
  have := (le_leadingZeros_xor_iff (Nat.succ_le_of_lt h) a b).mpr hsucc
  omega

/-- Testing a key against the mask of bit `n` reads that bit. -/
theorem and_mask_ne_zero_iff (hn : n < w) (x : BitVec w) :
    x &&& (1#w <<< (w - 1 - n)) ≠ 0#w ↔ x.getMsbD n = true := by
  rw [getMsbD_eq_getLsbD, decide_eq_true hn, Bool.true_and]
  constructor
  · intro hne
    by_contra hbit
    apply hne
    apply eq_of_getLsbD_eq
    intro i hi
    rw [getLsbD_and, getLsbD_zero, ← twoPow_eq, getLsbD_twoPow]
    by_cases hin : w - 1 - n = i
    · subst hin
      simp [Bool.eq_false_iff.mpr hbit]
    · simp [hin]
  · intro hbit hzero
    have hb := congrArg (fun y => getLsbD y (w - 1 - n)) hzero
    simp only [getLsbD_and, hbit, ← twoPow_eq, getLsbD_twoPow,
      getLsbD_zero, decide_true, Bool.and_true, Bool.true_and] at hb
    have : decide (w - 1 - n < w) = true := by rw [decide_eq_true_eq]; omega
    simp [this] at hb

end MangoV4.Lib
