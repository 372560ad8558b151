/-
  MangoV4.Exchange.ZeroSum

  What all accounts together owe in funding.

  A change of funding by `x` for each long lot and by `y` for each short lot
  changes what a position owes by `x` or `y` times its lots (`owed_of_shifted`).
  An update of funding has `x = y`, so it moves nothing as long as all base
  positions add up to nothing; a socialized loss has `x = -y`, so it moves
  `y` times the open interest.
-/

import MangoV4.Exchange.Balance
import MangoV4.Instructions.Funding
import Mathlib.Algebra.BigOperators.Ring.Finset

namespace MangoV4

open Lib Lib.Exec Finset

section Owed

variable {N : Type} [Arith N]

/-- The funding that a position still needs to pay, as a rational. -/
def FundingPosition.owed (p : FundingPosition N) (m : FundingMarket N) : ℚ :=
  if 0 < p.basePositionLots then
    (Arith.toRat m.longFunding - Arith.toRat p.longSettledFunding) * p.basePositionLots
  else (Arith.toRat m.shortFunding - Arith.toRat p.shortSettledFunding) * p.basePositionLots

/-- Unsettled funding is exact in every number format. -/
theorem FundingPosition.unsettledFunding_toRat [LawfulArith N] {p : FundingPosition N}
    {m : FundingMarket N} {f : N} (h : p.unsettledFunding m = .ok f) :
    Arith.toRat f = p.owed m := by
  unfold unsettledFunding at h
  unfold owed
  split at h
  · rename_i hlong
    obtain ⟨d, hd, h⟩ := of_bind h
    obtain ⟨n, hn, h⟩ := of_bind h
    rw [if_pos hlong, LawfulArith.toRat_mul_ofInt hn h, LawfulArith.toRat_sub hd]
  · rename_i hlong
    rw [if_neg hlong]
    split at h
    · obtain ⟨d, hd, h⟩ := of_bind h
      obtain ⟨n, hn, h⟩ := of_bind h
      rw [LawfulArith.toRat_mul_ofInt hn h, LawfulArith.toRat_sub hd]
    · rename_i hshort
      have hzero : p.basePositionLots = 0 := by omega
      obtain rfl := ok_inj h
      rw [hzero, Int.cast_zero, mul_zero, LawfulArith.toRat_zero]

/-- In exact arithmetic there always is a result. -/
theorem FundingPosition.unsettledFunding_rat (p : FundingPosition ℚ) (m : FundingMarket ℚ) :
    p.unsettledFunding m = .ok (p.owed m) := by
  have hok : ∃ f, p.unsettledFunding m = .ok f := by
    unfold unsettledFunding
    split
    · exact ⟨_, rfl⟩
    · split
      · exact ⟨_, rfl⟩
      · exact ⟨_, rfl⟩
  obtain ⟨f, hf⟩ := hok
  rw [hf, ← unsettledFunding_toRat hf, Rat.arith_toRat]

/-- Funding moved by `x` for long and by `y` for short positions. -/
structure FundingMarket.Shifted (m m' : FundingMarket N) (x y : ℚ) : Prop where
  long : Arith.toRat m'.longFunding = Arith.toRat m.longFunding + x
  short : Arith.toRat m'.shortFunding = Arith.toRat m.shortFunding + y

variable {m m' : FundingMarket N} {x y : ℚ}

theorem FundingMarket.Shifted.owed (h : m.Shifted m' x y) (p : FundingPosition N) :
    p.owed m' = p.owed m + (if 0 < p.basePositionLots then x else y) * p.basePositionLots := by
  unfold FundingPosition.owed
  rw [h.long, h.short]
  split
  · ring
  · ring

variable {α : Type} {accounts : Finset α} {p : α → FundingPosition N}

theorem FundingMarket.Shifted.sum_owed (h : m.Shifted m' x y) :
    ∑ a ∈ accounts, (p a).owed m' = ∑ a ∈ accounts, (p a).owed m +
      ∑ a ∈ accounts, (if 0 < (p a).basePositionLots then x else y) *
        ((p a).basePositionLots : ℚ) := by
  rw [← sum_add_distrib]
  exact sum_congr rfl fun a _ => h.owed (p a)

/-- Longs pay to shorts. -/
theorem FundingMarket.Shifted.sum_owed_of_balanced (h : m.Shifted m' x x)
    (hbase : ∑ a ∈ accounts, (p a).basePositionLots = 0) :
    ∑ a ∈ accounts, (p a).owed m' = ∑ a ∈ accounts, (p a).owed m := by
  rw [h.sum_owed]
  simp only [ite_self]
  rw [← mul_sum, ← Int.cast_sum, hbase, Int.cast_zero, mul_zero, add_zero]

/-- Longs and shorts pay for every lot of open interest. -/
theorem FundingMarket.Shifted.sum_owed_of_interest (h : m.Shifted m' (-x) x)
    (hinterest : m.openInterest = ∑ a ∈ accounts, |(p a).basePositionLots|) :
    ∑ a ∈ accounts, (p a).owed m' = ∑ a ∈ accounts, (p a).owed m - x * m.openInterest := by
  have hlots : ∀ b : Int, (if 0 < b then -x else x) * (b : ℚ) = -x * |b| := by
    intro b
    split
    · rename_i hpos
      rw [abs_of_pos hpos]
    · rename_i hneg
      rw [abs_of_nonpos (not_lt.mp hneg)]
      push_cast
      ring
  rw [h.sum_owed, sum_congr rfl fun a _ => hlots (p a).basePositionLots,
    ← mul_sum, hinterest]
  push_cast
  ring

/-! ## The two functions -/

/-- Long and short funding move by the same amount. -/
theorem FundingMarket.updateFunding_shifted [LawfulArith N] {book : Orderbook} {oraclePrice : N}
    {nowTs : Nat} (h : m.updateFundingAndStablePrice book oraclePrice nowTs = .ok m') :
    ∃ d, m.Shifted m' d d := by
  unfold updateFundingAndStablePrice at h
  split at h
  · obtain rfl := ok_inj h
    exact ⟨0, (add_zero _).symm, (add_zero _).symm⟩
  · obtain ⟨_, -, h⟩ := of_bind h
    obtain ⟨_, -, h⟩ := of_bind h
    obtain ⟨_, -, h⟩ := of_bind h
    obtain ⟨_, -, h⟩ := of_bind h
    obtain ⟨delta, -, h⟩ := of_bind h
    obtain ⟨long, hlong, h⟩ := of_bind h
    obtain ⟨short, hshort, h⟩ := of_bind h
    obtain rfl := ok_inj h
    exact ⟨Arith.toRat delta, LawfulArith.toRat_add hlong, LawfulArith.toRat_add hshort⟩

/-- Long and short funding move by the same amount in opposite directions. -/
theorem FundingMarket.socializeLoss_shifted [LawfulArith N] {loss s : N}
    (h : m.socializeLoss loss = .ok (s, m')) : m.Shifted m' (-Arith.toRat s) (Arith.toRat s) := by
  obtain ⟨_, -, h⟩ := of_bind h
  obtain ⟨s', -, h⟩ := of_bind h
  obtain ⟨long, hlong, h⟩ := of_bind h
  obtain ⟨short, hshort, h⟩ := of_bind h
  obtain ⟨rfl, rfl⟩ := ok_inj₂ h
  refine ⟨?_, LawfulArith.toRat_add hshort⟩
  rw [← sub_eq_add_neg]
  exact LawfulArith.toRat_sub hlong

end Owed

/-- In exact arithmetic every loss can be socialized. -/
theorem FundingMarket.socializeLoss_rat (m : FundingMarket ℚ) {loss : ℚ} (hloss : loss ≤ 0) :
    ∃ s m', m.socializeLoss loss = .ok (s, m') ∧ (m.openInterest = 0 → m' = m) ∧
      (m.openInterest ≠ 0 → s * m.openInterest = loss) := by
  unfold socializeLoss
  rw [decide_eq_true hloss]
  by_cases hzero : m.openInterest = 0
  · refine ⟨0, m, ?_, fun _ => rfl, fun h => absurd hzero h⟩
    rw [if_pos hzero]
    simp [require]
  · have hne : (m.openInterest : ℚ) ≠ 0 := by exact_mod_cast hzero
    refine ⟨loss / m.openInterest,
      { m with
        longFunding := m.longFunding - loss / m.openInterest
        shortFunding := m.shortFunding + loss / m.openInterest }, ?_,
      fun h => absurd h hzero, fun _ => div_mul_cancel₀ _ hne⟩
    rw [if_neg hzero]
    simp [require, Rat.arith_div hne]

/-! ## All accounts -/

/-- The accounts together owe `total` in a market. -/
def TotalUnsettled {α : Type} (accounts : Finset α) (position : α → FundingPosition ℚ)
    (m : FundingMarket ℚ) (total : ℚ) : Prop :=
  ∃ f : α → ℚ, (∀ a ∈ accounts, (position a).unsettledFunding m = .ok (f a)) ∧
    total = ∑ a ∈ accounts, f a

theorem totalUnsettled_iff {α : Type} {accounts : Finset α} {position : α → FundingPosition ℚ}
    {m : FundingMarket ℚ} {total : ℚ} :
    TotalUnsettled accounts position m total ↔ total = ∑ a ∈ accounts, (position a).owed m := by
  constructor
  · rintro ⟨f, hf, rfl⟩
    refine sum_congr rfl fun a ha => ?_
    exact ok_inj ((hf a ha).symm.trans ((position a).unsettledFunding_rat m))
  · intro h
    exact ⟨fun a => (position a).owed m, fun a _ => (position a).unsettledFunding_rat m, h⟩

/-- If the base positions of all accounts add up to nothing, an update of funding
    moves nothing in total.  If open interest is what all accounts hold, they pay
    for all of a socialized loss; without open interest nobody pays. -/
theorem funding_zeroSum {α : Type} {accounts : Finset α} {position : α → FundingPosition ℚ}
    {m : FundingMarket ℚ} {total : ℚ}
    (hbase : ∑ a ∈ accounts, (position a).basePositionLots = 0)
    (hinterest : m.openInterest = ∑ a ∈ accounts, |(position a).basePositionLots|)
    (htotal : TotalUnsettled accounts position m total) :
    (∀ book oraclePrice nowTs m',
      m.updateFundingAndStablePrice book oraclePrice nowTs = .ok m' →
        TotalUnsettled accounts position m' total) ∧
    ∀ loss ≤ 0, ∃ s m', m.socializeLoss loss = .ok (s, m') ∧
      (m.openInterest ≠ 0 → TotalUnsettled accounts position m' (total - loss)) ∧
      (m.openInterest = 0 → m' = m) := by
  rw [totalUnsettled_iff] at htotal
  constructor
  · intro book oraclePrice nowTs m' h
    obtain ⟨d, hshifted⟩ := FundingMarket.updateFunding_shifted h
    rw [totalUnsettled_iff, htotal, hshifted.sum_owed_of_balanced hbase]
  · intro loss hloss
    obtain ⟨s, m', h, hzero, hexact⟩ := m.socializeLoss_rat hloss
    refine ⟨s, m', h, fun hne => ?_, hzero⟩
    have hshifted := FundingMarket.socializeLoss_shifted h
    rw [totalUnsettled_iff, htotal, hshifted.sum_owed_of_interest hinterest, Rat.arith_toRat,
      hexact hne]

/-- A market with four lots of open interest. -/
def FundingMarket.plain : FundingMarket ℚ where
  impactQuantity := 1
  minFunding := -1 / 20
  maxFunding := 1 / 20
  longFunding := 3
  shortFunding := 3
  fundingLastUpdated := 0
  openInterest := 4
  baseLotSize := 1
  quoteLotSize := 1

/-- One long position of two lots and two short positions of one lot, opened at
    different times. -/
def longAndShorts : Fin 3 → FundingPosition ℚ
  | 0 => ⟨2, 0, 0⟩
  | 1 => ⟨-1, 1, 1⟩
  | 2 => ⟨-1, 2, 2⟩

theorem longAndShorts_zeroSum :
    TotalUnsettled Finset.univ longAndShorts .plain 3 ∧
    (∀ book oraclePrice nowTs m',
      FundingMarket.plain.updateFundingAndStablePrice book oraclePrice nowTs = .ok m' →
        TotalUnsettled Finset.univ longAndShorts m' 3) ∧
    ∃ s m', FundingMarket.plain.socializeLoss (-5) = .ok (s, m') ∧
      TotalUnsettled Finset.univ longAndShorts m' 8 := by
  have htotal : TotalUnsettled univ longAndShorts .plain 3 :=
    totalUnsettled_iff.mpr (by decide +kernel)
  have hzeroSum := funding_zeroSum (by decide) (by decide) htotal
  obtain ⟨s, m', h, hpaid, -⟩ := hzeroSum.2 (-5) (by norm_num)
  refine ⟨htotal, hzeroSum.1, s, m', h, ?_⟩
  have hpaid := hpaid (by decide)
  norm_num at hpaid
  exact hpaid

/-! ## The exchange -/

namespace Exchange

/-- In the arithmetic of the program, an update of funding moves nothing between
    the accounts of the exchange and the rest of the world. -/
theorem updateFunding_keeps_total {s : Exchange} {m : PerpMarketIndex} {market market' : PerpMarket}
    {c c' : FundingConfig} {book : Orderbook} {oraclePrice : I80F48} {nowTs : Nat}
    (hbase : (s.clearing m).BaseBalanced)
    (h : (market.fundingMarket c).updateFundingAndStablePrice book oraclePrice nowTs =
      .ok (market'.fundingMarket c')) :
    ∑ a, (s.positionOf a m).fundingOwed market' = ∑ a, (s.positionOf a m).fundingOwed market := by
  obtain ⟨d, hshifted⟩ := FundingMarket.updateFunding_shifted h
  have hlots : ∑ a, (s.positionOf a m).fundingPosition.basePositionLots = 0 := by
    have hsum : ∑ a, ((s.clearing m).position a).base = 0 := hbase
    simp only [clearing_position] at hsum
    exact hsum
  have howed : ∀ (p : PerpPosition) (market : PerpMarket) (c : FundingConfig),
      p.fundingOwed market = p.fundingPosition.owed (market.fundingMarket c) := fun _ _ _ => rfl
  exact hshifted.sum_owed_of_balanced (p := fun a => (s.positionOf a m).fundingPosition) hlots

end Exchange

end MangoV4
