/-
  MangoV4.Health.UnsettledPnl

  What the unsettled pnl of a perp position counts.

  A position in whole lots is multiplied with its weight exactly, so that each
  case of order execution is rounded down once, after the price.  That keeps the
  order of exact values, in every number format that rounds products down.
-/

import MangoV4.Health.Cache

namespace MangoV4

open Lib Lib.Exec
open Arith (toRat)
open LawfulArith RoundsDown

namespace PerpInfo

variable {N : Type} [Arith N] [RoundsDown N] {p : PerpInfo N} {T T' : HealthType} {u u' v v' : N}

/-- What a unit of a position with the sign of `n` counts. -/
def unitValue (p : PerpInfo N) (T : HealthType) (n : Int) : ℚ :=
  if n < 0 then toRat (p.baseWeight T true) * toRat (p.basePrices.liab T)
  else toRat (p.baseWeight T false) * toRat (p.basePrices.asset T)

/-- The position with orders for `lots`, in native units. -/
def net (p : PerpInfo N) (lots : Int) : Int := (p.baseLots + lots) * p.baseLotSize

/-- The product that is rounded, and the quote of the orders. -/
theorem orderExecutionCase_eq_ok {lots : Int} {price : N}
    (h : p.orderExecutionCase T lots price = .ok v) :
    ∃ x y base : N, toRat x * toRat y = p.net lots * p.unitValue T (p.net lots) ∧
      Arith.mul x y = (.ok base : Exec N) ∧
      toRat v = toRat base - lots * p.baseLotSize * toRat price := by
  obtain ⟨-, h⟩ := of_checkI64 h
  obtain ⟨-, h⟩ := of_checkI64 h
  obtain ⟨net, hnet, h⟩ := of_bind h
  obtain ⟨weighted, hweighted, h⟩ := of_bind h
  obtain ⟨base, hbase, h⟩ := of_bind h
  obtain ⟨-, h⟩ := of_checkI64 h
  obtain ⟨ordersNative, hordersNative, h⟩ := of_bind h
  obtain ⟨back, hback, h⟩ := of_bind h
  obtain ⟨quote, hquote, h⟩ := of_bind h
  have hnet : toRat net = p.net lots := toRat_ofInt hnet
  have hback : toRat back = (-(lots * p.baseLotSize) : Int) := by
    rw [toRat_neg hback, toRat_ofInt hordersNative, Int.cast_neg]
  refine ⟨_, _, base, ?_, hbase, ?_⟩
  · rw [mul_of_whole hnet hweighted, mul_assoc]
    have hsign : net < 0 ↔ p.net lots < 0 := by rw [lt_iff, toRat_zero, hnet, Int.cast_lt_zero]
    simp only [unitValue, hsign]
    split
    · rename_i hneg
      rw [decide_eq_true hneg]
    · rename_i hneg
      rw [decide_eq_false hneg]
  · rw [toRat_add h, mul_of_whole hback hquote]
    push_cast
    ring

/-- Better units and better quotes. -/
theorem orderExecutionCase_mono {lots : Int} {price price' : N}
    (h : p.orderExecutionCase T lots price = .ok v) (h' : p.orderExecutionCase T' lots price' = .ok v')
    (hunit : ∀ n : Int, n * p.unitValue T n ≤ n * p.unitValue T' n)
    (hquote : lots * p.baseLotSize * toRat price' ≤ lots * p.baseLotSize * toRat price) :
    toRat v ≤ toRat v' := by
  obtain ⟨x, y, base, hxy, hbase, hv⟩ := orderExecutionCase_eq_ok h
  obtain ⟨x', y', base', hxy', hbase', hv'⟩ := orderExecutionCase_eq_ok h'
  rw [hv, hv']
  exact sub_le_sub (mul_mono hbase hbase' (hxy ▸ hxy' ▸ hunit _)) hquote

theorem unweightedHealthUnsettledPnl_eq_ok (h : p.unweightedHealthUnsettledPnl T = .ok u) :
    ∃ bids asks, p.orderExecutionCase T p.bidsBaseLots (p.basePrices.liab T) = .ok bids ∧
      p.orderExecutionCase T (-p.asksBaseLots) (p.basePrices.asset T) = .ok asks ∧
      toRat u = toRat p.quote + min (toRat bids) (toRat asks) := by
  obtain ⟨bids, hbids, h⟩ := of_bind h
  obtain ⟨-, h⟩ := of_checkI64 h
  obtain ⟨asks, hasks, h⟩ := of_bind h
  exact ⟨bids, asks, hbids, hasks, toRat_min bids asks ▸ toRat_add h⟩

/-- Nonnegative prices and orders, and weights from strict to lenient. -/
structure Weighted (p : PerpInfo N) : Prop where
  oracle : 0 ≤ toRat p.basePrices.oracle
  stable : 0 ≤ toRat p.basePrices.stable
  bids : 0 ≤ p.bidsBaseLots
  asks : 0 ≤ p.asksBaseLots
  asset_init_le_maint : toRat p.initBaseAssetWeight ≤ toRat p.maintBaseAssetWeight
  asset_le_one : toRat p.maintBaseAssetWeight ≤ 1
  one_le_liab : 1 ≤ toRat p.maintBaseLiabWeight
  liab_maint_le_init : toRat p.maintBaseLiabWeight ≤ toRat p.initBaseLiabWeight
  overall_nonneg : 0 ≤ toRat p.initOverallAssetWeight
  overall_init_le_maint : toRat p.initOverallAssetWeight ≤ toRat p.maintOverallAssetWeight
  overall_le_one : toRat p.maintOverallAssetWeight ≤ 1

namespace Weighted

variable (h : p.Weighted)

include h

theorem prices (T : HealthType) : 0 ≤ toRat (p.basePrices.asset T) ∧
    toRat (p.basePrices.asset T) ≤ toRat p.basePrices.oracle ∧
    toRat p.basePrices.oracle ≤ toRat (p.basePrices.liab T) := by
  cases T with
  | init =>
    rw [Prices.asset, Prices.liab, toRat_min, toRat_max]
    exact ⟨le_min h.oracle h.stable, min_le_left _ _, le_max_left _ _⟩
  | maint => exact ⟨h.oracle, le_rfl, le_rfl⟩
  | liquidationEnd => exact ⟨h.oracle, le_rfl, le_rfl⟩

omit [RoundsDown N] in
theorem weights (T : HealthType) : toRat (p.baseWeight T false) ≤ 1 ∧
    1 ≤ toRat (p.baseWeight T true) ∧ 0 ≤ toRat (p.overallAssetWeight T) ∧
    toRat (p.overallAssetWeight T) ≤ 1 := by
  cases T with
  | maint => exact ⟨h.asset_le_one, h.one_le_liab, h.overall_nonneg.trans h.overall_init_le_maint,
      h.overall_le_one⟩
  | init | liquidationEnd => exact ⟨h.asset_init_le_maint.trans h.asset_le_one,
      h.one_le_liab.trans h.liab_maint_le_init, h.overall_nonneg,
      h.overall_init_le_maint.trans h.overall_le_one⟩

/-- At a price between those for assets and for liabilities, orders gain nothing. -/
theorem orderExecutionCase_le {lots : Int} {price : N}
    (hasset : toRat (p.basePrices.asset T) ≤ toRat price)
    (hliab : toRat price ≤ toRat (p.basePrices.liab T))
    (hv : p.orderExecutionCase T lots price = .ok v) :
    toRat v ≤ p.baseLots * p.baseLotSize * toRat price := by
  obtain ⟨hnonneg, -, -⟩ := h.prices T
  obtain ⟨hone, hone', -, -⟩ := h.weights T
  obtain ⟨x, y, base, hxy, hbase, hv⟩ := orderExecutionCase_eq_ok hv
  have hvalue : p.net lots * p.unitValue T (p.net lots) ≤ p.net lots * toRat price := by
    unfold unitValue
    split
    · rename_i hneg
      refine mul_le_mul_of_nonpos_left (hliab.trans ?_) (Int.cast_nonpos.mpr hneg.le)
      exact le_mul_of_one_le_left ((hnonneg.trans hasset).trans hliab) hone'
    · rename_i hpos
      refine mul_le_mul_of_nonneg_left (le_trans ?_ hasset) (Int.cast_nonneg (not_lt.mp hpos))
      exact mul_le_of_le_one_left hnonneg hone
  have hle := (mul_le hbase).trans (hxy.le.trans hvalue)
  unfold PerpInfo.net at hle
  push_cast at hle
  linarith

theorem unweighted_le (hu : p.unweightedHealthUnsettledPnl T = .ok u) :
    toRat u ≤ toRat p.quote + p.baseLots * p.baseLotSize * toRat p.basePrices.oracle := by
  obtain ⟨-, hasset, hliab⟩ := h.prices T
  obtain ⟨bids, asks, hbids, hasks, hu⟩ := unweightedHealthUnsettledPnl_eq_ok hu
  rw [hu]
  refine add_le_add_right ?_ _
  rcases le_or_gt 0 ((p.baseLots : ℚ) * p.baseLotSize) with hlong | hshort
  · exact (min_le_right _ _).trans ((h.orderExecutionCase_le le_rfl (hasset.trans hliab) hasks).trans
      (mul_le_mul_of_nonneg_left hasset hlong))
  · exact (min_le_left _ _).trans ((h.orderExecutionCase_le (hasset.trans hliab) le_rfl hbids).trans
      (mul_le_mul_of_nonpos_left hliab hshort.le))

theorem weigh_le (hv : p.weighUhupnlOverall u T = .ok v) : toRat v ≤ toRat u := by
  unfold weighUhupnlOverall at hv
  split at hv
  · rename_i hpos
    rw [lt_iff, toRat_zero] at hpos
    exact (mul_le hv).trans (mul_le_of_le_one_left hpos.le (h.weights T).2.2.2)
  · rw [ok_inj hv]

theorem weigh_mono (hoverall : toRat (p.overallAssetWeight T) ≤ toRat (p.overallAssetWeight T'))
    (hle : toRat u ≤ toRat u') (hv : p.weighUhupnlOverall u T = .ok v)
    (hv' : p.weighUhupnlOverall u' T' = .ok v') : toRat v ≤ toRat v' := by
  obtain ⟨-, -, hnonneg, -⟩ := h.weights T'
  unfold weighUhupnlOverall at hv hv'
  simp only [lt_iff (x := (0 : N)), toRat_zero] at hv hv'
  split at hv
  · rename_i hpos
    rw [if_pos (hpos.trans_le hle)] at hv'
    exact mul_mono hv hv' (mul_le_mul hoverall hle hpos.le hnonneg)
  · rename_i hneg
    rw [← ok_inj hv]
    split at hv'
    · rename_i hpos
      exact (not_lt.mp hneg).trans (mul_nonneg hv' hnonneg hpos.le)
    · rw [← ok_inj hv']
      exact hle

/-- Pnl counts for more if all its weights and prices are better. -/
theorem healthUnsettledPnl_mono (hv : p.healthUnsettledPnl T = .ok v)
    (hv' : p.healthUnsettledPnl T' = .ok v')
    (hoverall : toRat (p.overallAssetWeight T) ≤ toRat (p.overallAssetWeight T'))
    (hasset : toRat (p.baseWeight T false) * toRat (p.basePrices.asset T) ≤
      toRat (p.baseWeight T' false) * toRat (p.basePrices.asset T'))
    (hliab : toRat (p.baseWeight T' true) * toRat (p.basePrices.liab T') ≤
      toRat (p.baseWeight T true) * toRat (p.basePrices.liab T))
    (hbids : p.bidsBaseLots * p.baseLotSize * toRat (p.basePrices.liab T') ≤
      p.bidsBaseLots * p.baseLotSize * toRat (p.basePrices.liab T))
    (hasks : p.asksBaseLots * p.baseLotSize * toRat (p.basePrices.asset T) ≤
      p.asksBaseLots * p.baseLotSize * toRat (p.basePrices.asset T')) : v ≤ v' := by
  obtain ⟨u, hu, hv⟩ := of_bind hv
  obtain ⟨u', hu', hv'⟩ := of_bind hv'
  obtain ⟨bids, asks, hbidsCase, hasksCase, hu⟩ := unweightedHealthUnsettledPnl_eq_ok hu
  obtain ⟨bids', asks', hbidsCase', hasksCase', hu'⟩ := unweightedHealthUnsettledPnl_eq_ok hu'
  have hunit : ∀ n : Int, n * p.unitValue T n ≤ n * p.unitValue T' n := fun n => by
    unfold unitValue
    split
    · rename_i hneg
      exact mul_le_mul_of_nonpos_left hliab (Int.cast_nonpos.mpr hneg.le)
    · rename_i hneg
      exact mul_le_mul_of_nonneg_left hasset (Int.cast_nonneg (not_lt.mp hneg))
  refine le_iff.mpr (h.weigh_mono hoverall ?_ hv hv')
  rw [hu, hu']
  refine add_le_add_right (min_le_min (orderExecutionCase_mono hbidsCase hbidsCase' hunit hbids)
    (orderExecutionCase_mono hasksCase hasksCase' hunit ?_)) _
  push_cast
  linarith

theorem liquidationEnd_le_maint (hv : p.healthUnsettledPnl .liquidationEnd = .ok v)
    (hv' : p.healthUnsettledPnl .maint = .ok v') : v ≤ v' :=
  h.healthUnsettledPnl_mono hv hv' h.overall_init_le_maint
    (mul_le_mul_of_nonneg_right h.asset_init_le_maint h.oracle)
    (mul_le_mul_of_nonneg_right h.liab_maint_le_init h.oracle) le_rfl le_rfl

theorem init_le_liquidationEnd (hweight : 0 ≤ toRat p.initBaseAssetWeight) (hlot : 0 ≤ p.baseLotSize)
    (hv : p.healthUnsettledPnl .init = .ok v) (hv' : p.healthUnsettledPnl .liquidationEnd = .ok v') :
    v ≤ v' := by
  obtain ⟨-, hasset, hliab⟩ := h.prices .init
  have hone := (h.weights .liquidationEnd).2.1
  have hlot : (0 : ℚ) ≤ p.baseLotSize := Int.cast_nonneg hlot
  exact h.healthUnsettledPnl_mono hv hv' le_rfl (mul_le_mul_of_nonneg_left hasset hweight)
    (mul_le_mul_of_nonneg_left hliab (zero_le_one.trans hone))
    (mul_le_mul_of_nonneg_left hliab (Rat.mul_nonneg (Int.cast_nonneg h.bids) hlot))
    (mul_le_mul_of_nonneg_left hasset (Rat.mul_nonneg (Int.cast_nonneg h.asks) hlot))

end Weighted

/-- No type counts more than the pnl at the oracle price, and maintenance health
    counts no less than health at the end of a liquidation.  Initial health counts
    no more than that, for asset weights and lot sizes that are not negative. -/
theorem unsettledPnl_ordered {p : PerpInfo I80F48} (h : p.Weighted) :
    (∀ T x, p.healthUnsettledPnl T = .ok x → ∃ u, p.unweightedHealthUnsettledPnl T = .ok u ∧
      x ≤ u ∧ u.toRat ≤ p.quote.toRat + p.baseLots * p.baseLotSize * p.basePrices.oracle.toRat) ∧
    (∀ x y, p.healthUnsettledPnl .liquidationEnd = .ok x → p.healthUnsettledPnl .maint = .ok y →
      x ≤ y) ∧
    (.zero ≤ p.initBaseAssetWeight → 0 ≤ p.baseLotSize → ∀ x y, p.healthUnsettledPnl .init = .ok x →
      p.healthUnsettledPnl .liquidationEnd = .ok y → x ≤ y) := by
  refine ⟨fun T x hx => ?_, fun x y => h.liquidationEnd_le_maint, fun hweight hlot x y =>
    h.init_le_liquidationEnd (Fixed.toRat_nonneg_iff.mpr hweight) hlot⟩
  obtain ⟨u, hu, hx⟩ := of_bind hx
  exact ⟨u, hu, le_iff.mpr (h.weigh_le hx), h.unweighted_le hu⟩

/-- One lot to buy and one to sell, with a stable price below the oracle price. -/
def bothSides (initBaseAssetWeight : I80F48) (baseLotSize : Int) : PerpInfo I80F48 where
  settleTokenIndex := 0
  maintBaseAssetWeight := I80F48.ONE
  initBaseAssetWeight := initBaseAssetWeight
  maintBaseLiabWeight := I80F48.ONE
  initBaseLiabWeight := I80F48.ONE
  maintOverallAssetWeight := I80F48.ONE
  initOverallAssetWeight := I80F48.ONE
  baseLotSize := baseLotSize
  baseLots := 0
  bidsBaseLots := 1
  asksBaseLots := 1
  quote := .zero
  basePrices := ⟨⟨2 ^ 49, by decide⟩, I80F48.ONE⟩

theorem weighted_bothSides {w : I80F48} (h : w ≤ I80F48.ONE) (n : Int) :
    (bothSides w n).Weighted := by
  have hone : toRat I80F48.ONE = 1 := by norm_num [toRat, Fixed.toRat, I80F48.ONE]
  have hprice : 0 ≤ toRat (bothSides w n).basePrices.oracle :=
    Fixed.toRat_nonneg_iff.mpr (by decide : (0 : Int) ≤ 2 ^ 49)
  exact ⟨hprice, hone ▸ zero_le_one, zero_le_one, zero_le_one, le_iff.mp h, hone.le, hone.ge, le_rfl,
    hone ▸ zero_le_one, le_rfl, hone.le⟩

theorem unsettledPnl_ordered_of_bothSides :
    ∃ x y, (bothSides .zero 1).healthUnsettledPnl .init = .ok x ∧
      (bothSides .zero 1).healthUnsettledPnl .liquidationEnd = .ok y ∧ x ≤ y := by
  obtain ⟨x, hx, -⟩ := exists_of_any (p := fun _ => true)
    (x := (bothSides .zero 1).healthUnsettledPnl .init) (by decide +kernel)
  obtain ⟨y, hy, -⟩ := exists_of_any (p := fun _ => true)
    (x := (bothSides .zero 1).healthUnsettledPnl .liquidationEnd) (by decide +kernel)
  exact ⟨x, y, hx, hy, (unsettledPnl_ordered (weighted_bothSides (by decide) 1)).2.2 (by decide)
    (by decide) x y hx hy⟩

/-- Initial health counts more than health at the end of a liquidation. -/
def InitAbove (p : PerpInfo I80F48) : Prop :=
  ∃ x y, p.healthUnsettledPnl .init = .ok x ∧ p.healthUnsettledPnl .liquidationEnd = .ok y ∧ y < x

theorem initAbove_of_run {p : PerpInfo I80F48} (h : (p.healthUnsettledPnl .init).toOption.any (fun x =>
    (p.healthUnsettledPnl .liquidationEnd).toOption.any fun y => decide (y < x)) = true) :
    p.InitAbove := by
  obtain ⟨x, hx, h⟩ := exists_of_any h
  obtain ⟨y, hy, h⟩ := exists_of_any h
  exact ⟨x, y, hx, hy, of_decide_eq_true h⟩

/-- A negative asset weight, or a negative lot size, counts for more at the worse price. -/
theorem initAbove_of_bothSides :
    ((bothSides ⟨-2 ^ 48, by decide⟩ 1).Weighted ∧ (bothSides ⟨-2 ^ 48, by decide⟩ 1).InitAbove) ∧
    (bothSides .zero (-1)).Weighted ∧ (bothSides .zero (-1)).InitAbove :=
  ⟨⟨weighted_bothSides (by decide) 1, initAbove_of_run (by decide +kernel)⟩,
    weighted_bothSides (by decide) (-1), initAbove_of_run (by decide +kernel)⟩

end PerpInfo

end MangoV4
