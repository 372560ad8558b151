/-
  MangoV4.State.StablePrice

  The stable price follows the oracle price with a limited rate of change, which
  is reduced further away from a delayed average of it.  Floats are read as
  rational numbers.

  A constant oracle price is a fixed point of the stable price, but not of the
  delay prices: an update counts its whole time into the average, and the price
  for at most ten minutes of it.
-/

import MangoV4.Error
import MangoV4.Lib.Run
import Mathlib.Data.Rat.Cast.Order
import Mathlib.Tactic.Linarith
import Mathlib.Tactic.Ring

namespace MangoV4

open Lib Lib.Exec

structure StablePriceModel where
  stablePrice : ℚ
  lastUpdateTimestamp : Nat
  delayPrices : Fin 24 → ℚ
  delayAccumulatorPrice : ℚ
  delayAccumulatorTime : Nat
  delayIntervalSeconds : Nat
  delayGrowthLimit : ℚ
  stableGrowthLimit : ℚ
  lastDelayIntervalIndex : Fin 24
  resetOnNonzeroPrice : Bool
  interval_pos : 0 < delayIntervalSeconds
  delay_mem : 0 ≤ delayGrowthLimit ∧ delayGrowthLimit < 1
  stable_mem : 0 ≤ stableGrowthLimit ∧ stableGrowthLimit < 1

namespace StablePriceModel

def default : StablePriceModel where
  stablePrice := 0
  lastUpdateTimestamp := 0
  delayPrices _ := 0
  delayAccumulatorPrice := 0
  delayAccumulatorTime := 0
  delayIntervalSeconds := 60 * 60
  delayGrowthLimit := 6 / 100
  stableGrowthLimit := 3 / 10000
  lastDelayIntervalIndex := 0
  resetOnNonzeroPrice := false
  interval_pos := by decide
  delay_mem := by norm_num
  stable_mem := by norm_num

variable (m : StablePriceModel)

def resetToPrice (oraclePrice : ℚ) (nowTs : Nat) : StablePriceModel :=
  { m with
    stablePrice := oraclePrice
    delayPrices := fun _ => oraclePrice
    delayAccumulatorPrice := 0
    delayAccumulatorTime := 0
    lastUpdateTimestamp := nowTs
    resetOnNonzeroPrice := !decide (0 < oraclePrice) }

def delayIntervalIndex (timestamp : Nat) : Fin 24 :=
  ⟨timestamp / m.delayIntervalSeconds % 24, Nat.mod_lt _ (by decide)⟩

/-- `clamp` panics if its bounds are the wrong way round. -/
def growthClamped (target prev growthLimit : ℚ) : Exec ℚ := do
  let upper := prev * (1 + growthLimit)
  let lower := prev * (1 - growthLimit)
  assert (decide (lower ≤ upper))
  return max lower (min target upper)

/-- The intervals since the last one have the same delay price. -/
def fillDelayPrices (index : Fin 24) (fullDelayPassed : Bool) (price : ℚ) (i : Fin 24) : ℚ :=
  let last := m.lastDelayIntervalIndex
  if fullDelayPassed || (if last < index then decide (last ≤ i) && decide (i < index)
    else decide (last ≤ i) || decide (i < index)) then price else m.delayPrices i

def updateDelayPrice (nowTs dt : Nat) (oraclePrice : ℚ) : Exec StablePriceModel := do
  let time ← checkU32 (m.delayAccumulatorTime + dt % 2 ^ 32)
  let price := m.delayAccumulatorPrice + oraclePrice * (min dt (10 * 60) : Nat)
  let index := m.delayIntervalIndex nowTs
  let m := { m with lastUpdateTimestamp := nowTs }
  if index = m.lastDelayIntervalIndex then
    return { m with delayAccumulatorTime := time, delayAccumulatorPrice := price }
  else
    let prev := m.delayPrices (m.lastDelayIntervalIndex - 1)
    -- a positive price divided by zero is infinite, and cut at the upper bound
    let avg := if time = 0 then prev * (1 + m.delayGrowthLimit) else price / time
    let newDelayPrice ← growthClamped avg prev m.delayGrowthLimit
    return { m with
      delayPrices := m.fillDelayPrices index (decide (24 * m.delayIntervalSeconds < dt)) newDelayPrice
      delayAccumulatorPrice := 0
      delayAccumulatorTime := 0
      lastDelayIntervalIndex := index }

def updateStablePrice (nowTs dt : Nat) (oraclePrice : ℚ) : Exec StablePriceModel := do
  let delayPrice := m.delayPrices (m.delayIntervalIndex nowTs)
  let fraction := if m.stablePrice ≤ delayPrice then m.stablePrice / delayPrice
    else delayPrice / m.stablePrice
  let growthLimit := m.stableGrowthLimit * fraction * fraction * (min dt (10 * 60) : Nat)
  return { m with stablePrice := ← growthClamped oraclePrice m.stablePrice growthLimit }

def update (nowTs : Nat) (oraclePrice : ℚ) : Exec StablePriceModel := do
  -- there may never have been a price before
  let m := if m.resetOnNonzeroPrice && decide (0 < oraclePrice) then m.resetToPrice oraclePrice nowTs
    else m
  let dt := nowTs - m.lastUpdateTimestamp
  if dt < 10 then return m
  else (← m.updateDelayPrice nowTs dt oraclePrice).updateStablePrice nowTs dt oraclePrice

/-- An update at a time with an oracle price. -/
def exec (u : Nat × ℚ) (m : StablePriceModel) : Exec (Unit × StablePriceModel) := do
  return ((), ← m.update u.1 u.2)

/-! ## One update -/

variable {m} {m' : StablePriceModel} {target prev growthLimit x p lo hi : ℚ} {nowTs dt : Nat}

/-- The price moves towards the target, and not beyond. -/
theorem growthClamped_between (hprev : 0 ≤ prev) (hlimit : 0 ≤ growthLimit)
    (h : growthClamped target prev growthLimit = .ok x) :
    min target prev ≤ x ∧ x ≤ max target prev := by
  obtain ⟨_, -, h⟩ := of_bind h
  obtain rfl := ok_inj h
  have hlower : prev * (1 - growthLimit) ≤ prev := by nlinarith
  have hupper : prev ≤ prev * (1 + growthLimit) := by nlinarith
  constructor
  · exact le_max_of_le_right (min_le_min_left target hupper)
  · exact max_le (hlower.trans (le_max_right ..)) ((min_le_left ..).trans (le_max_left ..))

theorem growthClamped_self (hprev : 0 ≤ prev) (hlimit : 0 ≤ growthLimit)
    (h : growthClamped prev prev growthLimit = .ok x) : x = prev := by
  obtain ⟨hle, hge⟩ := growthClamped_between hprev hlimit h
  rw [min_self] at hle
  rw [max_self] at hge
  exact le_antisymm hge hle

/-- The stable price is moved towards the oracle price. -/
theorem updateStablePrice_eq_ok (hprice : 0 ≤ m.stablePrice)
    (h : m.updateStablePrice nowTs dt p = .ok m') : ∃ x, m' = { m with stablePrice := x } ∧
      min p m.stablePrice ≤ x ∧ x ≤ max p m.stablePrice := by
  obtain ⟨x, hx, h⟩ := of_bind h
  obtain rfl := ok_inj h
  refine ⟨x, rfl, growthClamped_between hprice ?_ hx⟩
  rw [mul_assoc m.stableGrowthLimit]
  exact mul_nonneg (mul_nonneg m.stable_mem.1 (mul_self_nonneg _)) (Nat.cast_nonneg _)

/-- All prices are `p`, and so is the average so far. -/
structure Steady (p : ℚ) (m : StablePriceModel) : Prop where
  stable : m.stablePrice = p
  delay : ∀ i, m.delayPrices i = p
  accumulated : m.delayAccumulatorPrice = p * m.delayAccumulatorTime
  settled : m.resetOnNonzeroPrice = false

/-- Up to ten minutes, time and price are accumulated alike. -/
theorem Steady.updateDelayPrice (hp : 0 < p) (hm : Steady p m) (hdt : 10 ≤ dt) (hgap : dt ≤ 600)
    (h : m.updateDelayPrice nowTs dt p = .ok m') : Steady p m' := by
  obtain ⟨time, htime, h⟩ := of_bind h
  obtain ⟨-, rfl⟩ := checkU32_eq_ok.mp htime
  have hwhole : dt % 2 ^ 32 = dt := Nat.mod_eq_of_lt (by omega)
  have hmin : min dt (10 * 60) = dt := by omega
  have hprice : m.delayAccumulatorPrice + p * dt = p * (m.delayAccumulatorTime + dt : Nat) := by
    rw [hm.accumulated]
    push_cast
    ring
  simp only [hwhole, hmin, hprice] at h
  split at h
  · obtain rfl := ok_inj h
    exact ⟨hm.stable, hm.delay, rfl, hm.settled⟩
  · obtain ⟨new, hnew, h⟩ := of_bind h
    obtain rfl := ok_inj h
    have htime : ((m.delayAccumulatorTime + dt : Nat) : ℚ) ≠ 0 := Nat.cast_ne_zero.mpr (by omega)
    rw [if_neg (by omega), mul_div_cancel_right₀ p htime, hm.delay] at hnew
    obtain rfl := growthClamped_self hp.le m.delay_mem.1 hnew
    refine ⟨hm.stable, fun i => ?_, by simp, hm.settled⟩
    exact (ite_eq_or_eq ..).elim id fun hkept => hkept.trans (hm.delay i)

theorem Steady.update (hp : 0 < p) (hm : Steady p m) (hgap : nowTs ≤ m.lastUpdateTimestamp + 600)
    (h : m.update nowTs p = .ok m') : Steady p m' := by
  unfold StablePriceModel.update at h
  simp only [hm.settled, Bool.false_and, Bool.false_eq_true, if_false] at h
  split at h
  · obtain rfl := ok_inj h
    exact hm
  · obtain ⟨m₁, hdelay, h⟩ := of_bind h
    have hm₁ := hm.updateDelayPrice hp (by omega) (by omega) hdelay
    obtain ⟨x, rfl, hle, hge⟩ := updateStablePrice_eq_ok (by rw [hm₁.stable]; exact hp.le) h
    rw [hm₁.stable, min_self] at hle
    rw [hm₁.stable, max_self] at hge
    exact ⟨le_antisymm hge hle, hm₁.delay, hm₁.accumulated, hm₁.settled⟩

theorem updateDelayPrice_stablePrice (h : m.updateDelayPrice nowTs dt p = .ok m') :
    m'.stablePrice = m.stablePrice := by
  obtain ⟨_, -, h⟩ := of_bind h
  simp only at h
  split at h
  · obtain rfl := ok_inj h
    rfl
  · obtain ⟨_, -, h⟩ := of_bind h
    obtain rfl := ok_inj h
    rfl

theorem update_within (hlo : 0 < lo) (hp : lo ≤ p ∧ p ≤ hi)
    (hm : lo ≤ m.stablePrice ∧ m.stablePrice ≤ hi) (h : m.update nowTs p = .ok m') :
    lo ≤ m'.stablePrice ∧ m'.stablePrice ≤ hi := by
  unfold update at h
  generalize hr : (if m.resetOnNonzeroPrice && decide (0 < p) then m.resetToPrice p nowTs else m) = r
    at h
  have hr : lo ≤ r.stablePrice ∧ r.stablePrice ≤ hi := by
    rw [← hr]
    split
    · exact hp
    · exact hm
  simp only at h
  split at h
  · obtain rfl := ok_inj h
    exact hr
  · obtain ⟨m₁, hdelay, h⟩ := of_bind h
    rw [← updateDelayPrice_stablePrice hdelay] at hr
    obtain ⟨x, rfl, hle, hge⟩ := updateStablePrice_eq_ok (hlo.le.trans hr.1) h
    exact ⟨(le_min hp.1 hr.1).trans hle, hge.trans (max_le hp.2 hr.2)⟩

/-! ## Runs -/

/-- After a reset, updates with the same price keep all prices if each comes
    within ten minutes of the last that counted; and with any prices the stable
    price stays between those seen so far. -/
theorem stablePrice_follows (m : StablePriceModel) (hp : 0 < p) (t₀ : Nat)
    (updates : List (Nat × ℚ)) :
    let s := run exec (m.resetToPrice p t₀) updates
    (Guarded exec (fun u s => u.2 = p ∧ u.1 ≤ s.lastUpdateTimestamp + 600) (m.resetToPrice p t₀)
      updates → s.stablePrice = p ∧ ∀ i, s.delayPrices i = p) ∧
    ∀ lo hi, 0 < lo → lo ≤ p → p ≤ hi → (∀ u ∈ updates, lo ≤ u.2 ∧ u.2 ≤ hi) →
      lo ≤ s.stablePrice ∧ s.stablePrice ≤ hi := by
  intro s
  have hstart : Steady p (m.resetToPrice p t₀) :=
    ⟨rfl, fun _ => rfl, by simp [resetToPrice], by simp [resetToPrice, hp]⟩
  refine ⟨fun hguard => ?_, fun lo hi hlo hle hge hprices => ?_⟩
  · have hsteady : Steady p s := by
      refine run_preserves_of_guarded (fun u m r m' hm hu h => ?_) updates _ hstart hguard
      obtain ⟨m₁, hupdate, h⟩ := of_bind h
      obtain ⟨-, rfl⟩ := ok_inj₂ h
      exact hm.update hp hu.2 (hu.1 ▸ hupdate)
    exact ⟨hsteady.stable, hsteady.delay⟩
  · refine run_preserves_of_guarded (C := fun u _ => lo ≤ u.2 ∧ u.2 ≤ hi)
      (P := fun m : StablePriceModel => lo ≤ m.stablePrice ∧ m.stablePrice ≤ hi)
      (fun u m r m' hm hu h => ?_) updates _ ⟨hle, hge⟩
      (guarded_of_forall updates (fun u hu _ => hprices u hu) _)
    obtain ⟨m₁, hupdate, h⟩ := of_bind h
    obtain ⟨-, rfl⟩ := ok_inj₂ h
    exact update_within hlo hu hm hupdate

/-- Two updates after ten minutes each. -/
theorem stablePrice_follows_default :
    let s := run exec (default.resetToPrice 1 0) [(600, 1), (1200, 1)]
    s.stablePrice = 1 ∧ (∀ i, s.delayPrices i = 1) ∧ 1 / 2 ≤ s.stablePrice := by
  obtain ⟨hsteady, hrange⟩ := stablePrice_follows (p := 1) default (by decide) 0
    [(600, 1), (1200, 1)]
  obtain ⟨hstable, hdelay⟩ := hsteady
    ⟨⟨rfl, by decide +kernel⟩, ⟨rfl, by decide +kernel⟩, trivial⟩
  exact ⟨hstable, hdelay, (hrange (1 / 2) 1 (by decide +kernel) (by decide +kernel) le_rfl
    (by decide +kernel)).1⟩

/-- After an hour without updates, the price counts for ten minutes of it. -/
theorem delayPrices_lag : (run exec (default.resetToPrice 1 0) [(3600, 1)]).delayPrices 0 ≠ 1 := by
  decide +kernel

end StablePriceModel

end MangoV4
