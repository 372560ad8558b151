/-
  MangoV4.Tokens.Verify

  What an accepted configuration of a bank guarantees.

  `Bank::verify` runs after a token is registered or edited.  Its bounds make
  the interest rate curve nonnegative, and they order the utilizations so that
  the divisors of its upper two segments are positive where they are used.  Two
  divisors it does not look at: the end of the first segment, and the size of
  the net borrow window.
-/

import MangoV4.Instructions.TokenBanks
import MangoV4.Lib.Faults

namespace MangoV4

open Lib Lib.Exec I80F48

/-- The fields of a bank that only `verify` reads here. -/
structure BankConfig where
  confFilter : I80F48
  adjustmentFactor : I80F48
  delayGrowthLimit : I80F48
  stableGrowthLimit : I80F48
  initAssetWeight : I80F48
  initLiabWeight : I80F48
  minVaultToDepositsRatio : I80F48
  borrowWeightScaleStartQuote : I80F48
  depositWeightScaleStartQuote : I80F48
  tokenConditionalSwapTakerFeeRate : I80F48
  tokenConditionalSwapMakerFeeRate : I80F48
  flashLoanSwapFeeRate : I80F48
  interestTargetUtilization : I80F48
  platformLiquidationFee : I80F48
  collateralFeePerDay : I80F48
  disableAssetLiquidation : Nat
  forceWithdraw : Nat

namespace BankConfig

def allowsAssetLiquidation (c : BankConfig) : Bool := decide (c.disableAssetLiquidation = 0)

def isForceWithdraw (c : BankConfig) : Bool := decide (c.forceWithdraw = 1)

end BankConfig

/-- `require_gte!` -/
def requireGte (x y : I80F48) : Exec Unit := require (decide (y ≤ x)) .requireGteViolated

/-- `require_gt!` -/
def requireGt (x y : I80F48) : Exec Unit := require (decide (y < x)) .requireGtViolated

namespace Bank

/-- The checks of a configuration, in their order. -/
def verify (b : Bank) (c : BankConfig) : Exec Unit := do
  requireGte c.confFilter .zero
  requireGte b.util0 .zero
  requireGte b.util1 b.util0
  requireGte I80F48.ONE b.util1
  requireGte b.rate0 .zero
  requireGte b.rate1 .zero
  requireGte b.maxRate .zero
  requireGte c.adjustmentFactor .zero
  requireGte b.loanFeeRate .zero
  requireGte b.loanOriginationFeeRate .zero
  requireGte c.delayGrowthLimit .zero
  requireGte c.stableGrowthLimit .zero
  requireGte c.initAssetWeight .zero
  requireGte b.maintAssetWeight c.initAssetWeight
  requireGte b.maintLiabWeight .zero
  requireGte c.initLiabWeight b.maintLiabWeight
  requireGte b.liquidationFee .zero
  requireGte c.minVaultToDepositsRatio .zero
  requireGte I80F48.ONE c.minVaultToDepositsRatio
  require (decide (-1 ≤ b.netBorrowLimitPerWindowQuote)) .requireGteViolated
  requireGt c.borrowWeightScaleStartQuote .zero
  requireGt c.depositWeightScaleStartQuote .zero
  require (decide (b.reduceOnly ≤ 2)) .requireGteViolated
  requireGte c.tokenConditionalSwapTakerFeeRate .zero
  requireGte c.tokenConditionalSwapMakerFeeRate .zero
  requireGte c.flashLoanSwapFeeRate .zero
  requireGte b.interestCurveScaling I80F48.ONE
  requireGte c.interestTargetUtilization .zero
  requireGte I80F48.ONE c.interestTargetUtilization
  requireGte b.maintWeightShiftDurationInv .zero
  requireGte b.maintWeightShiftAssetTarget .zero
  requireGte b.maintWeightShiftLiabTarget .zero
  requireGte b.zeroUtilRate .zero
  requireGte c.platformLiquidationFee .zero
  (if !c.allowsAssetLiquidation then do
    require b.areBorrowsReduceOnly .someError
    require (decide (b.maintAssetWeight = .zero)) .requireEqViolated
    else .ok () : Exec Unit)
  requireGte c.collateralFeePerDay .zero
  (if c.isForceWithdraw then do
    require b.areDepositsReduceOnly .someError
    require (!c.allowsAssetLiquidation) .someError
    require (decide (b.maintAssetWeight = .zero)) .requireEqViolated
    else .ok () : Exec Unit)

/-! ## The interest rate curve -/

/-- What an accepted configuration says about the interest rate curve. -/
structure CurveVerified (b : Bank) : Prop where
  util0 : 0 ≤ b.util0.raw
  util1 : b.util0.raw ≤ b.util1.raw
  one : b.util1.raw ≤ 2 ^ 48
  zeroUtilRate : 0 ≤ b.zeroUtilRate.raw
  rate0 : 0 ≤ b.rate0.raw
  rate1 : 0 ≤ b.rate1.raw
  maxRate : 0 ≤ b.maxRate.raw
  scaling : 2 ^ 48 ≤ b.interestCurveScaling.raw

variable {b : Bank} {c : BankConfig}

theorem requireGte_eq_ok {x y : I80F48} {u : Unit} :
    requireGte x y = .ok u ↔ y.raw ≤ x.raw := by
  unfold requireGte
  rw [require_eq_ok, decide_eq_true_eq]
  rfl

theorem verify_curve (h : b.verify c = .ok ()) : CurveVerified b := by
  unfold verify at h
  simp only [bind_eq_ok, exists_const, requireGte_eq_ok, requireGt, require_eq_ok] at h
  obtain ⟨-, hutil0, hutil1, hone, hrate0, hrate1, hmaxRate, -, -, -, -, -, -, -, -, -, -, -, -, -, -, -,
    -, -, -, -, hscaling, -, -, -, -, -, hzeroUtilRate, -⟩ := h
  exact ⟨hutil0, hutil1, hone, hzeroUtilRate, hrate0, hrate1, hmaxRate, hscaling⟩

/-- Between two nonnegative rates the curve is nonnegative: the slope is rounded
    towards zero, so a falling segment ends no lower than its end point. -/
theorem interpolateRate_nonneg {utilization utilA rateA utilB rateB r : I80F48}
    (hA : 0 ≤ rateA.raw) (hB : 0 ≤ rateB.raw) (hlower : utilA.raw ≤ utilization.raw)
    (hupper : utilization.raw ≤ utilB.raw)
    (h : interpolateRate utilization utilA rateA utilB rateB = .ok r) : 0 ≤ r.raw := by
  obtain ⟨extra, hextra, h⟩ := of_bind h
  obtain ⟨rise, hrise, h⟩ := of_bind h
  obtain ⟨width, hwidth, h⟩ := of_bind h
  obtain ⟨slope, hslope, h⟩ := of_bind h
  obtain ⟨change, hchange, h⟩ := of_bind h
  rw [Fixed.sub_eq_ok] at hextra hrise hwidth
  rw [Fixed.mul_eq_ok] at hchange
  rw [Fixed.add_eq_ok] at h
  obtain ⟨hne, hslope⟩ := Fixed.div_eq_ok.mp hslope
  have hextra' : 0 ≤ extra.raw := by omega
  have hwidth' : 0 < width.raw := by omega
  rcases le_or_gt 0 rise.raw with hup | hdown
  · have hslope' : 0 ≤ slope.raw := by
      rw [hslope]
      exact Int.tdiv_nonneg (by positivity) hwidth'.le
    have hchange' : 0 ≤ change.raw := by
      rw [hchange]
      positivity
    omega
  · -- the drop over the whole segment bounds the drop so far
    have hneg : slope.raw = -((-rise.raw) * 2 ^ 48 / width.raw) := by
      rw [hslope, ← Int.tdiv_eq_ediv_of_nonneg (by omega), ← Int.neg_tdiv, neg_mul, neg_neg]
    have hdrop : (-slope.raw) * extra.raw ≤ -rise.raw * 2 ^ 48 := by
      have hquotient : 0 ≤ -slope.raw := by
        rw [hneg, neg_neg]
        exact Int.ediv_nonneg (by omega) hwidth'.le
      calc (-slope.raw) * extra.raw ≤ (-slope.raw) * width.raw :=
            mul_le_mul_of_nonneg_left (by omega) hquotient
        _ ≤ -rise.raw * 2 ^ 48 := by
            rw [hneg, neg_neg]
            exact Int.ediv_mul_le _ hwidth'.ne'
    rw [neg_mul] at hdrop
    omega

theorem onlyOverflows_interpolateRate {utilization utilA rateA utilB rateB : I80F48}
    (h : utilA.raw ≠ utilB.raw) :
    OnlyOverflows (interpolateRate utilization utilA rateA utilB rateB) := by
  refine Faults.bind (.ofRaw (by rfl) _) fun extra => .bind (.ofRaw (by rfl) _) fun rise =>
    .bind_of (.ofRaw (by rfl) _) fun width hwidth => .bind (.div (by rfl) _ _ fun hzero => ?_) fun slope =>
    .bind (.ofRaw (by rfl) _) fun change => .ofRaw (by rfl) _
  rw [Fixed.sub_eq_ok] at hwidth
  omega

/-- No rate of the curve is negative. -/
structure NonnegRates (b : Bank) : Prop where
  zeroUtilRate : 0 ≤ b.zeroUtilRate.raw
  rate0 : 0 ≤ b.rate0.raw
  rate1 : 0 ≤ b.rate1.raw
  maxRate : 0 ≤ b.maxRate.raw
  scaling : 0 ≤ b.interestCurveScaling.raw

theorem CurveVerified.nonnegRates (h : CurveVerified b) : b.NonnegRates :=
  ⟨h.zeroUtilRate, h.rate0, h.rate1, h.maxRate, le_trans (by norm_num) h.scaling⟩

theorem computeInterestRate_nonneg (hb : b.NonnegRates) {utilization r : I80F48}
    (h : b.computeInterestRate utilization = .ok r) : 0 ≤ r.raw := by
  obtain ⟨v, hv, h⟩ := of_bind h
  have hlower : 0 ≤ ((utilization.max .zero).min ONE).raw := by
    rw [Fixed.raw_min, Fixed.raw_max]
    exact le_min (le_max_right _ _) (by decide)
  have hupper : ((utilization.max .zero).min ONE).raw ≤ ONE.raw := by
    rw [Fixed.raw_min]
    exact min_le_right _ _
  have hv' : 0 ≤ v.raw := by
    split at hv
    · next hle => exact interpolateRate_nonneg hb.zeroUtilRate hb.rate0 hlower hle hv
    · rename_i hle
      split at hv
      · rename_i hle'
        exact interpolateRate_nonneg hb.rate0 hb.rate1 (not_le.mp hle).le hle' hv
      · rename_i hle'
        exact interpolateRate_nonneg hb.rate1 hb.maxRate (not_le.mp hle').le hupper hv
  split at h
  · rwa [← ok_inj h]
  · rw [Fixed.mul_eq_ok] at h
    rw [h]
    exact Int.ediv_nonneg (mul_nonneg hv' hb.scaling) (by norm_num)

theorem onlyOverflows_computeInterestRate (hutil0 : b.util0 ≠ .zero) (utilization : I80F48) :
    OnlyOverflows (b.computeInterestRate utilization) := by
  refine Faults.bind (.ite (fun _ => onlyOverflows_interpolateRate fun hzero => ?_) fun hlt =>
    .ite (fun hle => onlyOverflows_interpolateRate fun heq => ?_) fun hlt' =>
      onlyOverflows_interpolateRate fun heq => ?_) fun v => .ite (fun _ => .ok _)
      fun _ => .ofRaw (by rfl) _
  · exact hutil0 (Fixed.ext hzero.symm)
  · -- the utilization is above the lower end and not above the upper one
    have hle : ((utilization.max .zero).min ONE).raw ≤ b.util1.raw := hle
    have hlt : b.util0.raw < ((utilization.max .zero).min ONE).raw := not_le.mp hlt
    omega
  · have hlt' : b.util1.raw < ((utilization.max .zero).min ONE).raw := not_le.mp hlt'
    rw [Fixed.raw_min, heq] at hlt'
    omega

/-! ## The net borrow window -/

theorem onlyOverflows_updateNetBorrows (hsize : b.netBorrowLimitWindowSizeTs ≠ 0) (amount : I80F48)
    (nowTs : Nat) : OnlyOverflows (b.updateNetBorrows amount nowTs) :=
  Faults.bind (.checkU64 (by rfl) _) fun _ => .bind (.ofRaw (by rfl) _) fun _ =>
    .ite (fun _ => .ite (fun hzero => absurd hzero hsize) fun _ => .ok _)
      fun _ => .bind (.checkI64 (by rfl) _) fun _ => .ok _

/-! ## The divisors that are not checked -/

/-- Without a first segment, no utilization at all divides by its length. -/
theorem computeInterestRate_of_util0_eq_zero (hb : CurveVerified b) (hutil0 : b.util0 = .zero) :
    b.computeInterestRate .zero = .error (.panic .divideByZero) := by
  obtain ⟨rise, hrise⟩ : ∃ rise : I80F48, rise.raw = b.rate0.raw - b.zeroUtilRate.raw := by
    have hzero := hb.zeroUtilRate
    have hrate := hb.rate0
    have hrange := b.rate0.inRange
    have hrange' := b.zeroUtilRate.inRange
    exact ⟨⟨b.rate0.raw - b.zeroUtilRate.raw, by omega⟩, rfl⟩
  have hclamped : ((Fixed.zero : I80F48).max .zero).min ONE = .zero := by decide
  have hempty : interpolateRate .zero .zero b.zeroUtilRate .zero b.rate0 =
      .error (.panic .divideByZero) := by
    refine bind_eq_error.mpr (.inr ⟨.zero, rfl, ?_⟩)
    exact bind_eq_error.mpr (.inr ⟨rise, Fixed.sub_eq_ok.mpr hrise, rfl⟩)
  refine bind_eq_error.mpr (.inl ?_)
  rw [hclamped, hutil0, if_pos (show (Fixed.zero : I80F48) ≤ .zero from le_refl (0 : Int)), hempty]

theorem updateNetBorrows_of_size_eq_zero (hstart : b.lastNetBorrowsWindowStartTs ≤ U64_MAX)
    (hsize : b.netBorrowLimitWindowSizeTs = 0) :
    b.updateNetBorrows .zero b.lastNetBorrowsWindowStartTs = .error (.panic .divideByZero) := by
  have hend : (checkU64 (b.lastNetBorrowsWindowStartTs + b.netBorrowLimitWindowSizeTs) : Exec Nat) =
      .ok b.lastNetBorrowsWindowStartTs := by
    rw [checkU64_eq_ok, hsize, add_zero]
    exact ⟨Nat.lt_succ_of_le hstart, rfl⟩
  have hceil : (Fixed.zero : I80F48).ceil = (.ok .zero : Exec I80F48) := by rfl
  unfold updateNetBorrows
  rw [hend, hceil]
  show (if b.lastNetBorrowsWindowStartTs ≤ b.lastNetBorrowsWindowStartTs then _ else _) = _
  rw [if_pos le_rfl, if_pos hsize]
  rfl

/-- The arithmetic of an accepted bank divides by zero exactly if one of the two
    divisors that are not checked is zero; otherwise it can only overflow, and
    rates are nonnegative. -/
theorem verified_arithmetic_iff (hverify : b.verify c = .ok ())
    (hstart : b.lastNetBorrowsWindowStartTs ≤ U64_MAX) :
    ((∀ utilization, (∃ r, .zero ≤ r ∧ b.computeInterestRate utilization = .ok r) ∨
        b.computeInterestRate utilization = .error (.panic .overflow)) ∧
      ∀ amount nowTs, (∃ b', b.updateNetBorrows amount nowTs = .ok b') ∨
        b.updateNetBorrows amount nowTs = .error (.panic .overflow)) ↔
    b.util0 ≠ .zero ∧ b.netBorrowLimitWindowSizeTs ≠ 0 := by
  have hb := verify_curve hverify
  constructor
  · rintro ⟨hrates, hupdates⟩
    constructor
    · intro hutil0
      have hpanic := computeInterestRate_of_util0_eq_zero hb hutil0
      rcases hrates .zero with ⟨r, -, hr⟩ | hr
      · rw [hpanic] at hr
        cases hr
      · rw [hpanic] at hr
        cases hr
    · intro hsize
      have hpanic := updateNetBorrows_of_size_eq_zero hstart hsize
      rcases hupdates .zero b.lastNetBorrowsWindowStartTs with ⟨b', hb'⟩ | hb'
      · rw [hpanic] at hb'
        cases hb'
      · rw [hpanic] at hb'
        cases hb'
  · rintro ⟨hutil0, hsize⟩
    refine ⟨fun utilization => ?_, fun amount nowTs =>
      (onlyOverflows_updateNetBorrows hsize amount nowTs).cases⟩
    rcases (onlyOverflows_computeInterestRate hutil0 utilization).cases with ⟨r, hr⟩ | hoverflow
    · exact .inl ⟨r, computeInterestRate_nonneg hb.nonnegRates hr, hr⟩
    · exact .inr hoverflow

/-- The least that `verify` accepts of the other fields. -/
def leastConfig : BankConfig where
  confFilter := .zero
  adjustmentFactor := .zero
  delayGrowthLimit := .zero
  stableGrowthLimit := .zero
  initAssetWeight := .zero
  initLiabWeight := I80F48.ONE
  minVaultToDepositsRatio := .zero
  borrowWeightScaleStartQuote := I80F48.ONE
  depositWeightScaleStartQuote := I80F48.ONE
  tokenConditionalSwapTakerFeeRate := .zero
  tokenConditionalSwapMakerFeeRate := .zero
  flashLoanSwapFeeRate := .zero
  interestTargetUtilization := .zero
  platformLiquidationFee := .zero
  collateralFeePerDay := .zero
  disableAssetLiquidation := 0
  forceWithdraw := 0

/-- A bank with a curve from zero to one half of the utilization. -/
def curved (windowSizeTs : Nat) : Bank where
  __ := plain 1
  util0 := ⟨2 ^ 47, I80F48.half_inRange⟩
  rate0 := ⟨2 ^ 45, I80F48.eighth_inRange⟩
  util1 := I80F48.ONE
  rate1 := I80F48.ONE
  maxRate := I80F48.ONE
  netBorrowLimitWindowSizeTs := windowSizeTs

theorem verified_arithmetic_of_curved :
    (curved 3600).verify leastConfig = .ok () ∧
      ∀ utilization, (∃ r, .zero ≤ r ∧ (curved 3600).computeInterestRate utilization = .ok r) ∨
        (curved 3600).computeInterestRate utilization = .error (.panic .overflow) :=
  ⟨by rfl, ((verified_arithmetic_iff (show (curved 3600).verify leastConfig = .ok () by rfl)
    (by decide)).mpr ⟨by decide, by decide⟩).1⟩

/-- Both configurations are accepted, and both divide by zero. -/
theorem verified_divides_by_zero :
    ((plain 1).verify leastConfig = .ok () ∧
      (plain 1).computeInterestRate .zero = .error (.panic .divideByZero)) ∧
    ((curved 0).verify leastConfig = .ok () ∧
      (curved 0).updateNetBorrows .zero 1 = .error (.panic .divideByZero)) :=
  ⟨⟨by rfl, by rfl⟩, by rfl, by rfl⟩

end Bank

end MangoV4
