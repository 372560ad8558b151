/-
  MangoV4.Tokens.Interest

  Interest pays out no more than it collects.

  `compute_index` moves interest from borrowers to depositors through a chain of
  products and quotients, and each of them rounds down.  Rounding a payout down
  is safe.  Rounding down what is collected costs at most one step in each of
  three operations, and the utilization is the quotient of totals that are
  rounded themselves; `interest_covered` adds these steps up.
-/

import MangoV4.Tokens.Verify
import MangoV4.Lib.FixedRat
import Mathlib.Tactic.Linarith

namespace MangoV4

open Lib Lib.Exec Fixed I80F48

namespace Bank

/-- The rate that borrowers pay on these totals, without the loan fee. -/
def currentBorrowRate (b : Bank) (indexedTotalDeposits indexedTotalBorrows : I80F48) :
    Exec I80F48 := do
  let nativeTotalDeposits ← b.depositIndex.mul indexedTotalDeposits
  let nativeTotalBorrows ← b.borrowIndex.mul indexedTotalBorrows
  b.computeInterestRate (← instantaneousUtilization nativeTotalDeposits nativeTotalBorrows)

variable {b : Bank} {x r t z : I80F48}

theorem toRat_delta : DELTA.toRat = 1 / 2 ^ 48 := by norm_num [toRat, DELTA]

theorem toRat_one : ONE.toRat = 1 := by norm_num [toRat, ONE]

theorem year_pos : 0 < YEAR.toRat := toRat_pos_iff.mpr (by decide)

/-! ## A yearly rate, for some time -/

/-- What three roundings lose at most, in steps. -/
def slack (t : I80F48) : ℚ := (t.toRat + 1) / YEAR.toRat + 1

/-- `x` at the yearly rate `r` for the time `t`, rounded after each operation. -/
structure Accrues (x r t z : I80F48) : Prop where
  nonneg : 0 ≤ z.toRat
  le : z.toRat ≤ x.toRat * r.toRat * (t.toRat / YEAR.toRat)
  ge : x.toRat * r.toRat * (t.toRat / YEAR.toRat) ≤ z.toRat + slack t * I80F48.DELTA.toRat

theorem accrues {p q : I80F48} (hx : 0 ≤ x.toRat) (hr : 0 ≤ r.toRat) (ht : 0 ≤ t.toRat)
    (hp : x.mul r = (.ok p : Exec I80F48)) (hq : p.mul t = (.ok q : Exec I80F48))
    (hz : q.div YEAR = (.ok z : Exec I80F48)) : Accrues x r t z := by
  have hyear := year_pos
  obtain ⟨hple, hplt⟩ := toRat_mul_bounds hp
  obtain ⟨hqle, hqlt⟩ := toRat_mul_bounds hq
  have hp0 := toRat_mul_nonneg hx hr hp
  have hq0 := toRat_mul_nonneg hp0 ht hq
  obtain ⟨hzle, hzlt⟩ := toRat_div_bounds hq0 hyear hz
  -- the exact value, and how far below it each operation may end
  have hupper : p.toRat * t.toRat ≤ x.toRat * r.toRat * t.toRat :=
    mul_le_mul_of_nonneg_right hple ht
  have hlower : x.toRat * r.toRat * t.toRat ≤ q.toRat + (t.toRat + 1) * (1 / 2 ^ 48) := by
    have hscaled := mul_le_mul_of_nonneg_right hplt.le ht
    linarith
  refine ⟨toRat_div_nonneg hq0 hyear.le hz, hzle.trans ?_, ?_⟩ <;> rw [← mul_div_assoc]
  · exact div_le_div_of_nonneg_right (hqle.trans hupper) hyear.le
  · have hdivided := div_le_div_of_nonneg_right hlower hyear.le
    rw [add_div, mul_div_right_comm (t.toRat + 1)] at hdivided
    rw [toRat_delta, slack]
    linarith

/-! ## Utilization -/

/-- Clamped to 0..1, and no more than borrows over deposits. -/
theorem instantaneousUtilization_bounds {deposits borrows u : I80F48} (hdeposits : 0 ≤ deposits.toRat)
    (hborrows : 0 ≤ borrows.toRat) (h : instantaneousUtilization deposits borrows = .ok u) :
    0 ≤ u.toRat ∧ u.toRat ≤ 1 ∧ u.toRat * deposits.toRat ≤ borrows.toRat := by
  unfold instantaneousUtilization at h
  split at h
  · rw [← ok_inj h, toRat_zero, zero_mul]
    exact ⟨le_rfl, zero_le_one, hborrows⟩
  · rename_i hne
    obtain ⟨quotient, hquotient, h⟩ := of_bind h
    have hpos : 0 < deposits.toRat := by
      refine hdeposits.lt_of_ne fun hzero => hne (toRat_inj.mp ?_)
      rw [← hzero, toRat_zero]
    have hnonneg := toRat_div_nonneg hborrows hdeposits hquotient
    rw [← ok_inj h, toRat_min, toRat_max, toRat_zero, toRat_one,
      max_eq_left hnonneg]
    refine ⟨le_min hnonneg zero_le_one, min_le_right _ _, (le_div_iff₀ hpos).mp ?_⟩
    exact (min_le_left _ _).trans (toRat_div_bounds hborrows hpos hquotient).1

/-! ## The indices -/

/-- An index grows by what it accrues. -/
theorem accrue_eq_ok {index index' : I80F48} (hindex : 0 ≤ index.toRat) (hr : 0 ≤ r.toRat)
    (ht : 0 ≤ t.toRat) (h : accrue index r t = .ok index') :
    ∃ gain, Accrues index r t gain ∧ index'.toRat = gain.toRat + index.toRat := by
  obtain ⟨p, hp, h⟩ := of_bind h
  obtain ⟨q, hq, h⟩ := of_bind h
  obtain ⟨gain, hgain, h⟩ := of_bind h
  exact ⟨gain, accrues hindex hr ht hp hq hgain, toRat_add h⟩

theorem slack_bounds (ht : 0 ≤ t.toRat) : t.toRat / YEAR.toRat ≤ slack t ∧ 0 ≤ slack t := by
  have hyear := year_pos
  have hstep : 0 ≤ 1 / YEAR.toRat := by positivity
  have hshare : 0 ≤ t.toRat / YEAR.toRat := by positivity
  rw [slack, add_div]
  constructor <;> linarith

/-- Depositors get no more than the rate on all borrows and one step: what the
    rounded total misses of the deposits is less than that. -/
theorem payout_le {index deposits rate depositRate u totalDeposits totalBorrows time gain : ℚ}
    (hindex : 0 ≤ index) (hdeposits : 0 ≤ deposits) (hrate : 0 ≤ rate) (htime : 0 ≤ time)
    (hgain : gain ≤ index * depositRate * time) (hdepositRate : depositRate ≤ rate * u)
    (hu0 : 0 ≤ u) (hu1 : u ≤ 1) (huse : u * totalDeposits ≤ totalBorrows)
    (htotal : index * deposits < totalDeposits + 1 / 2 ^ 48) :
    gain * deposits ≤ (totalBorrows + 1 / 2 ^ 48) * (rate * time) := by
  have hshare : index * deposits * u ≤ totalBorrows + 1 / 2 ^ 48 :=
    calc index * deposits * u
        ≤ (totalDeposits + 1 / 2 ^ 48) * u := mul_le_mul_of_nonneg_right htotal.le hu0
      _ = u * totalDeposits + 1 / 2 ^ 48 * u := by ring
      _ ≤ totalBorrows + 1 / 2 ^ 48 := add_le_add huse (mul_le_of_le_one_right (by positivity) hu1)
  calc gain * deposits
      ≤ index * depositRate * time * deposits := mul_le_mul_of_nonneg_right hgain hdeposits
    _ = depositRate * (index * deposits * time) := by ring
    _ ≤ rate * u * (index * deposits * time) :=
        mul_le_mul_of_nonneg_right hdepositRate (by positivity)
    _ = index * deposits * u * (rate * time) := by ring
    _ ≤ _ := mul_le_mul_of_nonneg_right hshare (by positivity)

/-- Borrowers pay the rate on all borrows, but for the roundings. -/
theorem collected_ge {index borrows rate totalBorrows time gain lost : ℚ} (hborrows : 0 ≤ borrows)
    (hrate : 0 ≤ rate) (htime : 0 ≤ time) (hgain : index * rate * time ≤ gain + lost)
    (htotal : totalBorrows ≤ index * borrows) :
    totalBorrows * (rate * time) ≤ (gain + lost) * borrows :=
  calc totalBorrows * (rate * time)
      ≤ index * borrows * (rate * time) := mul_le_mul_of_nonneg_right htotal (by positivity)
    _ = index * rate * time * borrows := by ring
    _ ≤ _ := mul_le_mul_of_nonneg_right hgain hborrows

/-- No index falls, and depositors and the fee together get no more than
    borrowers pay, but for the roundings. -/
theorem interest_covered {deposits borrows diffTs : I80F48} {update : IndexUpdate} (hb : b.Indexed)
    (hrates : b.NonnegRates) (hfee : .zero ≤ b.loanFeeRate) (hdeposits : .zero ≤ deposits)
    (hborrows : .zero ≤ borrows) (hdiff : .zero ≤ diffTs)
    (h : b.computeIndex deposits borrows diffTs = .ok update) :
    b.depositIndex ≤ update.depositIndex ∧ b.borrowIndex ≤ update.borrowIndex ∧
    ∃ borrowRate, b.currentBorrowRate deposits borrows = .ok borrowRate ∧
      (update.depositIndex.toRat - b.depositIndex.toRat) * deposits.toRat +
          update.borrowFees.toRat ≤
        (update.borrowIndex.toRat - b.borrowIndex.toRat) * borrows.toRat +
          (borrows.toRat + borrowRate.toRat + 1) * ((diffTs.toRat + 1) / YEAR.toRat + 1) *
            I80F48.DELTA.toRat := by
  obtain ⟨totalDeposits, htotalDeposits, h⟩ := of_bind h
  obtain ⟨totalBorrows, htotalBorrows, h⟩ := of_bind h
  obtain ⟨u, hu, h⟩ := of_bind h
  obtain ⟨rate, hrate, h⟩ := of_bind h
  obtain ⟨depositRate, hdepositRate, h⟩ := of_bind h
  obtain ⟨rateWithFees, hrateWithFees, h⟩ := of_bind h
  obtain ⟨feesPerYear, hfeesPerYear, h⟩ := of_bind h
  obtain ⟨feesScaled, hfeesScaled, h⟩ := of_bind h
  obtain ⟨fees, hfees, h⟩ := of_bind h
  obtain ⟨borrowIndex, hborrowIndex, h⟩ := of_bind h
  obtain ⟨depositIndex, hdepositIndex, h⟩ := of_bind h
  obtain rfl := ok_inj h
  -- the totals, and the rates
  have hindexD : 0 ≤ b.depositIndex.toRat := (toRat_pos_iff.mpr hb.1).le
  have hindexB : 0 ≤ b.borrowIndex.toRat := (toRat_pos_iff.mpr hb.2).le
  have hd : 0 ≤ deposits.toRat := toRat_nonneg_iff.mpr hdeposits
  have hw : 0 ≤ borrows.toRat := toRat_nonneg_iff.mpr hborrows
  have ht : 0 ≤ diffTs.toRat := toRat_nonneg_iff.mpr hdiff
  have hf : 0 ≤ b.loanFeeRate.toRat := toRat_nonneg_iff.mpr hfee
  have hr : 0 ≤ rate.toRat := toRat_nonneg_iff.mpr (computeInterestRate_nonneg hrates hrate)
  have htotalB := toRat_mul_nonneg hindexB hw htotalBorrows
  obtain ⟨hu0, hu1, huse⟩ :=
    instantaneousUtilization_bounds (toRat_mul_nonneg hindexD hd htotalDeposits) htotalB hu
  have hdepositRate0 := toRat_mul_nonneg hr hu0 hdepositRate
  have hrateWithFees := toRat_add hrateWithFees
  obtain ⟨gainB, hgainB, hborrowIndex⟩ :=
    accrue_eq_ok hindexB (hrateWithFees ▸ add_nonneg hr hf) ht hborrowIndex
  obtain ⟨gainD, hgainD, hdepositIndex⟩ := accrue_eq_ok hindexD hdepositRate0 ht hdepositIndex
  have hgainF := accrues htotalB hf ht hfeesPerYear hfeesScaled hfees
  refine ⟨toRat_le_iff.mp ?_, toRat_le_iff.mp ?_, rate, ?_, ?_⟩
  · have hnonneg := hgainD.nonneg
    linarith
  · have hnonneg := hgainB.nonneg
    linarith
  · simp only [currentBorrowRate, htotalDeposits, htotalBorrows, hu, ok_bind]
    exact hrate
  · have hshare : 0 ≤ diffTs.toRat / YEAR.toRat := div_nonneg ht year_pos.le
    have hpaid := payout_le hindexD hd hr hshare hgainD.le (toRat_mul_bounds hdepositRate).1
      hu0 hu1 huse (toRat_mul_bounds htotalDeposits).2
    have hcollected := collected_ge hw (hrateWithFees ▸ add_nonneg hr hf) hshare hgainB.ge
      (toRat_mul_bounds htotalBorrows).1
    have hfees := hgainF.le
    obtain ⟨hle, hslack⟩ := slack_bounds ht
    have hrounded := mul_le_mul_of_nonneg_left hle hr
    rw [hrateWithFees] at hcollected
    rw [hdepositIndex, hborrowIndex, add_sub_cancel_right, add_sub_cancel_right, ← slack]
    rw [toRat_delta] at hcollected ⊢
    generalize diffTs.toRat / YEAR.toRat = share at *
    generalize slack diffTs = steps at *
    linarith

/-- An hour of interest, at a utilization of one half. -/
theorem interest_covered_of_curved :
    ∃ update, (curved 3600).computeIndex (.ofSmall 1000) (.ofSmall 500) (.ofSmall 3600) =
        .ok update ∧
      (curved 3600).depositIndex ≤ update.depositIndex := by
  obtain ⟨update, h, -⟩ := exists_of_any (p := fun _ => true)
    (x := (curved 3600).computeIndex (.ofSmall 1000) (.ofSmall 500) (.ofSmall 3600))
    (by decide +kernel)
  exact ⟨update, h, (interest_covered (by decide) ⟨by decide, by decide, by decide, by decide,
    by decide⟩ (by decide) (by decide) (by decide) (by decide) h).1⟩

end Bank

end MangoV4
