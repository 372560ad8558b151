/-
  MangoV4.Tokens.Rounding

  Which way a bank rounds, and by how much.

  Balances are kept in units of an index that grows with interest.  A deposit
  is converted so that it is worth no less than the amount, a withdrawal so
  that it costs no more, and what the conversion misses is less than one step
  of the balance.  Every case of a deposit or a withdrawal moves the product of
  balance and index by the amount and at most one step more (`floor_shift`).

  The limit on deposits counts on that: it leaves one step for the rounding.
-/

import Mathlib.Tactic.Linarith
import MangoV4.Lib.FixedRat
import MangoV4.State.BankNative

namespace MangoV4

open Lib Lib.Exec TokenPosition

/-! ## Products of a balance and an index -/

/-- A balance moves by `change`, whose product with the index misses `amount` by
    at most one step: then so does its value, but for rounding it down. -/
theorem floor_shift {p change index amount : Int} (hle : amount * 2 ^ 48 ≤ change * index)
    (hlt : change * index ≤ amount * 2 ^ 48 + index) :
    p * index / 2 ^ 48 + amount ≤ (p + change) * index / 2 ^ 48 ∧
      ((p + change) * index / 2 ^ 48 - (p * index / 2 ^ 48 + amount)) * 2 ^ 48 < index + 2 ^ 48 := by
  rw [add_mul]
  generalize p * index = x at *
  generalize change * index = y at *
  omega

namespace Bank

variable {b b' : Bank} {p p' : TokenPosition} {amount native native' fee : I80F48} {nowTs : Nat}
  {active allowDusting : Bool}

/-- Rounding towards zero, a quotient is worth less than one step below the amount. -/
theorem lt_div_mul {x index change : I80F48} (hx : 0 ≤ x.raw) (hindex : 0 < index.raw)
    (h : x.div index = (.ok change : Exec I80F48)) :
    x.raw * 2 ^ 48 < change.raw * index.raw + index.raw := by
  obtain ⟨-, hraw⟩ := Fixed.div_eq_ok.mp h
  rw [Int.tdiv_eq_ediv_of_nonneg (by positivity)] at hraw
  rw [hraw, ← add_one_mul]
  exact Int.lt_ediv_add_one_mul_self _ hindex

/-- Rounding up, a quotient is worth the amount and at most one step more. -/
theorem divRoundingUp_bounds {x index change : I80F48} (hx : 0 ≤ x.raw) (hindex : 0 < index.raw)
    (h : divRoundingUp x index = .ok change) :
    x.raw * 2 ^ 48 ≤ change.raw * index.raw ∧
      change.raw * index.raw ≤ x.raw * 2 ^ 48 + index.raw := by
  obtain ⟨quotient, hquotient, h⟩ := of_bind h
  obtain ⟨-, hle⟩ := div_mul_le hx hindex hquotient
  have hlt := lt_div_mul hx hindex hquotient
  obtain ⟨product, hproduct, h⟩ := of_bind h
  rw [Fixed.mul_eq_ok] at hproduct
  split at h
  · have hchange : change.raw = quotient.raw + 1 := Fixed.add_eq_ok.mp h
    rw [hchange, add_one_mul]
    omega
  · rename_i hnot
    obtain rfl := ok_inj h
    have hexact : x.raw ≤ product.raw := not_lt.mp hnot
    omega

theorem divRoundingUp_zero {x index change : I80F48} (hx : x.raw = 0)
    (h : divRoundingUp x index = .ok change) : change.raw = 0 := by
  obtain ⟨quotient, hquotient, h⟩ := of_bind h
  obtain ⟨-, hraw⟩ := Fixed.div_eq_ok.mp hquotient
  rw [hx, zero_mul, Int.zero_tdiv] at hraw
  obtain ⟨product, hproduct, h⟩ := of_bind h
  rw [Fixed.mul_eq_ok, hraw, zero_mul, Int.zero_ediv] at hproduct
  split at h
  · rename_i hlt
    have hlt : product.raw < x.raw := hlt
    omega
  · obtain rfl := ok_inj h
    exact hraw

theorem native_of_nonneg (hp : 0 ≤ p.indexedPosition.raw) (h : p.native b = .ok native) :
    native.raw = p.indexedPosition.raw * b.depositIndex.raw / 2 ^ 48 := by
  rw [native_eq_ok h]
  rcases hp.eq_or_lt with hzero | hpos
  · rw [← hzero, zero_mul, zero_mul]
  · rw [if_pos hpos]

/-! ## One deposit or withdrawal -/

/-- `after` is at least `target`, and less than one step of either index and one
    more above it; all in units of the last bit. -/
def Rounds (b : Bank) (target after : Int) : Prop :=
  target ≤ after ∧ (after - target) * 2 ^ 48 < max b.depositIndex.raw b.borrowIndex.raw + 2 ^ 48

theorem Rounds.of_deposits {target after : Int}
    (h : target ≤ after ∧ (after - target) * 2 ^ 48 < b.depositIndex.raw + 2 ^ 48) :
    b.Rounds target after := by
  unfold Rounds
  omega

theorem Rounds.of_borrows {target after : Int}
    (h : target ≤ after ∧ (after - target) * 2 ^ 48 < b.borrowIndex.raw + 2 ^ 48) :
    b.Rounds target after := by
  unfold Rounds
  omega

theorem Deposited.rounds (hb : b.Indexed) (h : Deposited b allowDusting amount native p p' true)
    (hamount : 0 ≤ amount.raw) (hnative : p.native b = .ok native)
    (hnative' : p'.native b = .ok native') : b.Rounds (native.raw + amount.raw) native'.raw := by
  have hsign := native_nonneg_iff hb hnative
  cases h with
  | @repaid change hneg hchange hp' hstill =>
    obtain ⟨hle, hlt⟩ := divRoundingUp_bounds hamount hb.2 hchange
    rw [native_of_nonpos (by omega) hnative, native_of_nonpos hstill.le hnative', hp']
    exact .of_borrows (floor_shift hle hlt)
  | @crossed change rest restChange hneg hchange hpaid hrest hrestChange hp' =>
    have hp : p.indexedPosition.raw < 0 := by omega
    have hnonneg : 0 ≤ rest.raw := hrest ▸ le_max_right _ _
    have hpositive := divRoundingUp_nonneg hnonneg hb.1 hrestChange
    rw [native_of_nonneg (by omega) hnative', hp']
    by_cases hcovered : 0 ≤ native.raw + amount.raw
    · obtain ⟨hle, hlt⟩ := divRoundingUp_bounds hnonneg hb.1 hrestChange
      have hshift := floor_shift (p := 0) hle hlt
      rw [zero_mul, Int.zero_ediv, zero_add, zero_add, hrest, max_eq_left hcovered] at hshift
      exact .of_deposits hshift
    · -- the borrow was worth a little more than the amount, and nothing is deposited
      rw [divRoundingUp_zero (by omega) hrestChange, zero_mul, Int.zero_ediv]
      obtain ⟨hle, hlt⟩ := divRoundingUp_bounds hamount hb.2 hchange
      have hshift := (floor_shift (p := p.indexedPosition.raw) hle hlt).2
      rw [← native_of_nonpos hp.le hnative] at hshift
      have hvalue : 0 ≤ (p.indexedPosition.raw + change.raw) * b.borrowIndex.raw / 2 ^ 48 :=
        Int.ediv_nonneg (mul_nonneg hpaid (le_of_lt hb.2)) (by norm_num)
      exact .of_borrows ⟨by omega, by omega⟩
  | added hnonneg hchange hp' =>
    have hp := hsign.mp hnonneg
    have hpositive := divRoundingUp_nonneg hamount hb.1 hchange
    obtain ⟨hle, hlt⟩ := divRoundingUp_bounds hamount hb.1 hchange
    rw [native_of_nonneg hp hnative, native_of_nonneg (by omega) hnative', hp']
    exact .of_deposits (floor_shift hle hlt)

/-- A withdrawal is a deposit of a negative amount. -/
theorem floor_shift_neg {q change index x : Int} (hle : change * index ≤ x * 2 ^ 48)
    (hlt : x * 2 ^ 48 < change * index + index) :
    q * index / 2 ^ 48 - x ≤ (q - change) * index / 2 ^ 48 ∧
      ((q - change) * index / 2 ^ 48 - (q * index / 2 ^ 48 - x)) * 2 ^ 48 < index + 2 ^ 48 := by
  have hupper : -x * 2 ^ 48 ≤ -change * index := by
    rw [neg_mul, neg_mul]
    omega
  have hlower : -change * index ≤ -x * 2 ^ 48 + index := by
    rw [neg_mul, neg_mul]
    omega
  exact floor_shift hupper hlower

theorem Withdrawn.rounds (hb : b.Indexed)
    (h : Withdrawn b allowDusting amount native fee p p' true) (hamount : 0 ≤ amount.raw)
    (hfee : fee.raw = 0) (hnative : p.native b = .ok native) (hnative' : p'.native b = .ok native') :
    b.Rounds (native.raw - amount.raw) native'.raw := by
  have hsign := native_nonneg_iff hb hnative
  cases h with
  | taken hle hnonneg hchange hp' _ =>
    have hp := hsign.mp hnonneg
    obtain ⟨-, hchange'⟩ := withdrawal_le_position hb hp hnative hamount hle hchange
    have hlower := (div_mul_le hamount hb.1 hchange).2
    have hupper := lt_div_mul hamount hb.1 hchange
    rw [native_of_nonneg hp hnative, native_of_nonneg (by omega) hnative', hp']
    exact .of_deposits (floor_shift_neg hlower hupper)
  | @crossed loan change hlt hnonneg hloan hchange hp' =>
    obtain ⟨hpositive, hlower⟩ := div_mul_le (by omega) hb.2 hchange
    have hupper := lt_div_mul (by omega) hb.2 hchange
    have hshift := floor_shift_neg (q := 0) hlower hupper
    rw [zero_mul, Int.zero_ediv, zero_sub, zero_sub, hloan, hfee] at hshift
    rw [native_of_nonpos (by omega) hnative', hp']
    exact .of_borrows ⟨by omega, by omega⟩
  | @borrowed loan change hneg hloan hchange hp' =>
    obtain ⟨hpositive, hlower⟩ := div_mul_le (by omega) hb.2 hchange
    have hupper := lt_div_mul (by omega) hb.2 hchange
    have hshift := floor_shift_neg (q := p.indexedPosition.raw) hlower hupper
    rw [hloan, hfee, add_zero] at hshift
    rw [native_of_nonpos (by omega) hnative, native_of_nonpos (by omega) hnative', hp']
    exact .of_borrows hshift

/-- The bound in numbers instead of bits. -/
theorem Rounds.toRat {after : I80F48} {target : Int} (h : b.Rounds target after.raw) :
    (target / 2 ^ 48 : ℚ) ≤ after.toRat ∧ after.toRat <
      target / 2 ^ 48 + (max b.depositIndex.toRat b.borrowIndex.toRat + 1) * I80F48.DELTA.toRat := by
  obtain ⟨hle, hlt⟩ := h
  have hdelta : I80F48.DELTA.toRat = 1 / 2 ^ 48 := by norm_num [Fixed.toRat, I80F48.DELTA]
  have hmax : max b.depositIndex.toRat b.borrowIndex.toRat =
      ((max b.depositIndex.raw b.borrowIndex.raw : Int) : ℚ) / 2 ^ 48 := by
    unfold Fixed.toRat
    rw [max_div_div_right (by positivity), Int.cast_max]
  rw [hdelta, hmax]
  generalize max b.depositIndex.raw b.borrowIndex.raw = index at hlt ⊢
  unfold Fixed.toRat
  have hlt' : ((after.raw : ℚ) - target) * 2 ^ 48 < index + 2 ^ 48 := by exact_mod_cast hlt
  constructor
  · gcongr
  · have hstep : ((after.raw : ℚ) - target) < (index / 2 ^ 48 + 1) := by linarith
    calc (after.raw : ℚ) / 2 ^ 48
        = (target : ℚ) / 2 ^ 48 + (after.raw - target) / 2 ^ 48 := by ring
      _ < (target : ℚ) / 2 ^ 48 + (index / 2 ^ 48 + 1) / 2 ^ 48 := by gcongr
      _ = (target : ℚ) / 2 ^ 48 + (index / 2 ^ 48 + 1) * (1 / 2 ^ 48) := by ring

theorem deposit_rounds (hb : b.Indexed) (h : b.deposit p amount nowTs = .ok (true, b', p'))
    (hnative : p.native b = .ok native) (hnative' : p'.native b' = .ok native') :
    b.Rounds (native.raw + amount.raw) native'.raw := by
  obtain ⟨hterms, hamount, n, hn, hcases⟩ := deposit_cases h
  obtain rfl : native = n := ok_unique hnative hn
  rw [hterms.native_eq] at hnative'
  exact hcases.rounds hb hamount hnative hnative'

theorem withdrawWithoutFee_rounds (hb : b.Indexed)
    (h : b.withdrawWithoutFee p amount nowTs = .ok (true, b', p')) (hnative : p.native b = .ok native)
    (hnative' : p'.native b' = .ok native') :
    b.Rounds (native.raw - amount.raw) native'.raw := by
  obtain ⟨hterms, hamount, n, fee, hn, hfee, hcases⟩ := withdrawWithoutFee_cases h
  obtain rfl : native = n := ok_unique hnative hn
  rw [hterms.native_eq] at hnative'
  exact hcases.rounds hb hamount hfee hnative hnative'

/-- A bank rounds in favour of the user, by less than one step of an index and
    one more, unless it dusts the position.  What was just deposited can be
    withdrawn without a loan. -/
theorem rounding_favours_user (hb : b.Indexed) (hnative : p.native b = .ok native) :
    (∀ b' p' after, b.deposit p amount nowTs = .ok (true, b', p') → p'.native b' = .ok after →
      native.toRat + amount.toRat ≤ after.toRat ∧
      after.toRat < native.toRat + amount.toRat +
        (max b.depositIndex.toRat b.borrowIndex.toRat + 1) * I80F48.DELTA.toRat) ∧
    (∀ b' p' after, b.withdrawWithoutFee p amount nowTs = .ok (true, b', p') →
      p'.native b' = .ok after →
      native.toRat - amount.toRat ≤ after.toRat ∧
      after.toRat < native.toRat - amount.toRat +
        (max b.depositIndex.toRat b.borrowIndex.toRat + 1) * I80F48.DELTA.toRat) ∧
    (.zero ≤ native → ∀ b' p', b.deposit p amount nowTs = .ok (true, b', p') →
      ∀ withFee allowDusting nowTs' result b'' p'',
        b'.withdrawInternalWrapper p' amount withFee allowDusting nowTs' = .ok (result, b'', p'') →
        result.loanAmount = .zero ∧ .zero ≤ p''.indexedPosition) := by
  refine ⟨fun b' p' after h hafter => ?_, fun b' p' after h hafter => ?_,
    fun hnonneg b' p' h withFee allowDusting nowTs' result b'' p'' hwithdraw => ?_⟩
  · have hsum : native.toRat + amount.toRat = ((native.raw + amount.raw : Int) : ℚ) / 2 ^ 48 := by
      unfold Fixed.toRat
      push_cast
      ring
    rw [hsum]
    exact (deposit_rounds hb h hnative hafter).toRat
  · have hdifference : native.toRat - amount.toRat =
        ((native.raw - amount.raw : Int) : ℚ) / 2 ^ 48 := by
      unfold Fixed.toRat
      push_cast
      ring
    rw [hdifference]
    exact (withdrawWithoutFee_rounds hb h hnative hafter).toRat
  · obtain ⟨-, -, -, -, -, after, hafter, -, hloan, -⟩ := withdrawInternalWrapper_spec hwithdraw
    have hb' : b'.Indexed := (deposit_cases h).1.indexed_iff.mpr hb
    have hrounds := (deposit_rounds hb h hnative hafter).1
    have hnonneg : 0 ≤ native.raw := hnonneg
    have hle : amount.raw ≤ after.raw := by omega
    exact ⟨hloan hle, withdrawInternalWrapper_nonneg hb' hafter hle hwithdraw⟩

/-- A bank whose indices have grown, and not to round numbers. -/
def grown (depositLimit : Nat) : Bank where
  __ := plain 1
  depositIndex := ⟨2 ^ 48 + 2 ^ 40 + 7, by decide⟩
  borrowIndex := ⟨2 ^ 48 + 2 ^ 43 + 5, by decide⟩
  depositLimit := depositLimit

/-- A deposit of seven tokens is worth at least that, and can be withdrawn. -/
theorem rounding_favours_user_of_grown :
    ∃ b' p' after, (grown 0).deposit { tokenIndex := 1, inUseCount := 0 } (.ofSmall 7) 5 =
        .ok (true, b', p') ∧ p'.native b' = .ok after ∧
      (.zero : I80F48).toRat + (.ofSmall 7 : I80F48).toRat ≤ after.toRat ∧
      ∀ withFee allowDusting nowTs' result b'' p'',
        b'.withdrawInternalWrapper p' (.ofSmall 7) withFee allowDusting nowTs' =
          .ok (result, b'', p'') → result.loanAmount = .zero ∧ .zero ≤ p''.indexedPosition := by
  obtain ⟨⟨active, b', p'⟩, hdeposit, hvalue⟩ := exists_of_any
    (x := (grown 0).deposit { tokenIndex := 1, inUseCount := 0 } (.ofSmall 7) 5)
    (p := fun r => r.1 && (r.2.2.native r.2.1).toOption.isSome) (by decide +kernel)
  obtain ⟨hactive, hafter⟩ := Bool.and_eq_true_iff.mp hvalue
  obtain rfl : active = true := hactive
  obtain ⟨after, hafter, -⟩ := exists_of_any (x := p'.native b') (p := fun _ => true)
    (by rwa [Option.any_true])
  obtain ⟨hdeposits, -, hwithdrawals⟩ := @rounding_favours_user (grown 0)
    { tokenIndex := 1, inUseCount := 0 } (.ofSmall 7) .zero 5 (by decide +kernel) (by rfl)
  exact ⟨b', p', after, hdeposit, hafter, (hdeposits b' p' after hdeposit hafter).1,
    hwithdrawals (le_refl (0 : Int)) b' p' hdeposit⟩

end Bank

end MangoV4
