/-
  MangoV4.Tokens.Limits

  The limits of a bank on its deposits and on what is borrowed from it.

  The deposit limit leaves one step of the deposits for the rounding of the
  next deposit, so what it says remains can be deposited.

  The net borrow limit counts whole native tokens: what is borrowed is rounded
  up, what is repaid is rounded down.  `Counted` says what one deposit or
  withdrawal does to the count, and a run of them in one window keeps the count
  between what was borrowed and that plus one token for each of them.
-/

import MangoV4.Lib.Faults
import MangoV4.Lib.Run
import MangoV4.Tokens.Rounding

namespace MangoV4

open Lib Lib.Exec List Fixed Bank
open Fixed (neg_eq_ok add_eq_ok raw_max raw_zero mul_eq_ok sub_eq_ok le_iff)

namespace Bank

variable {b b' : Bank} {p p' : TokenPosition} {amount native : I80F48} {nowTs : Nat}
  {active allowDusting : Bool}

/-! ## The deposit limit -/

theorem remainingDepositsUntilLimit_eq_ok {r : I80F48} (hlimit : b.depositLimit ≠ 0)
    (h : b.remainingDepositsUntilLimit = .ok r) :
    r.raw = b.depositLimit * 2 ^ 48 - (b.depositIndex.raw * (b.indexedDeposits.raw + 1) / 2 ^ 48 +
      b.potentialSerumTokens * 2 ^ 48) ∧ (b.depositLimit : Int) * 2 ^ 48 < 2 ^ 127 := by
  unfold remainingDepositsUntilLimit at h
  rw [if_neg hlimit] at h
  obtain ⟨stepped, hstepped, h⟩ := of_bind h
  obtain ⟨deposits, hdeposits, h⟩ := of_bind h
  obtain ⟨serum, hserum, h⟩ := of_bind h
  obtain ⟨total, htotal, h⟩ := of_bind h
  obtain ⟨limit, hlimit, h⟩ := of_bind h
  have hstepped : stepped.raw = b.indexedDeposits.raw + 1 := add_eq_ok.mp hstepped
  have hserum : serum.raw = b.potentialSerumTokens * 2 ^ 48 := ofRaw_eq_ok.mp hserum
  have hlimit : limit.raw = b.depositLimit * 2 ^ 48 := ofRaw_eq_ok.mp hlimit
  rw [mul_eq_ok, hstepped] at hdeposits
  rw [sub_eq_ok] at h
  rw [add_eq_ok, hserum] at htotal
  rw [h, htotal, hdeposits, hlimit]
  exact ⟨rfl, hlimit ▸ limit.inRange.2⟩

/-- The step that is kept back covers the rounding of the deposit. -/
theorem deposits_le_of_addsDeposits (hindex : 0 < b.depositIndex.raw) (hamount : 0 ≤ amount.raw)
    (h : AddsDeposits b b' amount) :
    b.indexedDeposits.raw ≤ b'.indexedDeposits.raw ∧
      b.depositIndex.raw * b'.indexedDeposits.raw / 2 ^ 48 ≤
        b.depositIndex.raw * (b.indexedDeposits.raw + 1) / 2 ^ 48 + amount.raw := by
  obtain hsame | ⟨rest, change, hnonneg, hle, hchange, hdeposits⟩ := h
  · rw [hsame, mul_add_one]
    omega
  · obtain ⟨-, hbound⟩ := divRoundingUp_bounds hnonneg hindex hchange
    have hpositive := divRoundingUp_nonneg hnonneg hindex hchange
    rw [hdeposits, mul_add_one, mul_add, mul_comm _ change.raw]
    omega

/-- The check ends with the error only above the limit, and passes otherwise if
    the deposits can be computed at all. -/
theorem faults_checkDepositAndOoLimit_of_le {F : Fault MangoError → Prop} (hF : F (.panic .overflow))
    (h : b.depositIndex.raw * b.indexedDeposits.raw / 2 ^ 48 + b.potentialSerumTokens * 2 ^ 48 ≤
      b.depositLimit * 2 ^ 48) : Faults F b.checkDepositAndOoLimit := by
  unfold checkDepositAndOoLimit nativeDeposits
  refine .ite (fun _ => .ok _) fun _ => .bind_of (.mul hF _ _) fun deposits hdeposits =>
    .bind_of (.ofInt hF _) fun serum hserum => .bind_of (.add hF _ _) fun total htotal =>
    .bind_of (.ofInt hF _) fun limit hlimit => .bind_of (.sub hF _ _) fun remaining hremaining => ?_
  have hserum : serum.raw = b.potentialSerumTokens * 2 ^ 48 := ofRaw_eq_ok.mp hserum
  have hlimit : limit.raw = b.depositLimit * 2 ^ 48 := ofRaw_eq_ok.mp hlimit
  rw [mul_eq_ok] at hdeposits
  rw [add_eq_ok] at htotal
  rw [sub_eq_ok] at hremaining
  have hpasses : decide (.zero ≤ remaining) = true := by
    rw [decide_eq_true_eq, le_iff, raw_zero]
    omega
  rw [hpasses]
  exact .ok _

theorem checkDepositAndOoLimit_eq_ok
    (hdeposits : 0 ≤ b.depositIndex.raw * b.indexedDeposits.raw / 2 ^ 48)
    (hle : b.depositIndex.raw * b.indexedDeposits.raw / 2 ^ 48 + b.potentialSerumTokens * 2 ^ 48 ≤
      b.depositLimit * 2 ^ 48) (hrange : (b.depositLimit : Int) * 2 ^ 48 < 2 ^ 127) :
    b.checkDepositAndOoLimit = .ok () := by
  unfold checkDepositAndOoLimit
  split
  · rfl
  · -- every intermediate value is between zero and the limit
    have hvalue {n : Int} (hn : 0 ≤ n ∧ n ≤ b.depositLimit * 2 ^ 48) :
        ∃ x : I80F48, x.raw = n :=
      ⟨⟨n, by norm_num at hrange hn ⊢; omega⟩, rfl⟩
    obtain ⟨deposits, hdeposits'⟩ := hvalue ⟨hdeposits, by omega⟩
    obtain ⟨serum, hserum⟩ := hvalue (n := b.potentialSerumTokens * 2 ^ 48) (by omega)
    obtain ⟨total, htotal⟩ := hvalue (n := deposits.raw + serum.raw) (by omega)
    obtain ⟨limit, hlimit⟩ := hvalue (n := b.depositLimit * 2 ^ 48) (by omega)
    obtain ⟨remaining, hremaining⟩ := hvalue (n := limit.raw - total.raw) (by omega)
    have hcheck : require (decide (.zero ≤ remaining)) MangoError.bankDepositLimit = .ok () := by
      rw [require_eq_ok, decide_eq_true_eq, le_iff, raw_zero]
      omega
    exact bind_eq_ok.mpr ⟨deposits, mul_eq_ok.mpr hdeposits', bind_eq_ok.mpr ⟨serum,
      ofRaw_eq_ok.mpr hserum, bind_eq_ok.mpr ⟨total, add_eq_ok.mpr htotal,
        bind_eq_ok.mpr ⟨limit, ofRaw_eq_ok.mpr hlimit, bind_eq_ok.mpr ⟨remaining,
          sub_eq_ok.mpr hremaining, hcheck⟩⟩⟩⟩⟩

/-- What remains until the limit can be deposited into any position: the check
    does not refuse it, and it passes unless the bank's deposits are negative. -/
theorem remaining_deposit_within_limit {r : I80F48} (hindex : .zero < b.depositIndex)
    (hlimit : b.depositLimit ≠ 0) (hr : b.remainingDepositsUntilLimit = .ok r)
    (h : b.deposit p r nowTs = .ok (active, b', p')) :
    (∀ e, b'.checkDepositAndOoLimit ≠ .error (.error e)) ∧
      (.zero ≤ b.indexedDeposits → b'.checkDepositAndOoLimit = .ok ()) := by
  obtain ⟨-, hterms, hamount, native, -, ⟨-, hlimit', hadds⟩, -⟩ := depositInternalWrapper_spec h
  have hindex : 0 < b.depositIndex.raw := hindex
  obtain ⟨hr, hrange⟩ := remainingDepositsUntilLimit_eq_ok hlimit hr
  obtain ⟨hgrows, hbound⟩ := deposits_le_of_addsDeposits hindex hamount hadds
  have hle : b'.depositIndex.raw * b'.indexedDeposits.raw / 2 ^ 48 +
      b'.potentialSerumTokens * 2 ^ 48 ≤ b'.depositLimit * 2 ^ 48 := by
    rw [hterms.depositIndex, hterms.potentialSerumTokens, hlimit']
    omega
  refine ⟨fun e => (faults_checkDepositAndOoLimit_of_le (F := (· ≠ .error e)) (by simp) hle).not_of (by simp),
    fun hnonneg => checkDepositAndOoLimit_eq_ok ?_ hle (hlimit' ▸ hrange)⟩
  have hnonneg : 0 ≤ b.indexedDeposits.raw := hnonneg
  rw [hterms.depositIndex]
  exact Int.ediv_nonneg (mul_nonneg hindex.le (hnonneg.trans hgrows)) (by norm_num)

/-- All that remains of a limit of a thousand tokens is deposited. -/
theorem remaining_deposit_within_limit_of_grown :
    ∃ r b' p', (grown 1000).remainingDepositsUntilLimit = .ok r ∧ .zero < r ∧
      (grown 1000).deposit { tokenIndex := 1, inUseCount := 0 } r 5 = .ok (true, b', p') ∧
      b'.checkDepositAndOoLimit = .ok () := by
  obtain ⟨r, hr, hvalue⟩ := exists_of_any (x := (grown 1000).remainingDepositsUntilLimit)
    (p := fun r => decide (.zero < r) &&
      ((grown 1000).deposit { tokenIndex := 1, inUseCount := 0 } r 5).toOption.any (·.1))
    (by decide +kernel)
  obtain ⟨hpos, hvalue⟩ := Bool.and_eq_true_iff.mp hvalue
  obtain ⟨⟨active, b', p'⟩, hdeposit, hactive⟩ := exists_of_any hvalue
  obtain rfl : active = true := hactive
  exact ⟨r, b', p', hr, of_decide_eq_true hpos, hdeposit,
    (remaining_deposit_within_limit (by decide +kernel) (by decide) hr hdeposit).2
      (by decide +kernel)⟩

end Bank

/-! ## One window -/

/-- The deposits and withdrawals of a bank: every function for them runs one of
    these, for some position. -/
inductive Flow where
  | deposit (p : TokenPosition) (amount : I80F48) (allowDusting : Bool) (nowTs : Nat)
  | withdraw (p : TokenPosition) (amount : I80F48) (withLoanOriginationFee allowDusting : Bool)
      (nowTs : Nat)

namespace Flow

def nowTs : Flow → Nat
  | deposit _ _ _ nowTs => nowTs
  | withdraw _ _ _ _ nowTs => nowTs

def amount : Flow → I80F48
  | deposit _ amount _ _ => amount
  | withdraw _ amount _ _ _ => amount

/-- Returns what is borrowed with the fee, or minus what is repaid, in units of
    the last bit. -/
def exec : Flow → Bank → Exec (Int × Bank)
  | deposit p amount allowDusting nowTs, b => do
    let native ← p.native b
    let (_, b, _) ← b.depositInternalWrapper p amount allowDusting nowTs
    return (-Bank.repaid native amount, b)
  | withdraw p amount withLoanOriginationFee allowDusting nowTs, b => do
    let native ← p.native b
    let (result, b, _) ← b.withdrawInternalWrapper p amount withLoanOriginationFee allowDusting nowTs
    return (Bank.loan native amount + result.loanOriginationFee.raw, b)

/-- The amount is below `2 ^ 62`, and what is borrowed with the fee is at most
    `i64::MAX`. -/
def Small (o : Flow) (b : Bank) : Prop :=
  o.amount.raw < 2 ^ 62 * 2 ^ 48 ∧ ∀ n b', o.exec b = .ok (n, b') → n ≤ I64_MAX * 2 ^ 48

variable {o : Flow} {b b' : Bank} {n : Int}

theorem exec_counted (h : o.exec b = .ok (n, b')) :
    Counted b.netBorrows b'.netBorrows n o.nowTs ∧ -o.amount.raw ≤ n := by
  cases o with
  | deposit p amount allowDusting nowTs =>
    obtain ⟨native, hnative, h⟩ := of_bind h
    obtain ⟨⟨active, b₁, p₁⟩, hdeposit, h⟩ := of_bind h
    obtain ⟨rfl, rfl⟩ := ok_inj₂ h
    obtain ⟨-, -, -, native', hnative', ⟨hcounted, -, -⟩, -⟩ :=
      depositInternalWrapper_spec hdeposit
    obtain rfl : native = native' := ok_unique hnative hnative'
    refine ⟨hcounted, ?_⟩
    show -amount.raw ≤ -repaid native amount
    unfold repaid
    omega
  | withdraw p amount withFee allowDusting nowTs =>
    obtain ⟨native, hnative, h⟩ := of_bind h
    obtain ⟨⟨result, b₁, p₁⟩, hwithdraw, h⟩ := of_bind h
    obtain ⟨rfl, rfl⟩ := ok_inj₂ h
    obtain ⟨-, -, hamount, -, hfee, native', hnative', hcounted, -⟩ :=
      withdrawInternalWrapper_spec hwithdraw
    obtain rfl : native = native' := ok_unique hnative hnative'
    refine ⟨hcounted, ?_⟩
    show -amount.raw ≤ loan native amount + result.loanOriginationFee.raw
    unfold loan
    omega

theorem fits_of_small (hsmall : o.Small b) (h : o.exec b = .ok (n, b')) : FitsI64 n := by
  have hlower := (exec_counted h).2
  have hupper := hsmall.2 n b' h
  have hamount := hsmall.1
  norm_num [FitsI64, I64_MIN, I64_MAX] at *
  omega

end Flow

/-- What an operation borrows; one that fails is rolled back. -/
def Flow.borrows : Exec Int → Int
  | .ok n => n
  | .error _ => 0

/-- What the operations of a run borrow together, less what they repay. -/
def netBorrowed (b : Bank) (os : List Flow) : Int :=
  ((outcomes Flow.exec b os).map Flow.borrows).sum

/-- The count is at least `exact` units of the last bit, and less than one token
    for each of `operations` above. -/
def NetBorrows.Tracks (w : NetBorrows) (exact : Int) (operations : Nat) : Prop :=
  exact ≤ w.inWindow * 2 ^ 48 ∧ w.inWindow * 2 ^ 48 < exact + operations * 2 ^ 48

namespace Counted

variable {w w' : NetBorrows} {n total : Int} {nowTs operations : Nat}

/-- The operation that moves the start of the window is the first to be counted
    in it. -/
theorem tracks_of_opens (h : Counted w w' n nowTs) (hn : FitsI64 n)
    (hopens : w'.windowStartTs ≠ w.windowStartTs) : w'.Tracks n 1 := by
  cases h with
  | untouched _ hw => exact absurd (congrArg NetBorrows.windowStartTs hw) hopens
  | opened _ hcounted hw =>
    rw [hw]
    obtain ⟨hle, hlt⟩ := hcounted hn
    exact ⟨hle, by simpa using hlt⟩
  | added _ _ hw => exact absurd (congrArg NetBorrows.windowStartTs hw) hopens

theorem tracks (h : Counted w w' n nowTs) (hn : FitsI64 n)
    (hnow : nowTs < w.windowStartTs + w.windowSizeTs) (htracks : w.Tracks total operations) :
    w'.Tracks (total + n) (operations + 1) ∧ w'.windowStartTs = w.windowStartTs ∧
      w'.windowSizeTs = w.windowSizeTs := by
  obtain ⟨hlower, hupper⟩ := htracks
  cases h with
  | untouched hzero hw =>
    rw [hw]
    refine ⟨⟨by omega, ?_⟩, rfl, rfl⟩
    omega
  | opened hover => omega
  | @added counted _ hcounted hw =>
    rw [hw]
    obtain ⟨hle, hlt⟩ := hcounted hn
    have hsum : (w.inWindow + counted) * 2 ^ 48 = w.inWindow * 2 ^ 48 + counted * 2 ^ 48 :=
      add_mul _ _ _
    refine ⟨⟨?_, ?_⟩, rfl, rfl⟩
    · show total + n ≤ (w.inWindow + counted) * 2 ^ 48
      omega
    · show (w.inWindow + counted) * 2 ^ 48 < total + n + ((operations + 1 : Nat) : Int) * 2 ^ 48
      omega

end Counted

theorem netBorrowed_cons (b : Bank) (o : Flow) (os : List Flow) :
    netBorrowed b (o :: os) = Flow.borrows ((o.exec b).map Prod.fst) +
      netBorrowed (stepState Flow.exec o b) os :=
  sum_cons

/-- Every operation in the window is counted with what it borrows or repays. -/
theorem run_tracks {b : Bank} {os : List Flow} {total : Int} {operations : Nat}
    (htracks : b.netBorrows.Tracks total operations)
    (hwindow : ∀ o ∈ os, o.nowTs < b.lastNetBorrowsWindowStartTs + b.netBorrowLimitWindowSizeTs)
    (hsmall : Guarded Flow.exec Flow.Small b os) :
    (run Flow.exec b os).netBorrows.Tracks (total + netBorrowed b os)
      (operations + os.length) := by
  induction os generalizing b total operations with
  | nil =>
    show b.netBorrows.Tracks (total + 0) operations
    rwa [add_zero]
  | cons o os ih =>
    obtain ⟨hfirst, hrest⟩ := hsmall
    have hnow := hwindow o mem_cons_self
    have hwindow' : ∀ o' ∈ os, o'.nowTs < _ := fun o' ho' => hwindow o' (mem_cons_of_mem _ ho')
    have hlength : operations + (o :: os).length = operations + 1 + os.length := by
      rw [length_cons]
      omega
    rw [hlength, netBorrowed_cons, ← add_assoc]
    unfold run
    cases hexec : o.exec b with
    | error f =>
      rw [stepState_of_error hexec] at hrest ⊢
      have hzero : Flow.borrows ((.error f : Exec (Int × Bank)).map Prod.fst) = 0 := rfl
      rw [hzero, add_zero]
      refine ih ⟨htracks.1, htracks.2.trans ?_⟩ hwindow' hrest
      omega
    | ok result =>
      obtain ⟨n, b'⟩ := result
      rw [stepState_of_ok hexec] at hrest ⊢
      obtain ⟨htracks', hstart, hsize⟩ := (Flow.exec_counted hexec).1.tracks
        (Flow.fits_of_small hfirst hexec) hnow htracks
      refine ih htracks' (fun o' ho' => ?_) hrest
      show o'.nowTs < b'.netBorrows.windowStartTs + b'.netBorrows.windowSizeTs
      rw [hstart, hsize]
      exact hwindow' o' ho'

/-- A check that passes bounds what was counted at the price it uses. -/
theorem Bank.checkNetBorrows_le {b : Bank} {oraclePrice : I80F48}
    (h : b.checkNetBorrows oraclePrice = .ok ()) (hlimit : 0 ≤ b.netBorrowLimitPerWindowQuote)
    (hprice : 0 ≤ (oraclePrice.max b.stablePrice).raw) :
    (oraclePrice.max b.stablePrice).raw * b.netBorrowsInWindow ≤
      b.netBorrowLimitPerWindowQuote * 2 ^ 48 := by
  by_cases hcounts : b.netBorrowsInWindow < 0
  · have hnonpos := mul_nonpos_of_nonneg_of_nonpos hprice hcounts.le
    omega
  · obtain ⟨remaining, hremaining, h⟩ := of_bind h
    have hpasses : 0 ≤ remaining.raw := of_require h
    unfold remainingNetBorrowsQuote at hremaining
    rw [if_neg (by omega)] at hremaining
    obtain ⟨quote, hquote, hremaining⟩ := of_bind hremaining
    obtain ⟨limit, hlimit', hremaining⟩ := of_bind hremaining
    have hlimit' : limit.raw = b.netBorrowLimitPerWindowQuote * 2 ^ 48 :=
      ofRaw_eq_ok.mp hlimit'
    rw [ofRaw_eq_ok] at hquote
    rw [sub_eq_ok] at hremaining
    omega

/-- `Tracks` in numbers instead of bits. -/
theorem NetBorrows.Tracks.toRat {w : NetBorrows} {total : Int} {operations : Nat}
    (h : w.Tracks total operations) :
    (total / 2 ^ 48 : ℚ) ≤ w.inWindow ∧ (w.inWindow : ℚ) < total / 2 ^ 48 + operations := by
  have hlower : (total : ℚ) ≤ w.inWindow * 2 ^ 48 := by exact_mod_cast h.1
  have hupper : (w.inWindow : ℚ) * 2 ^ 48 < total + operations * 2 ^ 48 := by exact_mod_cast h.2
  constructor
  · rw [div_le_iff₀ (by norm_num)]
    exact hlower
  · linarith

/-- The net borrows of a window are never underestimated, and overestimated by
    less than one native token for each operation: so a check that passes bounds
    what was really borrowed in the window, fees included. -/
theorem netBorrows_not_underestimated {b b₁ b' : Bank} {o : Flow} {os : List Flow} {n : Int}
    (hfirst : o.exec b = .ok (n, b₁))
    (hopens : b₁.lastNetBorrowsWindowStartTs ≠ b.lastNetBorrowsWindowStartTs)
    (hwindow : ∀ o' ∈ os, o'.nowTs < b₁.lastNetBorrowsWindowStartTs + b₁.netBorrowLimitWindowSizeTs)
    (hsmall : Guarded Flow.exec Flow.Small b (o :: os)) (hrun : run Flow.exec b (o :: os) = b') :
    (netBorrowed b (o :: os) / 2 ^ 48 : ℚ) ≤ b'.netBorrowsInWindow ∧
    (b'.netBorrowsInWindow : ℚ) < netBorrowed b (o :: os) / 2 ^ 48 + (o :: os).length ∧
    ∀ oraclePrice, b'.checkNetBorrows oraclePrice = .ok () →
      0 ≤ b'.netBorrowLimitPerWindowQuote → .zero ≤ oraclePrice.max b'.stablePrice →
      (oraclePrice.max b'.stablePrice).toRat * (netBorrowed b (o :: os) / 2 ^ 48) ≤
        b'.netBorrowLimitPerWindowQuote := by
  obtain ⟨hsmall₁, hrest⟩ := hsmall
  have hopened : b₁.netBorrows.Tracks n 1 := (Flow.exec_counted hfirst).1.tracks_of_opens
    (Flow.fits_of_small hsmall₁ hfirst) hopens
  rw [stepState_of_ok hfirst] at hrest
  have hend : run Flow.exec b₁ os = b' := by rw [← hrun, run, stepState_of_ok hfirst]
  have htracks := run_tracks hopened hwindow hrest
  have htotal : netBorrowed b (o :: os) = n + netBorrowed b₁ os := by
    rw [netBorrowed_cons, hfirst, stepState_of_ok hfirst]
    rfl
  rw [← htotal, hend, add_comm, ← length_cons (a := o)] at htracks
  obtain ⟨hlower, hupper⟩ := htracks.toRat
  refine ⟨hlower, hupper, fun oraclePrice hcheck hlimit hprice => ?_⟩
  have hle := b'.checkNetBorrows_le hcheck hlimit hprice
  have hle' : ((oraclePrice.max b'.stablePrice).raw : ℚ) * b'.netBorrowsInWindow ≤
      b'.netBorrowLimitPerWindowQuote * 2 ^ 48 := by exact_mod_cast hle
  have hprice' : (0 : ℚ) ≤ (oraclePrice.max b'.stablePrice).toRat := by
    unfold toRat
    have hraw : (0 : ℚ) ≤ (oraclePrice.max b'.stablePrice).raw := by exact_mod_cast hprice
    positivity
  calc (oraclePrice.max b'.stablePrice).toRat * (netBorrowed b (o :: os) / 2 ^ 48)
      ≤ (oraclePrice.max b'.stablePrice).toRat * b'.netBorrowsInWindow := by
        exact mul_le_mul_of_nonneg_left hlower hprice'
    _ = (oraclePrice.max b'.stablePrice).raw * b'.netBorrowsInWindow / 2 ^ 48 := by
        unfold toRat
        ring
    _ ≤ b'.netBorrowLimitPerWindowQuote := by
        rw [div_le_iff₀ (by norm_num)]
        exact hle'

/-- A loan of ten tokens opens a window and four of them are repaid in it. -/
theorem netBorrows_not_underestimated_of_loan :
    let loan := Flow.withdraw { tokenIndex := 1, inUseCount := 0 } (.ofSmall 10) true false 100
    let repayment := Flow.deposit
      { tokenIndex := 1, inUseCount := 0, indexedPosition := .ofSmall (-10) } (.ofSmall 4) false 100
    (netBorrowed (Bank.grown 0) [loan, repayment] / 2 ^ 48 : ℚ) ≤
      (run Flow.exec (Bank.grown 0) [loan, repayment]).netBorrowsInWindow := by
  intro loan repayment
  obtain ⟨⟨n, b₁⟩, hfirst, hvalue⟩ := exists_of_any (x := loan.exec (grown 0))
    (p := fun r => decide (r.1 ≤ I64_MAX * 2 ^ 48) && decide (r.2.lastNetBorrowsWindowStartTs = 100) &&
      decide (r.2.netBorrowLimitWindowSizeTs = 1) &&
      (repayment.exec r.2).toOption.all (fun r => decide (r.1 ≤ I64_MAX * 2 ^ 48)))
    (by decide +kernel)
  simp only [Bool.and_eq_true, decide_eq_true_eq] at hvalue
  obtain ⟨⟨⟨hn, hstart⟩, hsize⟩, hrepayment⟩ := hvalue
  have hsmall : Guarded Flow.exec Flow.Small (grown 0) [loan, repayment] := by
    refine ⟨⟨by decide, fun n' b' h => ?_⟩, ⟨by decide, fun n' b' h => ?_⟩, trivial⟩
    · rw [hfirst] at h
      obtain ⟨rfl, rfl⟩ := ok_inj₂ h
      exact hn
    · rw [stepState_of_ok hfirst] at h
      rw [h] at hrepayment
      exact of_decide_eq_true hrepayment
  refine (netBorrows_not_underestimated hfirst ?_ (fun o ho => ?_) hsmall rfl).1
  · rw [hstart]
    decide
  · obtain rfl := mem_singleton.mp ho
    rw [hstart, hsize]
    decide

/-- With a fee of three times the loan, what is borrowed does not fit the count
    any more. -/
theorem netBorrows_clamped :
    ∃ (b b₁ : Bank) (o : Flow) (n : Int), o.amount.raw < 2 ^ 62 * 2 ^ 48 ∧ o.exec b = .ok (n, b₁) ∧
      b₁.lastNetBorrowsWindowStartTs ≠ b.lastNetBorrowsWindowStartTs ∧
      (b₁.netBorrowsInWindow : ℚ) < netBorrowed b [o] / 2 ^ 48 := by
  obtain ⟨⟨n, b₁⟩, hfirst, hvalue⟩ := exists_of_any
    (x := (Flow.withdraw { tokenIndex := 1, inUseCount := 0 } ⟨(2 ^ 62 - 1) * 2 ^ 48, by decide⟩ true
      false 100).exec { plain 1 with
        loanOriginationFeeRate := .ofSmall 3, loanOriginationFeeRate_nonneg := by decide })
    (p := fun r => decide (r.2.lastNetBorrowsWindowStartTs = 100) &&
      decide (r.2.netBorrowsInWindow * 2 ^ 48 < r.1))
    (by decide +kernel)
  simp only [Bool.and_eq_true, decide_eq_true_eq] at hvalue
  obtain ⟨hstart, hlt⟩ := hvalue
  refine ⟨_, b₁, _, n, by decide +kernel, hfirst, by rw [hstart]; decide, ?_⟩
  rw [netBorrowed_cons, hfirst, lt_div_iff₀ (by norm_num)]
  show (b₁.netBorrowsInWindow : ℚ) * 2 ^ 48 < ((n + 0 : Int) : ℚ)
  rw [add_zero]
  exact_mod_cast hlt

end MangoV4
