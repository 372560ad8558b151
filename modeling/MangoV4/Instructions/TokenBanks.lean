/-
  MangoV4.Instructions.TokenBanks

  The instructions that write the indices of a token's banks:
  `token_update_index_and_rate` and `token_liq_bankruptcy`.

  A token can have several banks.  Interest is computed from the totals of all
  of them and written to each; a bankruptcy that the insurance fund does not
  cover lowers the deposit index instead.

  As everywhere, prices and the amounts that health allows are arguments.  So
  are the results of floating-point computations: the stable price and the
  parameters of the interest curve.
-/

import MangoV4.State.Bank
import MangoV4.Instructions.Perp

namespace MangoV4

open Lib Lib.Exec

/-- The token the insurance fund is kept in. -/
def INSURANCE_TOKEN_INDEX : TokenIndex := 0

/-- `YEAR_I80F48` -/
def YEAR : I80F48 := .ofSmall 31536000

/-- Seconds. -/
def HOUR : Nat := 3600

/-! ## Interest -/

namespace Bank

/-- Current utilization, clamped to 0..1. -/
def instantaneousUtilization (nativeTotalDeposits nativeTotalBorrows : I80F48) : Exec I80F48 :=
  if nativeTotalDeposits = .zero then .ok .zero
  else do return ((← nativeTotalBorrows.div nativeTotalDeposits).max .zero).min I80F48.ONE

/-- A point of the segment from `(utilA, rateA)` to `(utilB, rateB)`. -/
def interpolateRate (utilization utilA rateA utilB rateB : I80F48) : Exec I80F48 := do
  let extraUtil ← utilization.sub utilA
  let slope ← (← rateB.sub rateA).div (← utilB.sub utilA)
  rateA.add (← slope.mul extraUtil)

/-- The current interest rate per year. -/
def computeInterestRate (b : Bank) (utilization : I80F48) : Exec I80F48 := do
  let utilization := (utilization.max .zero).min I80F48.ONE
  let v ← (if utilization ≤ b.util0 then
      interpolateRate utilization .zero b.zeroUtilRate b.util0 b.rate0
    else if utilization ≤ b.util1 then
      interpolateRate utilization b.util0 b.rate0 b.util1 b.rate1
    else interpolateRate utilization b.util1 b.rate1 I80F48.ONE b.maxRate : Exec I80F48)
  -- the scaling is zero before it is introduced
  if b.interestCurveScaling = .zero then return v else v.mul b.interestCurveScaling

/-- Deposit and borrow index after `diffTs` seconds, and the fees of that time. -/
structure IndexUpdate where
  depositIndex : I80F48
  borrowIndex : I80F48
  borrowFees : I80F48

/-- An index after `diffTs` seconds at a yearly rate. -/
def accrue (index rate diffTs : I80F48) : Exec I80F48 := do
  (← (← (← index.mul rate).mul diffTs).div YEAR).add index

def computeIndex (b : Bank) (indexedTotalDeposits indexedTotalBorrows diffTs : I80F48) :
    Exec IndexUpdate := do
  let nativeTotalDeposits ← b.depositIndex.mul indexedTotalDeposits
  let nativeTotalBorrows ← b.borrowIndex.mul indexedTotalBorrows
  let utilization ← instantaneousUtilization nativeTotalDeposits nativeTotalBorrows
  let borrowRate ← b.computeInterestRate utilization
  -- depositors receive what borrowers pay, but for the loan fee
  let depositRate ← borrowRate.mul utilization
  let borrowRateWithFees ← borrowRate.add b.loanFeeRate
  let borrowFees ← (← (← nativeTotalBorrows.mul b.loanFeeRate).mul diffTs).div YEAR
  let borrowIndex ← accrue b.borrowIndex borrowRateWithFees diffTs
  let depositIndex ← accrue b.depositIndex depositRate diffTs
  return { depositIndex, borrowIndex, borrowFees }

/-- Time-weighted average since the rate was last updated. -/
def computeNewAvgUtilization (b : Bank) (indexedTotalDeposits indexedTotalBorrows : I80F48)
    (nowTs : Nat) : Exec I80F48 :=
  if nowTs = 0 then .ok .zero
  else do
    let nativeTotalDeposits ← b.depositIndex.mul indexedTotalDeposits
    let nativeTotalBorrows ← b.borrowIndex.mul indexedTotalBorrows
    let utilization ← instantaneousUtilization nativeTotalDeposits nativeTotalBorrows
    let previousAvgTime : I80F48 ←
      Fixed.ofInt (← subUnsigned b.indexLastUpdated b.bankRateLastUpdated)
    let diffTs : I80F48 ← Fixed.ofInt (← subUnsigned nowTs b.indexLastUpdated)
    let newAvgTime : I80F48 ← Fixed.ofInt (← subUnsigned nowTs b.bankRateLastUpdated)
    if newAvgTime ≤ .zero then return utilization
    else
      let weighted ← (← b.avgUtilization.mul previousAvgTime).add (← utilization.mul diffTs)
      weighted.div newAvgTime

end Bank

/-! ## token_update_index_and_rate -/

/-- Results of floating-point computations: the stable price after the update,
    and the parameters of the interest curve for the next hour. -/
structure RateUpdate where
  stablePrice : I80F48
  rate0 : I80F48
  rate1 : I80F48
  maxRate : I80F48
  interestCurveScaling : I80F48

def sumIndexed (banks : List Bank) (f : Bank → I80F48) : Exec I80F48 :=
  banks.foldlM (fun total b => total.add (f b)) .zero

/-- What is written to each bank. -/
def Bank.setIndex (b : Bank) (update : Bank.IndexUpdate) (avgUtilization stablePrice : I80F48)
    (maintShiftDone : Bool) (nowTs : Nat) : Bank :=
  let b := { b with
    indexLastUpdated := nowTs
    depositIndex := update.depositIndex
    borrowIndex := update.borrowIndex
    avgUtilization
    stablePrice }
  if maintShiftDone then
    { b with
      maintAssetWeight := b.maintWeightShiftAssetTarget
      maintLiabWeight := b.maintWeightShiftLiabTarget
      maintWeightShiftDurationInv := .zero
      maintWeightShiftAssetTarget := .zero
      maintWeightShiftLiabTarget := .zero
      maintWeightShiftStart := 0
      maintWeightShiftEnd := 0 }
  else b

def Bank.setRate (b : Bank) (rates : RateUpdate) (nowTs : Nat) : Bank :=
  { b with
    bankRateLastUpdated := nowTs
    interestCurveScaling := rates.interestCurveScaling
    rate0 := rates.rate0
    rate1 := rates.rate1
    maxRate := rates.maxRate }

/-- The first bank stands for all of them, apart from the totals. -/
def tokenUpdateIndexAndRate (banks : List Bank) (rates : RateUpdate) (nowTs : Nat) :
    Exec (List Bank) := do
  let indexedTotalDeposits ← sumIndexed banks Bank.indexedDeposits
  let indexedTotalBorrows ← sumIndexed banks Bank.indexedBorrows
  match banks with
  | [] => panic .outOfBounds
  | someBank :: rest =>
    -- interest is not applied for more than an hour
    let diffTs ← Fixed.ofInt (min (← subUnsigned nowTs someBank.indexLastUpdated) HOUR)
    let update ← someBank.computeIndex indexedTotalDeposits indexedTotalBorrows diffTs
    let collectedFeesNative ← someBank.collectedFeesNative.add update.borrowFees
    let avgUtilization ←
      someBank.computeNewAvgUtilization indexedTotalDeposits indexedTotalBorrows nowTs
    let maintShiftDone := decide (.zero < someBank.maintWeightShiftDurationInv ∧
      someBank.maintWeightShiftEnd ≤ nowTs)
    let banks := ({ someBank with collectedFeesNative } :: rest).map fun b =>
      b.setIndex update avgUtilization rates.stablePrice maintShiftDone nowTs
    -- the totals in the log
    let _ ← update.depositIndex.mul indexedTotalDeposits
    let _ ← update.borrowIndex.mul indexedTotalBorrows
    if HOUR < (← subUnsigned nowTs someBank.bankRateLastUpdated) then
      return banks.map fun b => b.setRate rates nowTs
    else return banks

/-! ## token_liq_bankruptcy -/

def Bank.setDepositIndex (b : Bank) (depositIndex : I80F48) : Bank := { b with depositIndex }

/-- The banks of every token in the order of its mint info, all accounts, and
    the balance of the insurance vault. -/
structure TokenGroup where
  banks : TokenIndex → List Bank
  accounts : Accounts
  insuranceVault : Nat

namespace TokenGroup

def loadBank (s : TokenGroup) (tokenIndex : TokenIndex) (i : Nat) : Exec Bank :=
  match (s.banks tokenIndex)[i]? with
  | some b => .ok b
  | none => fail .accountNotInitialized

theorem loadBank_eq_ok {s : TokenGroup} {t : TokenIndex} {i : Nat} {b : Bank} :
    s.loadBank t i = .ok b ↔ (s.banks t)[i]? = some b := by
  unfold loadBank
  cases (s.banks t)[i]? with
  | none => simp [fail]
  | some b' => simp

def storeBank (s : TokenGroup) (tokenIndex : TokenIndex) (i : Nat) (b : Bank) : TokenGroup :=
  { s with banks := Function.update s.banks tokenIndex ((s.banks tokenIndex).set i b) }

def storeAccount (s : TokenGroup) (key : Pubkey) (account : MangoAccount) : TokenGroup :=
  { s with accounts := s.accounts.store key account }

end TokenGroup

/-- The accounts of a bankruptcy: `liabBank` and `quoteBank` are the banks that
    health uses for the two tokens.  `liabHealthBalance` is the liqee's balance
    in health terms. -/
structure Bankruptcy where
  liqor : Pubkey
  liqee : Pubkey
  liabTokenIndex : TokenIndex
  liabBank : Nat
  quoteBank : Nat
  maxLiabTransfer : I80F48
  liabHealthBalance : I80F48
  liabOraclePrice : I80F48
  quoteOraclePrice : I80F48
  elligibleForGroupInsuranceFund : Bool
  nowTs : Nat

/-- After the insurance fund has been used. -/
structure Covered where
  group : TokenGroup
  liqeeLiab : TokenPosition
  liqeeLiabActive : Bool
  liabDepositIndex : I80F48
  remainingLiabLoss : I80F48
  insuranceFundExhausted : Bool

namespace Bankruptcy

variable (x : Bankruptcy)

/-- The liqor is credited in the insurance token and takes over the liability. -/
def payLiqor (s : TokenGroup) (insuranceTransfer liabTransfer : I80F48) : Exec TokenGroup := do
  let liqor ← s.accounts.load x.liqor
  let quoteBank ← s.loadBank INSURANCE_TOKEN_INDEX x.quoteBank
  let (liqorQuote, liqor) ← liqor.ensureTokenPosition INSURANCE_TOKEN_INDEX
  let (quoteActive, quoteBank, liqorQuote) ←
    quoteBank.deposit liqorQuote insuranceTransfer x.nowTs
  let s := s.storeBank INSURANCE_TOKEN_INDEX x.quoteBank quoteBank
  let liabBank ← s.loadBank x.liabTokenIndex x.liabBank
  let (liqorLiab, liqor) ←
    (liqor.setTokenPosition liqorQuote).ensureTokenPosition x.liabTokenIndex
  let (result, liabBank, liqorLiab) ← liabBank.withdrawWithFee liqorLiab liabTransfer x.nowTs
  let liqor ← (liqor.setTokenPosition liqorLiab).deactivateIfInactive INSURANCE_TOKEN_INDEX
    quoteActive
  let liqor ← liqor.deactivateIfInactive x.liabTokenIndex result.positionIsActive
  return (s.storeBank x.liabTokenIndex x.liabBank liabBank).storeAccount x.liqor liqor

/-- Liab tokens are paid for in the insurance token, with the liquidation fee. -/
def liabToQuoteWithFee (liabBank : Bank) : Exec I80F48 :=
  if x.liabTokenIndex = INSURANCE_TOKEN_INDEX then .ok I80F48.ONE
  else do
    (← x.liabOraclePrice.mul (← I80F48.ONE.add liabBank.liquidationFee)).div x.quoteOraclePrice

/-- What the insurance fund can pay for the token. -/
def insuranceVaultAmount (s : TokenGroup) : Nat :=
  if x.elligibleForGroupInsuranceFund then s.insuranceVault else 0

/-- The liqee is credited liab tokens for `insuranceTransfer` tokens of the
    insurance fund, which the liqor gets. -/
def useInsuranceFund (c : Covered) (liabBank : Bank) (initialLiabNative liabToQuoteWithFee : I80F48)
    (insuranceTransfer : Nat) : Exec Covered := do
  let insuranceTransferFixed ← Fixed.ofInt insuranceTransfer
  let liabTransfer ← insuranceTransferFixed.div liabToQuoteWithFee
  if insuranceTransfer = 0 then return c
  else
    -- dusting prevents that the position is brought just above zero
    let (liqeeLiabActive, liabBank, liqeeLiab) ←
      liabBank.depositWithDusting c.liqeeLiab liabTransfer x.nowTs
    let remainingLiabLoss ←
      c.remainingLiabLoss.sub (← (← liqeeLiab.native liabBank).sub initialLiabNative)
    let paid := c.group.storeBank x.liabTokenIndex x.liabBank liabBank
    let paid := { paid with insuranceVault := paid.insuranceVault - insuranceTransfer }
    let group ← (if x.liabTokenIndex = INSURANCE_TOKEN_INDEX then do
        require (decide (insuranceTransferFixed = liabTransfer)) .requireEqViolated
        return paid
      else x.payLiqor paid insuranceTransferFixed liabTransfer : Exec TokenGroup)
    return { c with group, liqeeLiab, liqeeLiabActive, remainingLiabLoss }

/-- The insurance fund pays as much of the loss as it can. -/
def coverLoss (s : TokenGroup) : Exec Covered := do
  require (decide (x.liqor ≠ x.liqee)) .requireKeysNeqViolated
  let liqee ← s.accounts.load x.liqee
  let liabBank ← s.loadBank x.liabTokenIndex x.liabBank
  let liqeeLiab ← liqee.tokenPositionMut x.liabTokenIndex
  let initialLiabNative ← liqeeLiab.native liabBank
  require (decide (initialLiabNative < .zero)) .requireGtViolated
  require (decide (x.liabHealthBalance < .zero)) .requireGtViolated
  let remainingLiabLoss := (← initialLiabNative.neg).min (← x.liabHealthBalance.neg)
  let liabToQuoteWithFee ← x.liabToQuoteWithFee liabBank
  let liabTransferUnrounded := remainingLiabLoss.min x.maxLiabTransfer
  let insuranceTransfer :=
    min (← (← (← liabTransferUnrounded.mul liabToQuoteWithFee).ceil).toU64)
      (x.insuranceVaultAmount s)
  x.useInsuranceFund {
    group := s
    liqeeLiab
    liqeeLiabActive := true
    liabDepositIndex := liabBank.depositIndex
    remainingLiabLoss
    insuranceFundExhausted := decide (insuranceTransfer = x.insuranceVaultAmount s) }
    liabBank initialLiabNative liabToQuoteWithFee insuranceTransfer

/-- The new index is written to one bank after the other, and the liqee is
    credited on each bank where borrows can be offset.  The loop ends when the
    whole amount has been credited. -/
def socializeLoop (newDepositIndex : I80F48) (nowTs : Nat) :
    List Bank → I80F48 → TokenPosition → Bool → Exec (List Bank × TokenPosition × Bool)
  | [], _, p, active => .ok ([], p, active)
  | b :: banks, amountToCredit, p, active => do
    let amountForBank := amountToCredit.min (← b.nativeBorrows)
    if .zero < amountForBank then
      let (active, b, p) ←
        (b.setDepositIndex newDepositIndex).depositWithDusting p amountForBank nowTs
      let amountToCredit ← amountToCredit.sub amountForBank
      if amountToCredit ≤ .zero then return (b :: banks, p, active)
      else
        let (banks, p, active) ← socializeLoop newDepositIndex nowTs banks amountToCredit p active
        return (b :: banks, p, active)
    else
      let (banks, p, active) ← socializeLoop newDepositIndex nowTs banks amountToCredit p active
      return (b.setDepositIndex newDepositIndex :: banks, p, active)

/-- Solves `total * (index - newIndex) = loss`. -/
def newDepositIndex (c : Covered) : Exec I80F48 := do
  let indexedTotalDeposits ←
    sumIndexed (c.group.banks x.liabTokenIndex) Bank.indexedDeposits
  c.liabDepositIndex.sub (← c.remainingLiabLoss.div indexedTotalDeposits)

/-- The loss is shared by all depositors if no one could use the insurance
    fund for it any more. -/
def socializeLoss (c : Covered) : Exec (TokenGroup × TokenPosition × Bool) :=
  if c.insuranceFundExhausted ∧ .zero < c.remainingLiabLoss then do
    let newDepositIndex ← x.newDepositIndex c
    let (banks, liqeeLiab, active) ← socializeLoop newDepositIndex x.nowTs
      (c.group.banks x.liabTokenIndex) c.remainingLiabLoss c.liqeeLiab c.liqeeLiabActive
    require (decide (liqeeLiab.indexedPosition = .zero)) .requireEqViolated
    return ({ c.group with banks := Function.update c.group.banks x.liabTokenIndex banks },
      liqeeLiab, active)
  else .ok (c.group, c.liqeeLiab, c.liqeeLiabActive)

def tokenLiqBankruptcy (s : TokenGroup) : Exec TokenGroup := do
  let c ← x.coverLoss s
  let (s, liqeeLiab, active) ← x.socializeLoss c
  let liqee ← s.accounts.load x.liqee
  let liqee ← (liqee.setTokenPosition liqeeLiab).deactivateIfInactive x.liabTokenIndex active
  return s.storeAccount x.liqee liqee

end Bankruptcy

/-! ## Runs -/

namespace TokenGroup

inductive Op where
  | tokenUpdateIndexAndRate (tokenIndex : TokenIndex) (rates : RateUpdate) (nowTs : Nat)
  | tokenLiqBankruptcy (x : Bankruptcy)

def exec : Op → TokenGroup → Exec (Unit × TokenGroup)
  | .tokenUpdateIndexAndRate tokenIndex rates nowTs, s => do
    let banks ← MangoV4.tokenUpdateIndexAndRate (s.banks tokenIndex) rates nowTs
    return ((), { s with banks := Function.update s.banks tokenIndex banks })
  | .tokenLiqBankruptcy x, s => do return ((), ← x.tokenLiqBankruptcy s)

end TokenGroup

end MangoV4
