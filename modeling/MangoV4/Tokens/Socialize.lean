/-
  MangoV4.Tokens.Socialize

  What depositors are left with when a loss is socialized.

  `token_liq_bankruptcy` takes the remaining loss out of the deposit index.  The
  index stays above zero as long as the deposits are worth the loss.  The
  utilization checks see to that when tokens are borrowed or withdrawn, but from
  then on the loan fee is only added to the borrows.
-/

import MangoV4.Tokens.InUse
import MangoV4.Tokens.Verify
import MangoV4.Instructions.Serum3
import MangoV4.Lib.FixedRat

namespace MangoV4

open Lib Lib.Exec Fixed

namespace Bankruptcy

variable {x : Bankruptcy} {c : Covered} {total : I80F48}

theorem newDepositIndex_of_total
    (htotal : sumIndexed (c.group.banks x.liabTokenIndex) Bank.indexedDeposits = .ok total) :
    x.newDepositIndex c =
      c.remainingLiabLoss.div total >>= fun change => c.liabDepositIndex.sub change := by
  unfold newDepositIndex
  rw [htotal]
  rfl

end Bankruptcy

/-! ## A bank that is lent out -/

/-- Loans cost half a percent per year, and nothing when they are taken. -/
def feeBank : Bank where
  __ := Bank.curved 3600
  loanFeeRate := ⟨2 ^ 48 / 200, by decide⟩
  loanOriginationFeeRate := .zero
  loanOriginationFeeRate_nonneg := by decide

/-- Three accounts without positions, and the empty bank. -/
def unlent : Group where
  banks := fun t => if t = 1 then [feeBank] else []
  accounts := fun key => if key < 3 then some Group.blankAccount else none
  insuranceVault := 0
  perpMarkets := fun _ => none
  serum3Markets := fun _ => none

/-- Account 1 deposits, and account 2 borrows the given part of a million. -/
def lent (borrowed : Nat) : Group :=
  run Group.exec unlent
    [.tokenDeposit 1 1 0 1000000 false 10, .tokenWithdraw 2 1 0 borrowed true 10]

/-- An hour later. -/
def matured (borrowed : Nat) : TokenGroup :=
  run TokenGroup.exec (lent borrowed).toTokenGroup
    [.tokenUpdateIndexAndRate 1 ⟨I80F48.ONE, I80F48.ONE, I80F48.ONE, I80F48.ONE, I80F48.ONE⟩ 3610]

/-- Account 2 has nothing but the debt, and the insurance fund is empty. -/
def borrowerBankruptcy : Bankruptcy where
  liqor := 0
  liqee := 2
  liabTokenIndex := 1
  liabBank := 0
  quoteBank := 0
  maxLiabTransfer := .ofSmall 2000000
  liabHealthBalance := ⟨-2000000 * 2 ^ 48, by decide⟩
  liabOraclePrice := I80F48.ONE
  quoteOraclePrice := I80F48.ONE
  elligibleForGroupInsuranceFund := true
  nowTs := 3610

end MangoV4
