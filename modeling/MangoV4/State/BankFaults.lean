/-
  MangoV4.State.BankFaults

  How the functions of banks fail.  They are made of arithmetic, which overflows
  or divides by zero, and of checks that return errors.
-/

import MangoV4.State.Bank
import MangoV4.Lib.Avoids

namespace MangoV4

open Lib Lib.Exec

/-- The faults `F` include the panics of arithmetic, and the errors of all
    checks but the one for reduce-only mode. -/
structure BankFaults (F : Fault MangoError → Prop) : Prop where
  overflow : F (.panic .overflow)
  divideByZero : F (.panic .divideByZero)
  error : ∀ e, e ≠ .tokenInReduceOnlyMode → F (.error e)

@[simp] theorem BankFaults.avoiding {q : Panic} (hq : q.arithmetic = false) :
    BankFaults (¬ · = .panic q) :=
  ⟨by simp [hq], by simp [hq], by simp⟩

section Faults

variable {F : Fault MangoError → Prop} (hF : BankFaults F)

include hF

@[simp] theorem TokenPosition.faults_native (p : TokenPosition) (bank : Bank) :
    Faults F (p.native bank) := by
  simp [native, hF.overflow]

namespace Bank

variable (b : Bank) (p : TokenPosition) (amount : I80F48) (nowTs : Nat)

@[simp] theorem faults_updateNetBorrows : Faults F (b.updateNetBorrows amount nowTs) := by
  simp [updateNetBorrows, hF.overflow, hF.divideByZero]

@[simp] theorem faults_checkNetBorrows (price : I80F48) : Faults F (b.checkNetBorrows price) := by
  simp [checkNetBorrows, remainingNetBorrowsQuote, hF.overflow, hF.error]

@[simp] theorem faults_checkDepositAndOoLimit : Faults F b.checkDepositAndOoLimit := by
  simp [checkDepositAndOoLimit, nativeDeposits, hF.overflow, hF.error]

@[simp] theorem faults_addDeposit : Faults F (b.addDeposit p amount) := by
  simp [addDeposit, divRoundingUp, hF.overflow, hF.divideByZero]

@[simp] theorem faults_depositInternal (allowDusting : Bool) :
    Faults F (b.depositInternal p amount allowDusting nowTs) := by
  simp [depositInternal, divRoundingUp, hF, hF.overflow, hF.divideByZero, hF.error]

@[simp] theorem faults_updateCumulativeInterest (opening : I80F48) :
    Faults F (b.updateCumulativeInterest p opening) := by
  simp [updateCumulativeInterest, hF.overflow]

@[simp] theorem faults_depositInternalWrapper (allowDusting : Bool) :
    Faults F (b.depositInternalWrapper p amount allowDusting nowTs) := by
  simp [depositInternalWrapper, hF]

@[simp] theorem faults_deposit : Faults F (b.deposit p amount nowTs) :=
  faults_depositInternalWrapper hF _ _ _ _ _

@[simp] theorem faults_depositWithDusting : Faults F (b.depositWithDusting p amount nowTs) := by
  simp [depositWithDusting, hF]

@[simp] theorem faults_addBorrow (withFee : Bool) :
    Faults F (b.addBorrow p amount withFee nowTs) := by
  simp [addBorrow, hF, hF.overflow, hF.divideByZero]

@[simp] theorem faults_withdrawInternal (withFee allowDusting : Bool) :
    Faults F (b.withdrawInternal p amount withFee allowDusting nowTs) := by
  simp [withdrawInternal, hF, hF.overflow, hF.divideByZero, hF.error]

@[simp] theorem faults_withdrawInternalWrapper (withFee allowDusting : Bool) :
    Faults F (b.withdrawInternalWrapper p amount withFee allowDusting nowTs) := by
  simp [withdrawInternalWrapper, hF]

@[simp] theorem faults_withdrawWithoutFee : Faults F (b.withdrawWithoutFee p amount nowTs) := by
  simp [withdrawWithoutFee, hF]

@[simp] theorem faults_withdrawWithoutFeeWithDusting :
    Faults F (b.withdrawWithoutFeeWithDusting p amount nowTs) := by
  simp [withdrawWithoutFeeWithDusting, hF]

@[simp] theorem faults_withdrawWithFee : Faults F (b.withdrawWithFee p amount nowTs) :=
  faults_withdrawInternalWrapper hF _ _ _ _ _ _

@[simp] theorem faults_dustIfPossible : Faults F (b.dustIfPossible p nowTs) := by
  simp [dustIfPossible, hF]

theorem faults_withdrawFromSource (h : amount ≠ .zero → ∀ r, b.withdrawWithFee p amount nowTs = .ok r →
      (decide (.zero ≤ r.2.2.indexedPosition) || !r.2.1.areBorrowsReduceOnly) = false →
      F (.error .tokenInReduceOnlyMode)) : Faults F (b.withdrawFromSource p amount nowTs) :=
  .ite (fun _ => .ok _) fun hne => .bind_of (faults_withdrawWithFee hF _ _ _ _) fun r hr =>
    .bind (Faults.require_iff.mpr (h hne r hr)) fun _ => .pure _

theorem faults_depositToTarget (h : amount ≠ .zero → ∀ r, b.deposit p amount nowTs = .ok r →
      (decide (r.2.2.indexedPosition ≤ .zero) || !r.2.1.areDepositsReduceOnly) = false →
      F (.error .tokenInReduceOnlyMode)) : Faults F (b.depositToTarget p amount nowTs) :=
  .ite (fun _ => .ok _) fun hne => .bind_of (faults_deposit hF _ _ _ _) fun r hr =>
    .bind (Faults.require_iff.mpr (h hne r hr)) fun _ => .pure _

theorem faults_checkedTransferWithFee {source target : TokenPosition}
    {sourceAmount targetAmount price : I80F48}
    (hsource : Faults F (b.withdrawFromSource source sourceAmount nowTs))
    (htarget : ∀ r, b.withdrawFromSource source sourceAmount nowTs = .ok r →
      Faults F (r.2.1.depositToTarget target targetAmount nowTs)) :
    Faults F (b.checkedTransferWithFee source sourceAmount target targetAmount nowTs price) :=
  .bind_of hsource fun r hr => .bind (htarget r hr) fun _ => by simp [hF, hF.overflow]

end Bank

end Faults

end MangoV4
