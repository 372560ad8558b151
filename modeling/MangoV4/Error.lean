/-
  MangoV4.Error

  The error codes the modelled instructions return (`error.rs`), together
  with the codes of the framework's `require_*!` macros.
-/

import MangoV4.Lib.Exec

namespace MangoV4

/-- Error codes. -/
inductive MangoError where
  | someError
  | noFreeTokenPositionIndex
  | noFreePerpPositionIndex
  | perpPositionDoesNotExist
  | tokenPositionDoesNotExist
  | hasOpenPerpTakerFills
  | perpOrderIdNotFound
  | wouldSelfTrade
  | profitabilityMismatch
  | cannotSettleWithSelf
  | healthMustBePositive
  | settlementAmountMustBePositive
  | maxSettleAmountMustBeGreaterThanZero
  | marketInReduceOnlyMode
  | bankNetBorrowsLimitReached
  | bankDepositLimit
  | tokenInReduceOnlyMode
  | noFreeSerum3OpenOrdersIndex
  | serum3OpenOrdersExistAlready
  | tokenConditionalSwapPriceNotInRange
  | tokenConditionalSwapExpired
  | tokenConditionalSwapNotStarted
  | tokenConditionalSwapAlreadyStarted
  | tokenConditionalSwapNotSet
  | tokenConditionalSwapMinBuyTokenNotReached
  | tokenConditionalSwapCantPayIncentive
  | tokenConditionalSwapTakerPriceTooLow
  | tokenConditionalSwapIndexIdMismatch
  | tokenConditionalSwapTypeNotStartable
  | bankBorrowLimitReached
  | invalidBank
  | oracleConfidence
  | oracleStale
  -- framework codes
  | accountNotInitialized
  | accountBorrowFailed
  | constraintRaw
  | requireViolated
  | requireEqViolated
  | requireKeysEqViolated
  | requireKeysNeqViolated
  | requireNeqViolated
  | requireGtViolated
  | requireGteViolated
deriving DecidableEq, Repr

abbrev Exec (α : Type) := Lib.Exec MangoError α

end MangoV4
