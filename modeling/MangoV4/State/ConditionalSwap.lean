/-
  MangoV4.State.ConditionalSwap

  When a conditional swap can be started and triggered, and how much of it is
  left (`token_conditional_swap.rs`).

  The prices of a swap are floats.  Whether the oracle price is in the range of
  the swap is an argument, and so are the prices that follow from it.
-/

import MangoV4.State.Bank

namespace MangoV4

open Lib Lib.Exec

/-- `clamp_to_u64` -/
def clampToU64 (x : I80F48) : Nat := (min (U64_MAX : Int) x.toInt).toNat

/-- What the caller who starts a swap gets, in native quote tokens. -/
def TCS_START_INCENTIVE : Nat := 1000

namespace TokenConditionalSwap

def passedStart (swap : TokenConditionalSwap) (nowTs : Nat) : Bool :=
  decide (0 < swap.startTimestamp ∧ swap.startTimestamp ≤ nowTs)

/-- Does this type support an explicit start? -/
def isStartableType (swap : TokenConditionalSwap) : Bool := decide (swap.tcsType = .premiumAuction)

def remainingBuy (swap : TokenConditionalSwap) : Exec Nat := subAmount swap.maxBuy swap.bought

def remainingSell (swap : TokenConditionalSwap) : Exec Nat := subAmount swap.maxSell swap.sold

def startTimestampOrNow (swap : TokenConditionalSwap) (nowTs : Nat) : Nat :=
  if 0 < swap.startTimestamp then swap.startTimestamp else nowTs

/-- What `premium_price` asserts; the price itself is computed in floats. -/
def assertPremiumPrice (swap : TokenConditionalSwap) (nowTs : Nat) : Exec Unit :=
  match swap.tcsType with
  | .fixedPremium => .ok ()
  -- starts dynamically when it can be triggered
  | .premiumAuction => assert (decide (swap.startTimestampOrNow nowTs ≤ nowTs))
  -- the start time is fixed
  | .linearAuction => assert (swap.passedStart nowTs)

def takerFee (swap : TokenConditionalSwap) (baseSellAmount : I80F48) : Exec Nat := do
  (← (← baseSellAmount.mul swap.takerFeeRate).floor : I80F48).toU64

/-- Do the current conditions and the type of the swap allow starting? -/
def checkStartable (swap : TokenConditionalSwap) (priceInRange : Bool) (nowTs : Nat) :
    Exec Unit := do
  require (!swap.isExpired nowTs) .tokenConditionalSwapExpired
  require (decide (swap.startTimestamp = 0)) .tokenConditionalSwapAlreadyStarted
  require swap.isStartableType .tokenConditionalSwapTypeNotStartable
  require priceInRange .tokenConditionalSwapPriceNotInRange

def checkTriggerable (swap : TokenConditionalSwap) (priceInRange : Bool) (nowTs : Nat) :
    Exec Unit := do
  require (!swap.isExpired nowTs) .tokenConditionalSwapExpired
  match swap.tcsType with
  | .fixedPremium => require priceInRange .tokenConditionalSwapPriceNotInRange
  -- once started, whatever the oracle price is
  | .premiumAuction => require (swap.passedStart nowTs) .tokenConditionalSwapNotStarted
  | .linearAuction => require (swap.passedStart nowTs) .tokenConditionalSwapNotStarted

/-- The swap may leave a deposit of the token it buys. -/
def mayDeposit (swap : TokenConditionalSwap) (buyBank : Bank) : Bool :=
  swap.allowCreatingDeposits && !buyBank.areDepositsReduceOnly

/-- The swap may leave a borrow of the token it sells. -/
def mayBorrow (swap : TokenConditionalSwap) (sellBank : Bank) : Bool :=
  swap.allowCreatingBorrows && !sellBank.areBorrowsReduceOnly

/-- The remaining amount to buy, with the buy position and the mode of its bank. -/
def maxBuyForPosition (swap : TokenConditionalSwap) (buyPosition : I80F48) (buyBank : Bank) :
    Exec Nat := do
  let remaining ← swap.remainingBuy
  -- rounded up, as reaching 0..1 deposited native tokens is ok
  let allowed ← (if swap.mayDeposit buyBank then .ok U64_MAX
    else do return clampToU64 (← (← buyPosition.neg).ceil) : Exec Nat)
  return min remaining allowed

/-- The remaining amount to sell, with the sell position and the mode of its bank. -/
def maxSellForPosition (swap : TokenConditionalSwap) (sellPosition : I80F48) (sellBank : Bank) :
    Exec Nat := do
  let remaining ← swap.remainingSell
  -- rounded down, to never go below 0
  let allowed ← (if swap.mayBorrow sellBank then .ok U64_MAX
    else do return clampToU64 (← sellPosition.floor) : Exec Nat)
  return min remaining allowed

end TokenConditionalSwap

end MangoV4
