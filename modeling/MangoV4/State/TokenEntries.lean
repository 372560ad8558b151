/-
  MangoV4.State.TokenEntries

  The entries of an account that need token positions, other than perp
  positions: open orders on a spot market (`mango_account_components.rs`) and
  conditional swaps (`token_conditional_swap.rs`).

  The prices of a conditional swap are floats and decide at which price it can
  be triggered, which is an argument of the instructions.
-/

import MangoV4.State.PerpMarket

namespace MangoV4

/-- `u16` -/
abbrev Serum3MarketIndex := Nat

/-- Index of no token: token positions with it are free. -/
def FREE_TOKEN_INDEX : TokenIndex := 2 ^ 16 - 1

/-- Index of no spot market: entries with it are free. -/
def FREE_SERUM3_INDEX : Serum3MarketIndex := 2 ^ 16 - 1

structure Serum3Orders where
  /-- The open orders account, by the market it was opened on. -/
  openOrders : Option Serum3MarketIndex
  marketIndex : Serum3MarketIndex
  baseTokenIndex : TokenIndex
  quoteTokenIndex : TokenIndex
  /-- Borrows that flowed into the open orders account and have not been charged
      the loan origination fee, in base and in quote tokens. -/
  baseBorrowsWithoutFee : Nat := 0
  quoteBorrowsWithoutFee : Nat := 0
  /-- Overestimates of the tokens that might flow out of the open orders account. -/
  potentialBaseTokens : Nat := 0
  potentialQuoteTokens : Nat := 0
deriving DecidableEq

namespace Serum3Orders

def default : Serum3Orders where
  openOrders := none
  marketIndex := FREE_SERUM3_INDEX
  baseTokenIndex := FREE_TOKEN_INDEX
  quoteTokenIndex := FREE_TOKEN_INDEX

def isActive (o : Serum3Orders) : Bool := decide (o.marketIndex ≠ FREE_SERUM3_INDEX)

def isActiveForMarket (marketIndex : Serum3MarketIndex) (o : Serum3Orders) : Bool :=
  decide (o.marketIndex = marketIndex)

end Serum3Orders

inductive TokenConditionalSwapType where
  | fixedPremium
  | premiumAuction
  | linearAuction
deriving DecidableEq

/-- What a conditional swap is created with. -/
structure SwapTerms where
  /-- maximum amounts of native tokens to buy and sell -/
  maxBuy : Nat := 0
  maxSell : Nat := 0
  /-- the part of the amount sold that the taker does not receive -/
  takerFeeRate : I80F48 := .zero
  /-- may token purchases create deposits? -/
  allowCreatingDeposits : Bool := false
  /-- may token selling create borrows? -/
  allowCreatingBorrows : Bool := false
  tcsType : TokenConditionalSwapType := .fixedPremium
  /-- zero means that it is not started -/
  startTimestamp : Nat := 0
deriving DecidableEq

structure TokenConditionalSwap extends SwapTerms where
  id : Nat
  expiryTimestamp : Nat
  buyTokenIndex : TokenIndex
  sellTokenIndex : TokenIndex
  isConfigured : Bool
  /-- how many native tokens were already bought and sold -/
  bought : Nat := 0
  sold : Nat := 0
deriving DecidableEq

namespace TokenConditionalSwap

def default : TokenConditionalSwap where
  id := 0
  expiryTimestamp := U64_MAX
  buyTokenIndex := FREE_TOKEN_INDEX
  sellTokenIndex := FREE_TOKEN_INDEX
  isConfigured := false

def isExpired (swap : TokenConditionalSwap) (nowTs : Nat) : Bool :=
  decide (swap.expiryTimestamp ≤ nowTs)

end TokenConditionalSwap

end MangoV4
