/-
  MangoV4.Instructions.ConditionalSwap

  Starting and triggering conditional swaps (`token_conditional_swap_start.rs`,
  `token_conditional_swap_trigger.rs`), with the amounts that are traded.

  `Instructions.Tokens` has the instructions with the amounts as arguments;
  here they are computed from the swap, the limits of both sides and the
  prices, and recorded.  Prices are computed in floats, and arguments; so is
  what depends on health.
-/

import MangoV4.Instructions.Tokens
import MangoV4.State.ConditionalSwap

namespace MangoV4

open Lib Lib.Exec

/-! ## Amounts -/

/-- The amount to buy for the maximum to sell. -/
def buyForSell (maxBuy maxSell : Nat) (sellPerBuyPrice : I80F48) : Exec Nat :=
  if I80F48.ONE < sellPerBuyPrice then do
    -- flooring the sold amount is ok: with a maximum of 1 and a price of 1.9, 1 is sold for 1
    let sell ← (← (← Fixed.ofInt maxSell : I80F48).add I80F48.ONE).sub I80F48.DELTA
    (← (← sell.div sellPerBuyPrice).floor : I80F48).toU64
  else do
    -- whole tokens only: with maxima of 7 and 4 and a price of 0.6, 4 are sold for 7
    let sellForMax ← (← (← Fixed.ofInt maxBuy : I80F48).mul sellPerBuyPrice).floor
    let sell := sellForMax.min (← Fixed.ofInt maxSell)
    (← (← sell.div sellPerBuyPrice).ceil : I80F48).toU64

/-- The largest trade at the price that exceeds neither maximum; both amounts
    are positive or none is. -/
def tradeAmountInner (maxBuy maxSell : Nat) (sellPerBuyPrice : I80F48) : Exec (Nat × Nat) := do
  let buyAmount := min maxBuy (← buyForSell maxBuy maxSell sellPerBuyPrice)
  let sellForBuy ← (← (← (← Fixed.ofInt buyAmount : I80F48).mul sellPerBuyPrice).floor : I80F48).toU64
  let sellAmount := min maxSell sellForBuy
  -- never exchange something for nothing
  assert (!(xor (decide (0 < buyAmount)) (decide (0 < sellAmount))))
  return (buyAmount, sellAmount)

/-- The amounts to buy and to sell, from what is requested, what remains of the
    swap, what it may do to the positions of the liqee, and what the modes of
    the banks allow the liqor. -/
def TokenConditionalSwap.tradeAmount (swap : TokenConditionalSwap) (sellPerBuyPrice : I80F48)
    (maxBuyTokenToLiqee maxSellTokenToLiqor : Nat)
    (liqeeBuyBalance liqeeSellBalance liqorBuyBalance liqorSellBalance : I80F48)
    (buyBank sellBank : Bank) : Exec (Nat × Nat) := do
  let maxBuyForPosition ← swap.maxBuyForPosition liqeeBuyBalance buyBank
  let maxBuyForLiqor ← (if buyBank.areBorrowsReduceOnly then do
      return clampToU64 (← liqorBuyBalance.floor)
    else .ok U64_MAX : Exec Nat)
  let maxSellForPosition ← swap.maxSellForPosition liqeeSellBalance sellBank
  let maxSellForLiqor ← (if sellBank.areDepositsReduceOnly then do
      return clampToU64 (← (← liqorSellBalance.neg).ceil)
    else .ok U64_MAX : Exec Nat)
  tradeAmountInner (min (min maxBuyTokenToLiqee maxBuyForPosition) maxBuyForLiqor)
    (min (min maxSellTokenToLiqor maxSellForPosition) maxSellForLiqor) sellPerBuyPrice

/-- Counts an amount that was traded. -/
def TokenConditionalSwap.record (swap : TokenConditionalSwap) (buyAmount sellAmount nowTs : Nat) :
    Exec TokenConditionalSwap := do
  let bought ← checkU64 (swap.bought + buyAmount)
  let sold ← checkU64 (swap.sold + sellAmount)
  assert (decide (bought ≤ swap.maxBuy))
  assert (decide (sold ≤ swap.maxSell))
  return { swap with
    bought
    sold
    startTimestamp := if swap.passedStart nowTs then swap.startTimestamp else nowTs }

namespace Group

/-! ## token_conditional_swap_trigger -/

/-- The arguments of a trigger, and what is computed outside of this model. -/
structure Trigger where
  liqor : Pubkey
  liqee : Pubkey
  index : Nat
  id : Nat
  buyBank : Nat
  sellBank : Nat
  maxBuyTokenToLiqee : Nat
  maxSellTokenToLiqor : Nat
  minBuyToken : Nat
  buyTokenPrice : I80F48
  sellTokenPrice : I80F48
  /-- the price of the oracles is in the range of the swap -/
  priceInRange : Bool
  /-- the price with the premium, and that with the maker fee on top -/
  premiumPrice : I80F48
  makerPrice : I80F48
  /-- the taker gets the price it asked for -/
  takerPriceReached : Bool
  /-- the smallest trade: sell tokens for one buy token if the maker price is
      above one, otherwise buy tokens for one sell token -/
  makerPriceAboveOne : Bool
  smallestTrade : Nat
  /-- the trade lowered the liqee's health, and not much of it is left -/
  liqeeHealthIsLow : Bool
  nowTs : Nat

namespace Trigger

/-- What is taken from the liqee, and what of it the liqor gets: the difference
    are the fees of both. -/
def sellAmounts (x : Trigger) (swap : TokenConditionalSwap)
    (buyTokenAmount sellTokenAmountWithMakerFee : Nat) : Exec (Nat × Nat) := do
  let sellTokenAmount ← (← (← Fixed.ofInt buyTokenAmount : I80F48).mul x.premiumPrice).floor
  let sellTokenAmountU64 ← sellTokenAmount.toU64
  let makerFee ← subAmount sellTokenAmountWithMakerFee sellTokenAmountU64
  let takerFee ← swap.takerFee sellTokenAmount
  let sellTokenAmountToLiqor ← subAmount sellTokenAmountU64 takerFee
  let _ ← checkU64 (makerFee + takerFee)
  return (sellTokenAmountWithMakerFee, sellTokenAmountToLiqor)

/-- The trigger with its amounts. -/
def traded (x : Trigger) (buyTokenAmount sellTokenAmountFromLiqee sellTokenAmountToLiqor : Nat)
    (closed : Bool) : SwapTrigger where
  liqor := x.liqor
  liqee := x.liqee
  index := x.index
  id := x.id
  buyBank := x.buyBank
  sellBank := x.sellBank
  buyTokenPrice := x.buyTokenPrice
  sellTokenPrice := x.sellTokenPrice
  buyTokenAmount := buyTokenAmount
  sellTokenAmountFromLiqee := sellTokenAmountFromLiqee
  sellTokenAmountToLiqor := sellTokenAmountToLiqor
  minBuyToken := x.minBuyToken
  closed := closed
  nowTs := x.nowTs

/-- No more can be traded: the maximum or a constraint on the positions is
    reached, or what is left is close to the smallest trade. -/
def isDone (x : Trigger) (swap : TokenConditionalSwap) (liqee : MangoAccount)
    (buyBank sellBank : Bank) : Exec Bool := do
  let liqeeBuy ← (← liqee.tokenPositionMut swap.buyTokenIndex).native buyBank
  let liqeeSell ← (← liqee.tokenPositionMut swap.sellTokenIndex).native sellBank
  -- other liqors might not have restrictions from the modes of the banks
  let (futureBuy, futureSell) ← swap.tradeAmount x.makerPrice U64_MAX U64_MAX liqeeBuy liqeeSell
    I80F48.MAX I80F48.MIN buyBank sellBank
  let twice ← checkU64 (2 * x.smallestTrade)
  let maxTradeReached := if x.makerPriceAboveOne then decide (futureSell < twice)
    else decide (futureBuy < twice)
  return decide (futureBuy = 0) || decide (futureSell = 0) || x.liqeeHealthIsLow || maxTradeReached

/-- The amounts of a trigger, from the balances of both accounts. -/
def amounts (x : Trigger) (swap : TokenConditionalSwap) (liqor liqee : MangoAccount)
    (buyBank sellBank : Bank) : Exec (Nat × Nat × Nat) := do
  let liqeeBuy ← (← liqee.tokenPositionMut swap.buyTokenIndex).native buyBank
  let liqeeSell ← (← liqee.tokenPositionMut swap.sellTokenIndex).native sellBank
  let (liqorBuy, liqor) ← liqor.ensureTokenPosition swap.buyTokenIndex
  let (liqorSell, _) ← liqor.ensureTokenPosition swap.sellTokenIndex
  let (buyTokenAmount, sellTokenAmountWithMakerFee) ← swap.tradeAmount x.makerPrice
    x.maxBuyTokenToLiqee x.maxSellTokenToLiqor liqeeBuy liqeeSell (← liqorBuy.native buyBank)
    (← liqorSell.native sellBank) buyBank sellBank
  let (fromLiqee, toLiqor) ← x.sellAmounts swap buyTokenAmount sellTokenAmountWithMakerFee
  return (buyTokenAmount, fromLiqee, toLiqor)

/-- Trades, records the amounts, and removes the swap if it is done. -/
def action (x : Trigger) (swap : TokenConditionalSwap) (liqor liqee : MangoAccount)
    (buyBank sellBank : Bank) : Exec (Nat × Bank × Bank × MangoAccount × MangoAccount) := do
  swap.checkTriggerable x.priceInRange x.nowTs
  swap.assertPremiumPrice x.nowTs
  require x.takerPriceReached .tokenConditionalSwapTakerPriceTooLow
  let (buyAmount, fromLiqee, toLiqor) ← x.amounts swap liqor liqee buyBank sellBank
  let (buyBank, sellBank, liqor, liqee) ←
    (x.traded buyAmount fromLiqee toLiqor false).trade swap liqor liqee buyBank sellBank
  let recorded ← swap.record buyAmount fromLiqee x.nowTs
  let closed ← x.isDone recorded liqee buyBank sellBank
  let (buyBank, sellBank, liqee) ← (if closed then
      removeSwap liqee x.index swap buyBank sellBank x.nowTs
    else .ok (buyBank, sellBank, liqee.setTokenConditionalSwap x.index recorded) :
      Exec (Bank × Bank × MangoAccount))
  return (buyAmount, buyBank, sellBank, liqor, liqee)

end Trigger

def triggerSwap (s : Group) (x : Trigger) : Exec Group := do
  require (decide (x.liqee ≠ x.liqor)) .requireKeysNeqViolated
  let liqor ← s.accounts.load x.liqor
  let liqee ← s.accounts.load x.liqee
  let swap ← liqee.tokenConditionalSwapByIndex x.index
  require swap.isConfigured .tokenConditionalSwapNotSet
  require (decide (swap.id = x.id)) .tokenConditionalSwapIndexIdMismatch
  let (buyBank, sellBank) ←
    s.loadBankPair swap.buyTokenIndex x.buyBank swap.sellTokenIndex x.sellBank
  if swap.isExpired x.nowTs then
    require (decide (x.minBuyToken = 0)) .tokenConditionalSwapExpired
    let (buyBank, sellBank, liqee) ← removeSwap liqee x.index swap buyBank sellBank x.nowTs
    return ((s.setBank swap.buyTokenIndex x.buyBank buyBank).setBank swap.sellTokenIndex x.sellBank
      sellBank).setAccount x.liqee liqee
  else
    let (_, liqee) ← liqee.ensureTokenPosition swap.buyTokenIndex
    let (_, liqee) ← liqee.ensureTokenPosition swap.sellTokenIndex
    let (buyAmount, buyBank, sellBank, liqor, liqee) ←
      x.action swap liqor liqee buyBank sellBank
    require (decide (x.minBuyToken ≤ buyAmount)) .tokenConditionalSwapMinBuyTokenNotReached
    return (((s.setBank swap.buyTokenIndex x.buyBank buyBank).setBank swap.sellTokenIndex x.sellBank
      sellBank).setAccount x.liqor liqor).setAccount x.liqee liqee

/-! ## token_conditional_swap_start -/

structure Start where
  liqor : Pubkey
  liqee : Pubkey
  index : Nat
  id : Nat
  sellBank : Nat
  sellTokenPrice : I80F48
  priceInRange : Bool
  nowTs : Nat

/-- What the caller gets, in sell tokens; it can be less than one native token. -/
def Start.incentive (x : Start) (swap : TokenConditionalSwap) (sellBank : Bank) : Exec I80F48 := do
  let whole ← (← Fixed.ofInt TCS_START_INCENTIVE : I80F48).div x.sellTokenPrice
  let remaining ← Fixed.ofInt (← swap.remainingSell)
  return ((whole.min remaining).min (← sellBank.remainingDepositsUntilLimit)).max .zero

def startSwap (s : Group) (x : Start) : Exec Group := do
  -- an account cannot be borrowed twice
  require (decide (x.liqee ≠ x.liqor)) .requireKeysNeqViolated
  let liqee ← s.accounts.load x.liqee
  let liqor ← s.accounts.load x.liqor
  let swap ← liqee.tokenConditionalSwapByIndex x.index
  require swap.isConfigured .tokenConditionalSwapNotSet
  require (decide (swap.id = x.id)) .tokenConditionalSwapIndexIdMismatch
  require swap.isStartableType .tokenConditionalSwapTypeNotStartable
  let b ← s.loadBank swap.sellTokenIndex x.sellBank
  swap.checkStartable x.priceInRange x.nowTs
  let incentive ← x.incentive swap b
  let liqeeSell ← liqee.tokenPositionMut swap.sellTokenIndex
  let (liqorSell, liqor) ← liqor.ensureTokenPosition swap.sellTokenIndex
  let (_, b, liqeeSell, liqorSell) ←
    b.checkedTransferWithFee liqeeSell incentive liqorSell incentive x.nowTs x.sellTokenPrice
  let balance ← liqeeSell.native b
  require (!decide (balance < .zero) || swap.allowCreatingBorrows)
    .tokenConditionalSwapCantPayIncentive
  let started := { swap with startTimestamp := x.nowTs }
  assert (started.passedStart x.nowTs)
  -- the swap counts whole tokens, so that the incentive is not accounted perfectly
  let sold ← checkU64 (swap.sold + clampToU64 incentive)
  assert (decide (sold ≤ swap.maxSell))
  return ((s.setBank swap.sellTokenIndex x.sellBank b).setAccount x.liqor
    (liqor.setTokenPosition liqorSell)).setAccount x.liqee
      ((liqee.setTokenPosition liqeeSell).setTokenConditionalSwap x.index { started with sold })

end Group

end MangoV4
