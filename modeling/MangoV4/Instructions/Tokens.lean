/-
  MangoV4.Instructions.Tokens

  The instructions that move tokens and that create or remove entries which
  need token positions (`instructions/token_*.rs`, `serum3_*_open_orders.rs`).

  Health, oracles and the token vaults are outside of this model: prices and
  the amounts that health allows are arguments, and what only rejects an
  instruction is left out.
-/

import MangoV4.Instructions.TokenBanks
import MangoV4.State.TokenAccount

namespace MangoV4

open Lib Lib.Exec

structure Serum3Market where
  marketIndex : Serum3MarketIndex
  baseTokenIndex : TokenIndex
  quoteTokenIndex : TokenIndex

/-- Everything that is registered in a group. -/
structure Group extends TokenGroup where
  perpMarkets : PerpMarketIndex → Option PerpMarket
  serum3Markets : Serum3MarketIndex → Option Serum3Market

namespace Group

def loadPerpMarket (s : Group) (marketIndex : PerpMarketIndex) : Exec PerpMarket :=
  match s.perpMarkets marketIndex with
  | some market => .ok market
  | none => fail .accountNotInitialized

def loadSerum3Market (s : Group) (marketIndex : Serum3MarketIndex) : Exec Serum3Market :=
  match s.serum3Markets marketIndex with
  | some market => .ok market
  | none => fail .accountNotInitialized

/-- Writes back a loaded bank. -/
def setBank (s : Group) (tokenIndex : TokenIndex) (i : Nat) (b : Bank) : Group :=
  { s with toTokenGroup := s.toTokenGroup.storeBank tokenIndex i b }

/-- Writes back a loaded account. -/
def setAccount (s : Group) (key : Pubkey) (account : MangoAccount) : Group :=
  { s with toTokenGroup := s.toTokenGroup.storeAccount key account }

/-- `banks_mut_and_oracles`, whose second bank is unwrapped: there is none if
    the two tokens are the same. -/
def loadBankPair (s : Group) (tokenIndex₁ bank₁ tokenIndex₂ bank₂ : Nat) :
    Exec (Bank × Bank) := do
  let b₁ ← s.loadBank tokenIndex₁ bank₁
  let b₂ ← (if tokenIndex₁ = tokenIndex₂ then panic .unwrap
    else s.loadBank tokenIndex₂ bank₂ : Exec Bank)
  return (b₁, b₂)

end Group

/-! ## token_deposit -/

/-- What is deposited: reduce-only deposits only pay back a borrow. -/
def Bank.depositAmount (b : Bank) (p : TokenPosition) (amount : Nat) (reduceOnly : Bool) :
    Exec I80F48 := do
  let whole ← Fixed.ofInt amount
  let allowed ← (if reduceOnly || b.areDepositsReduceOnly then do
      let borrowed ← (← ((← p.native b).min .zero).abs).ceil
      return borrowed.min whole
    else .ok whole : Exec I80F48)
  require (!b.areDepositsReduceOnly || reduceOnly || decide (allowed = whole))
    .tokenInReduceOnlyMode
  return allowed

namespace Group

/-- Deposits into a position that exists. -/
def depositIntoExisting (s : Group) (key : Pubkey) (account : MangoAccount)
    (tokenIndex bank amount : Nat) (reduceOnly allowTokenAccountClosure : Bool) (nowTs : Nat) :
    Exec Group := do
  require (decide (0 < amount)) .someError
  let b ← s.loadBank tokenIndex bank
  -- at least 50 for USD
  let amountMin : I80F48 ← Fixed.ofInt (50 * (← checkU64 (10 ^ b.mintDecimals)))
  require (decide (tokenIndex ≠ 0) || decide (amountMin.raw ≤ amount * 2 ^ 48)) .someError
  let p ← account.tokenPositionMut tokenIndex
  let depositAmount ← b.depositAmount p amount reduceOnly
  let (active, b, p) ← b.deposit p depositAmount nowTs
  let _ ← depositAmount.toU64
  -- only increasing the total deposits is limited
  (if .zero < p.indexedPosition then b.checkDepositAndOoLimit else .ok () : Exec Unit)
  let account ← (account.setTokenPosition p).deactivateIfInactive tokenIndex
    (!allowTokenAccountClosure || active)
  return (s.setBank tokenIndex bank b).setAccount key account

def tokenDeposit (s : Group) (key : Pubkey) (tokenIndex bank amount : Nat) (reduceOnly : Bool)
    (nowTs : Nat) : Exec Group := do
  let account ← s.accounts.load key
  let (_, account) ← account.ensureTokenPosition tokenIndex
  s.depositIntoExisting key account tokenIndex bank amount reduceOnly true nowTs

def tokenDepositIntoExisting (s : Group) (key : Pubkey) (tokenIndex bank amount : Nat)
    (reduceOnly : Bool) (nowTs : Nat) : Exec Group := do
  let account ← s.accounts.load key
  s.depositIntoExisting key account tokenIndex bank amount reduceOnly false nowTs

/-! ## token_withdraw -/

/-- The amount to withdraw; `u64::MAX` without borrowing stands for the whole
    balance, and there is nothing to do if that is negative. -/
def withdrawAmount (nativePosition : I80F48) (amount : Nat) (allowBorrow : Bool) :
    Exec (Option Nat) :=
  if amount = U64_MAX ∧ allowBorrow = false then
    if nativePosition < .zero then .ok none
    else do return some (← nativePosition.toU64)
  else .ok (some amount)

def tokenWithdraw (s : Group) (key : Pubkey) (tokenIndex bank amount : Nat) (allowBorrow : Bool)
    (nowTs : Nat) : Exec Group := do
  require (decide (0 < amount)) .someError
  let account ← s.accounts.load key
  let (p, account) ← account.ensureTokenPosition tokenIndex
  let b ← s.loadBank tokenIndex bank
  let nativePosition ← p.native b
  match ← withdrawAmount nativePosition amount allowBorrow with
  | none => return s.setAccount key account
  | some amount =>
    let amount : I80F48 ← Fixed.ofInt amount
    let isBorrow := decide (nativePosition < amount)
    require (allowBorrow || !isBorrow) .someError
    require (!b.areBorrowsReduceOnly || !isBorrow) .tokenInReduceOnlyMode
    let (result, b, p) ← b.withdrawWithFee p amount nowTs
    let _ ← p.native b
    let account ← (account.setTokenPosition p).deactivateIfInactive tokenIndex
      result.positionIsActive
    return (s.setBank tokenIndex bank b).setAccount key account

/-! ## Spot open orders -/

def serum3CreateOpenOrders (s : Group) (key : Pubkey) (marketIndex : Serum3MarketIndex) :
    Exec Group := do
  let market ← s.loadSerum3Market marketIndex
  let account ← s.accounts.load key
  let account ← account.createSerum3Orders {
    openOrders := some market.marketIndex
    marketIndex := market.marketIndex
    baseTokenIndex := market.baseTokenIndex
    quoteTokenIndex := market.quoteTokenIndex }
  -- the token positions stay blocked, so that the market can be settled
  let account ← account.ensureTokenInUse market.quoteTokenIndex
  let account ← account.ensureTokenInUse market.baseTokenIndex
  return s.setAccount key account

/-- The spot market program closes only open orders of its market. -/
def serum3CloseOpenOrders (s : Group) (key : Pubkey) (marketIndex : Serum3MarketIndex) :
    Exec Group := do
  let account ← s.accounts.load key
  let market ← s.loadSerum3Market marketIndex
  let orders ← account.serum3Orders market.marketIndex
  require (decide (orders.openOrders = some market.marketIndex)) .someError
  let account ← account.decrementInUse market.baseTokenIndex
  let account ← account.decrementInUse market.quoteTokenIndex
  let account ← account.deactivateSerum3Orders market.marketIndex
  return s.setAccount key account

/-! ## Perp positions -/

/-- The first step of placing an order and of taking over a position. -/
def ensurePerpPosition (s : Group) (key : Pubkey) (marketIndex : PerpMarketIndex) : Exec Group := do
  let market ← s.loadPerpMarket marketIndex
  let account ← s.accounts.load key
  let account ← account.ensurePerpPosition market.perpMarketIndex market.settleTokenIndex
  return s.setAccount key account

def perpDeactivatePosition (s : Group) (key : Pubkey) (marketIndex : PerpMarketIndex) :
    Exec Group := do
  let market ← s.loadPerpMarket marketIndex
  let account ← s.accounts.load key
  return s.setAccount key (← MangoV4.perpDeactivatePosition market account)

/-! ## Conditional swaps -/

/-- The tokens of the swap are those of the two banks. -/
def tokenConditionalSwapCreate (s : Group) (key : Pubkey)
    (buyTokenIndex buyBank sellTokenIndex sellBank expiryTimestamp nowTs : Nat)
    (terms : SwapTerms) : Exec Group :=
  if expiryTimestamp ≤ nowTs then .ok s
  else do
    let _ ← s.loadBank buyTokenIndex buyBank
    let _ ← s.loadBank sellTokenIndex sellBank
    let account ← s.accounts.load key
    let account ← account.ensureTokenInUse buyTokenIndex
    let account ← account.ensureTokenInUse sellTokenIndex
    let index ← account.tokenConditionalSwapFreeIndex
    require (decide (buyTokenIndex ≠ sellTokenIndex)) .requireNeqViolated
    let id := account.nextTokenConditionalSwapId
    return s.setAccount key ({ account with
      nextTokenConditionalSwapId := (id + 1) % 2 ^ 64 }.setTokenConditionalSwap index
        { terms with id, expiryTimestamp, buyTokenIndex, sellTokenIndex, isConfigured := true })

/-- Removes a swap and releases the hold on its token positions. -/
def removeSwap (account : MangoAccount) (index : Nat) (swap : TokenConditionalSwap)
    (buyBank sellBank : Bank) (nowTs : Nat) : Exec (Bank × Bank × MangoAccount) := do
  let account := account.setTokenConditionalSwap index .default
  let (buyBank, account) ←
    account.tokenDecrementDustDeactivate buyBank swap.buyTokenIndex nowTs
  let (sellBank, account) ←
    account.tokenDecrementDustDeactivate sellBank swap.sellTokenIndex nowTs
  return (buyBank, sellBank, account)

def tokenConditionalSwapCancel (s : Group) (key : Pubkey) (index id buyBank sellBank nowTs : Nat) :
    Exec Group := do
  let account ← s.accounts.load key
  let swap ← account.tokenConditionalSwapByIndex index
  let bBuy ← s.loadBank swap.buyTokenIndex buyBank
  let bSell ← s.loadBank swap.sellTokenIndex sellBank
  if swap.isConfigured = false then return s
  else
    require (decide (swap.id = id)) .tokenConditionalSwapIndexIdMismatch
    let (bBuy, bSell, account) ← removeSwap account index swap bBuy bSell nowTs
    return ((s.setBank swap.buyTokenIndex buyBank bBuy).setBank swap.sellTokenIndex sellBank
      bSell).setAccount key account

/-- A trigger: what the swap's conditions and both sides' limits allow to be
    traded, and whether no more can be traded after that. -/
structure SwapTrigger where
  liqor : Pubkey
  liqee : Pubkey
  index : Nat
  id : Nat
  buyBank : Nat
  sellBank : Nat
  buyTokenPrice : I80F48
  sellTokenPrice : I80F48
  buyTokenAmount : Nat
  sellTokenAmountFromLiqee : Nat
  sellTokenAmountToLiqor : Nat
  minBuyToken : Nat
  closed : Bool
  nowTs : Nat

/-- Bought tokens go from the liqor to the liqee, sold tokens the other way. -/
def SwapTrigger.trade (x : SwapTrigger) (swap : TokenConditionalSwap) (liqor liqee : MangoAccount)
    (bBuy bSell : Bank) : Exec (Bank × Bank × MangoAccount × MangoAccount) := do
  let (_, liqor) ← liqor.ensureTokenPosition swap.buyTokenIndex
  let (_, liqor) ← liqor.ensureTokenPosition swap.sellTokenIndex
  let buyAmount ← Fixed.ofInt x.buyTokenAmount
  let liqeeBuy ← liqee.tokenPositionMut swap.buyTokenIndex
  let liqorBuy ← liqor.tokenPositionMut swap.buyTokenIndex
  let (buyTransfer, bBuy, liqorBuy, liqeeBuy) ←
    bBuy.checkedTransferWithFee liqorBuy buyAmount liqeeBuy buyAmount x.nowTs x.buyTokenPrice
  let liqor := liqor.setTokenPosition liqorBuy
  let liqee := liqee.setTokenPosition liqeeBuy
  let liqeeSell ← liqee.tokenPositionMut swap.sellTokenIndex
  let liqorSell ← liqor.tokenPositionMut swap.sellTokenIndex
  let (sellTransfer, bSell, liqeeSell, liqorSell) ← bSell.checkedTransferWithFee
    liqeeSell (← Fixed.ofInt x.sellTokenAmountFromLiqee)
    liqorSell (← Fixed.ofInt x.sellTokenAmountToLiqor) x.nowTs x.sellTokenPrice
  let fees ← Fixed.ofInt (x.sellTokenAmountFromLiqee - x.sellTokenAmountToLiqor)
  let collectedFeesNative ← bSell.collectedFeesNative.add fees
  let liqee := liqee.setTokenPosition liqeeSell
  -- the liqee's positions can only be deactivated if the swap is closed
  let liqor ← (liqor.setTokenPosition liqorSell).deactivateIfInactive swap.buyTokenIndex
    buyTransfer.sourceIsActive
  let liqor ← liqor.deactivateIfInactive swap.sellTokenIndex sellTransfer.targetIsActive
  return (bBuy, { bSell with collectedFeesNative }, liqor, liqee)

def tokenConditionalSwapTrigger (s : Group) (x : SwapTrigger) : Exec Group := do
  require (decide (x.liqee ≠ x.liqor)) .requireKeysNeqViolated
  let liqor ← s.accounts.load x.liqor
  let liqee ← s.accounts.load x.liqee
  let swap ← liqee.tokenConditionalSwapByIndex x.index
  require swap.isConfigured .tokenConditionalSwapNotSet
  require (decide (swap.id = x.id)) .tokenConditionalSwapIndexIdMismatch
  let (bBuy, bSell) ← s.loadBankPair swap.buyTokenIndex x.buyBank swap.sellTokenIndex x.sellBank
  if swap.isExpired x.nowTs then
    require (decide (x.minBuyToken = 0)) .tokenConditionalSwapExpired
    let (bBuy, bSell, liqee) ← removeSwap liqee x.index swap bBuy bSell x.nowTs
    return ((s.setBank swap.buyTokenIndex x.buyBank bBuy).setBank swap.sellTokenIndex x.sellBank
      bSell).setAccount x.liqee liqee
  else
    -- as a precaution: the use counts already guarantee both positions
    let (_, liqee) ← liqee.ensureTokenPosition swap.buyTokenIndex
    let (_, liqee) ← liqee.ensureTokenPosition swap.sellTokenIndex
    let (bBuy, bSell, liqor, liqee) ← x.trade swap liqor liqee bBuy bSell
    let (bBuy, bSell, liqee) ← (if x.closed then removeSwap liqee x.index swap bBuy bSell x.nowTs
      else .ok (bBuy, bSell, liqee) : Exec (Bank × Bank × MangoAccount))
    require (decide (x.minBuyToken ≤ x.buyTokenAmount)) .tokenConditionalSwapMinBuyTokenNotReached
    return (((s.setBank swap.buyTokenIndex x.buyBank bBuy).setBank swap.sellTokenIndex x.sellBank
      bSell).setAccount x.liqor liqor).setAccount x.liqee liqee

/-- Pays the incentive for starting a swap, which is in the sell token. -/
def tokenConditionalSwapStart (s : Group) (liqorKey liqeeKey : Pubkey)
    (index id sellBank : Nat) (incentive sellTokenPrice : I80F48) (nowTs : Nat) : Exec Group := do
  -- an account cannot be borrowed twice
  require (decide (liqeeKey ≠ liqorKey)) .requireKeysNeqViolated
  let liqee ← s.accounts.load liqeeKey
  let liqor ← s.accounts.load liqorKey
  let swap ← liqee.tokenConditionalSwapByIndex index
  require swap.isConfigured .tokenConditionalSwapNotSet
  require (decide (swap.id = id)) .tokenConditionalSwapIndexIdMismatch
  let b ← s.loadBank swap.sellTokenIndex sellBank
  let liqeeSell ← liqee.tokenPositionMut swap.sellTokenIndex
  let (liqorSell, liqor) ← liqor.ensureTokenPosition swap.sellTokenIndex
  let (_, b, liqeeSell, liqorSell) ←
    b.checkedTransferWithFee liqeeSell incentive liqorSell incentive nowTs sellTokenPrice
  return ((s.setBank swap.sellTokenIndex sellBank b).setAccount liqorKey
    (liqor.setTokenPosition liqorSell)).setAccount liqeeKey (liqee.setTokenPosition liqeeSell)

/-! ## token_liq_with_token -/

/-- A liquidation: what health and the limits make of the transfers. -/
structure TokenLiquidation where
  liqor : Pubkey
  liqee : Pubkey
  assetTokenIndex : TokenIndex
  assetBank : Nat
  liabTokenIndex : TokenIndex
  liabBank : Nat
  liabTransfer : I80F48
  assetTransferToLiqor : I80F48
  assetTransferFromLiqee : I80F48
  nowTs : Nat

def tokenLiqWithToken (s : Group) (x : TokenLiquidation) : Exec Group := do
  require (decide (x.assetTokenIndex ≠ x.liabTokenIndex)) .someError
  require (decide (x.liqor ≠ x.liqee)) .requireKeysNeqViolated
  let liqor ← s.accounts.load x.liqor
  let liqee ← s.accounts.load x.liqee
  let (assetBank, liabBank) ←
    s.loadBankPair x.assetTokenIndex x.assetBank x.liabTokenIndex x.liabBank
  let liqeeAsset ← liqee.tokenPositionMut x.assetTokenIndex
  require (decide (.zero < (← liqeeAsset.native assetBank))) .requireGtViolated
  let liqeeLiab ← liqee.tokenPositionMut x.liabTokenIndex
  require (decide ((← liqeeLiab.native liabBank) < .zero)) .requireGtViolated
  let fee ← x.assetTransferFromLiqee.sub x.assetTransferToLiqor
  let collectedFeesNative ← assetBank.collectedFeesNative.add fee
  -- small positive balances of the liqee are dusted even if they are in use
  let (liqeeLiabActive, liabBank, liqeeLiab) ←
    liabBank.depositWithDusting liqeeLiab x.liabTransfer x.nowTs
  let liqee := liqee.setTokenPosition liqeeLiab
  let (liqorLiab, liqor) ← liqor.ensureTokenPosition x.liabTokenIndex
  let (liqorLiabResult, liabBank, liqorLiab) ←
    liabBank.withdrawWithFee liqorLiab x.liabTransfer x.nowTs
  let (liqorAsset, liqor) ←
    (liqor.setTokenPosition liqorLiab).ensureTokenPosition x.assetTokenIndex
  let (liqorAssetActive, assetBank, liqorAsset) ←
    { assetBank with collectedFeesNative }.deposit liqorAsset x.assetTransferToLiqor x.nowTs
  let liqor := liqor.setTokenPosition liqorAsset
  let liqeeAsset ← liqee.tokenPositionMut x.assetTokenIndex
  let (liqeeAssetActive, assetBank, liqeeAsset) ←
    assetBank.withdrawWithoutFeeWithDusting liqeeAsset x.assetTransferFromLiqee x.nowTs
  let liqee := liqee.setTokenPosition liqeeAsset
  let liqee ← liqee.deactivateIfInactive x.assetTokenIndex liqeeAssetActive
  let liqee ← liqee.deactivateIfInactive x.liabTokenIndex liqeeLiabActive
  let liqor ← liqor.deactivateIfInactive x.assetTokenIndex liqorAssetActive
  let liqor ← liqor.deactivateIfInactive x.liabTokenIndex liqorLiabResult.positionIsActive
  return (((s.setBank x.assetTokenIndex x.assetBank assetBank).setBank x.liabTokenIndex x.liabBank
    liabBank).setAccount x.liqor liqor).setAccount x.liqee liqee

/-! ## Runs -/

inductive Op where
  | tokenDeposit (key : Pubkey) (tokenIndex bank amount : Nat) (reduceOnly : Bool) (nowTs : Nat)
  | tokenDepositIntoExisting (key : Pubkey) (tokenIndex bank amount : Nat) (reduceOnly : Bool)
      (nowTs : Nat)
  | tokenWithdraw (key : Pubkey) (tokenIndex bank amount : Nat) (allowBorrow : Bool) (nowTs : Nat)
  | serum3CreateOpenOrders (key : Pubkey) (marketIndex : Serum3MarketIndex)
  | serum3CloseOpenOrders (key : Pubkey) (marketIndex : Serum3MarketIndex)
  | ensurePerpPosition (key : Pubkey) (marketIndex : PerpMarketIndex)
  | perpDeactivatePosition (key : Pubkey) (marketIndex : PerpMarketIndex)
  | tokenConditionalSwapCreate (key : Pubkey)
      (buyTokenIndex buyBank sellTokenIndex sellBank expiryTimestamp nowTs : Nat)
      (terms : SwapTerms := {})
  | tokenConditionalSwapCancel (key : Pubkey) (index id buyBank sellBank nowTs : Nat)
  | tokenConditionalSwapTrigger (x : SwapTrigger)
  | tokenConditionalSwapStart (liqor liqee : Pubkey) (index id sellBank : Nat)
      (incentive sellTokenPrice : I80F48) (nowTs : Nat)
  | tokenLiqWithToken (x : TokenLiquidation)

def apply : Op → Group → Exec Group
  | .tokenDeposit key t i amount reduceOnly nowTs, s => s.tokenDeposit key t i amount reduceOnly nowTs
  | .tokenDepositIntoExisting key t i amount reduceOnly nowTs, s =>
    s.tokenDepositIntoExisting key t i amount reduceOnly nowTs
  | .tokenWithdraw key t i amount allowBorrow nowTs, s =>
    s.tokenWithdraw key t i amount allowBorrow nowTs
  | .serum3CreateOpenOrders key m, s => s.serum3CreateOpenOrders key m
  | .serum3CloseOpenOrders key m, s => s.serum3CloseOpenOrders key m
  | .ensurePerpPosition key m, s => s.ensurePerpPosition key m
  | .perpDeactivatePosition key m, s => s.perpDeactivatePosition key m
  | .tokenConditionalSwapCreate key buy buyBank sell sellBank expiry nowTs terms, s =>
    s.tokenConditionalSwapCreate key buy buyBank sell sellBank expiry nowTs terms
  | .tokenConditionalSwapCancel key index id buyBank sellBank nowTs, s =>
    s.tokenConditionalSwapCancel key index id buyBank sellBank nowTs
  | .tokenConditionalSwapTrigger x, s => s.tokenConditionalSwapTrigger x
  | .tokenConditionalSwapStart liqor liqee index id sellBank incentive price nowTs, s =>
    s.tokenConditionalSwapStart liqor liqee index id sellBank incentive price nowTs
  | .tokenLiqWithToken x, s => s.tokenLiqWithToken x

def exec (op : Op) (s : Group) : Exec (Unit × Group) := do return ((), ← apply op s)

end Group

end MangoV4
