/-
  MangoV4.Health.NewCache

  Building a health cache (`new_health_cache_impl` in `health/cache.rs`) from an
  account and the banks, markets and open orders accounts that a retriever finds
  for it (`health/account_retriever.rs`).

  Only the data that health reads is kept of each of them.  If skipping is
  allowed, tokens without a borrow are left out when their bank is missing or
  its oracle is bad, and with a token all its serum3 markets.
-/

import MangoV4.Health.Cache
import Mathlib.Data.List.ReduceOption

namespace MangoV4

open Lib Lib.Exec

namespace Health

/-! ## What health reads -/

structure Bank (N : Type) where
  tokenIndex : TokenIndex
  depositIndex : N
  borrowIndex : N
  indexedDeposits : N
  indexedBorrows : N
  potentialSerumTokens : Nat
  initAssetWeight : N
  initLiabWeight : N
  maintAssetWeight : N
  maintLiabWeight : N
  maintWeightShiftStart : Nat
  maintWeightShiftEnd : Nat
  maintWeightShiftDurationInv : N
  maintWeightShiftAssetTarget : N
  maintWeightShiftLiabTarget : N
  /-- The largest double if weights are not scaled. -/
  depositWeightScaleStartQuote : ℚ
  borrowWeightScaleStartQuote : ℚ
  stablePrice : N

structure TokenPosition (N : Type) where
  tokenIndex : TokenIndex
  indexedPosition : N

/-- Amounts of an open orders account. -/
structure OpenOrders where
  nativeCoinFree : Nat
  nativeCoinTotal : Nat
  nativePcFree : Nat
  nativePcTotal : Nat

/-- The open orders account is known by the market it was opened on. -/
structure Serum3Orders where
  openOrders : Option Serum3MarketIndex
  baseTokenIndex : TokenIndex
  quoteTokenIndex : TokenIndex
  /-- Zero if it is not known. -/
  lowestPlacedAsk : ℚ
  highestPlacedBidInv : ℚ

structure PerpPosition (N : Type) where
  marketIndex : PerpMarketIndex
  basePositionLots : Int
  quotePositionNative : N
  longSettledFunding : N
  shortSettledFunding : N
  bidsBaseLots : Int
  asksBaseLots : Int
  takerBaseLots : Int
  takerQuoteLots : Int

structure PerpMarket (N : Type) where
  settleTokenIndex : TokenIndex
  maintBaseAssetWeight : N
  initBaseAssetWeight : N
  maintBaseLiabWeight : N
  initBaseLiabWeight : N
  maintOverallAssetWeight : N
  initOverallAssetWeight : N
  baseLotSize : Int
  quoteLotSize : Int
  longFunding : N
  shortFunding : N
  stablePrice : N

/-- The active positions and orders of an account.  It has at most one position
    in a token. -/
structure Account (N : Type) where
  activeTokenPositions : List (TokenPosition N)
  activeSerum3Orders : List Serum3Orders
  activePerpPositions : List (PerpPosition N)
  nodup : (activeTokenPositions.map TokenPosition.tokenIndex).Nodup

/-- Finds the accounts that were passed for health; the numbers are places in
    the lists of active positions and orders. -/
structure AccountRetriever (N : Type) where
  availableBanks : Exec (List TokenIndex)
  bankAndOracle : Nat → TokenIndex → Exec (Bank N × N)
  serumOo : Nat → Option Serum3MarketIndex → Exec OpenOrders
  perpMarketAndOraclePrice : Nat → PerpMarketIndex → Exec (PerpMarket N × N)
  /-- The bank is the one that was asked for. -/
  bank_tokenIndex : ∀ {i t bank price}, bankAndOracle i t = .ok (bank, price) → bank.tokenIndex = t

/-- `is_oracle_error` -/
def isOracleError {α : Type} : Exec α → Bool
  | .error (.error .oracleConfidence) | .error (.error .oracleStale) => true
  | _ => false

variable {N : Type} [Arith N]

/-! ## Banks -/

namespace Bank

/-- The maintenance weights move from their values to their targets. -/
def maintWeights (b : Bank N) (nowTs : Nat) : Exec (N × N) :=
  if b.maintWeightShiftDurationInv = 0 ∨ nowTs ≤ b.maintWeightShiftStart then
    .ok (b.maintAssetWeight, b.maintLiabWeight)
  else if b.maintWeightShiftEnd ≤ nowTs then
    .ok (b.maintWeightShiftAssetTarget, b.maintWeightShiftLiabTarget)
  else do
    let elapsed : N ← Arith.ofInt (nowTs - b.maintWeightShiftStart : Nat)
    let scale ← Arith.mul elapsed b.maintWeightShiftDurationInv
    let asset ← Arith.add b.maintAssetWeight
      (← Arith.mul scale (← Arith.sub b.maintWeightShiftAssetTarget b.maintAssetWeight))
    let liab ← Arith.add b.maintLiabWeight
      (← Arith.mul scale (← Arith.sub b.maintWeightShiftLiabTarget b.maintLiabWeight))
    return (asset, liab)

def nativeDeposits (b : Bank N) : Exec N := Arith.mul b.depositIndex b.indexedDeposits

def nativeBorrows (b : Bank N) : Exec N := Arith.mul b.borrowIndex b.indexedBorrows

variable [Doubles N]

open Doubles

/-- Unchanged up to a value of all deposits, and scaled down from there. -/
def scaledInitAssetWeight (b : Bank N) (price : N) : Exec N :=
  if b.depositWeightScaleStartQuote = F64_MAX then .ok b.initAssetWeight
  else do
    let allDeposits := round N (round N (Arith.toRat (← b.nativeDeposits)) +
      round N b.potentialSerumTokens)
    let depositsQuote := round N (allDeposits * round N (Arith.toRat price))
    if depositsQuote ≤ b.depositWeightScaleStartQuote then return b.initAssetWeight
    else
      let scale := round N (b.depositWeightScaleStartQuote / depositsQuote)
      Arith.mul b.initAssetWeight (← ofDouble scale)

def scaledInitLiabWeight (b : Bank N) (price : N) : Exec N :=
  if b.borrowWeightScaleStartQuote = F64_MAX then .ok b.initLiabWeight
  else do
    let borrowsQuote := round N (round N (Arith.toRat (← b.nativeBorrows)) *
      round N (Arith.toRat price))
    if borrowsQuote ≤ b.borrowWeightScaleStartQuote then return b.initLiabWeight
    else if b.borrowWeightScaleStartQuote = 0 then return maxValue
    else
      let scale := round N (borrowsQuote / b.borrowWeightScaleStartQuote)
      Arith.mul b.initLiabWeight (← ofDouble scale)

end Bank

/-- Native tokens of a position. -/
def TokenPosition.native (p : TokenPosition N) (bank : Bank N) : Exec N :=
  if 0 < p.indexedPosition then Arith.mul p.indexedPosition bank.depositIndex
  else Arith.mul p.indexedPosition bank.borrowIndex

/-! ## The three loops -/

/-- `find_token_info_index` -/
def findTokenInfoIndex (infos : List (TokenInfo N)) (tokenIndex : TokenIndex) : Option Nat :=
  infos.findIdx? fun t => decide (t.tokenIndex = tokenIndex)

section Tokens

variable [Doubles N]

def tokenInfo (position : TokenPosition N) (bank : Bank N) (oraclePrice : N) (nowTs : Nat) :
    Exec (TokenInfo N) := do
  let native ← position.native bank
  let prices : Prices N := ⟨oraclePrice, bank.stablePrice⟩
  -- the liability price is pessimistic and causes the most unfavorable scaling
  let liabPrice := prices.liab .init
  let (maintAssetWeight, maintLiabWeight) ← bank.maintWeights nowTs
  return {
    tokenIndex := bank.tokenIndex
    maintAssetWeight := maintAssetWeight
    initAssetWeight := bank.initAssetWeight
    initScaledAssetWeight := ← bank.scaledInitAssetWeight liabPrice
    maintLiabWeight := maintLiabWeight
    initLiabWeight := bank.initLiabWeight
    initScaledLiabWeight := ← bank.scaledInitLiabWeight liabPrice
    prices := prices
    balanceSpot := native }

/-- The token of the `i`-th active position, or nothing if it is skipped. -/
def loadToken (r : AccountRetriever N) (nowTs : Nat) (allowSkippingBanks : Bool)
    (available : List TokenIndex) (x : TokenPosition N × Nat) : Exec (Option (TokenInfo N)) :=
  if allowSkippingBanks ∧ x.1.tokenIndex ∉ available then do
    require (decide (0 ≤ x.1.indexedPosition)) .invalidBank
    return none
  else if allowSkippingBanks ∧ isOracleError (r.bankAndOracle x.2 x.1.tokenIndex) ∧
      0 ≤ x.1.indexedPosition then .ok none
  else do
    let (bank, oraclePrice) ← r.bankAndOracle x.2 x.1.tokenIndex
    return some (← tokenInfo x.1 bank oraclePrice nowTs)

end Tokens

/-- `balance_spot += amount` -/
def addSpot (infos : List (TokenInfo N)) (i : Nat) (amount : N) : Exec (List (TokenInfo N)) := do
  let info ← nth infos i
  return infos.set i { info with balanceSpot := ← Arith.add info.balanceSpot amount }

/-- `Serum3Info::new` -/
def newSerum3Info [Doubles N] (s : Serum3Orders) (oo : OpenOrders)
    (baseInfoIndex quoteInfoIndex : Nat) : Exec (Serum3Info N) := do
  let reservedBase : N ← Arith.ofInt (← subUnsigned oo.nativeCoinTotal oo.nativeCoinFree)
  let reservedQuote : N ← Arith.ofInt (← subUnsigned oo.nativePcTotal oo.nativePcFree)
  let lowestPlacedAsk : N ← Doubles.ofDouble s.lowestPlacedAsk
  let highestPlacedBidInv : N ← Doubles.ofDouble s.highestPlacedBidInv
  return {
    reservedBase := reservedBase
    reservedQuote := reservedQuote
    reservedBaseAsQuoteLowestAsk := ← Arith.mul reservedBase lowestPlacedAsk
    reservedQuoteAsBaseHighestBid := ← Arith.mul reservedQuote highestPlacedBidInv
    baseInfoIndex := baseInfoIndex
    quoteInfoIndex := quoteInfoIndex }

/-- Free funds on open orders are balances; what is reserved is kept apart. -/
def addSerum3 [Doubles N] (s : Serum3Orders) (oo : OpenOrders) (base quote : Nat)
    (st : List (TokenInfo N) × List (Serum3Info N)) :
    Exec (List (TokenInfo N) × List (Serum3Info N)) := do
  let baseFree : N ← Arith.ofInt oo.nativeCoinFree
  let quoteFree : N ← Arith.ofInt oo.nativePcFree
  let infos ← addSpot st.1 base baseFree
  let infos ← addSpot infos quote quoteFree
  return (infos, st.2 ++ [← newSerum3Info s oo base quote])

/-- A market is skipped if one of its tokens is not there. -/
def loadSerum3 [Doubles N] (r : AccountRetriever N) (allowSkippingBanks : Bool)
    (st : List (TokenInfo N) × List (Serum3Info N)) (x : Serum3Orders × Nat) :
    Exec (List (TokenInfo N) × List (Serum3Info N)) := do
  let oo ← r.serumOo x.2 x.1.openOrders
  match findTokenInfoIndex st.1 x.1.baseTokenIndex, findTokenInfoIndex st.1 x.1.quoteTokenIndex with
  | some base, some quote => addSerum3 x.1 oo base quote st
  | _, _ =>
    require allowSkippingBanks .invalidBank
    return st

def PerpPosition.unsettledFunding (p : PerpPosition N) (market : PerpMarket N) : Exec N :=
  if 0 < p.basePositionLots then do
    Arith.mul (← Arith.sub market.longFunding p.longSettledFunding)
      (← Arith.ofInt p.basePositionLots)
  else if p.basePositionLots < 0 then do
    Arith.mul (← Arith.sub market.shortFunding p.shortSettledFunding)
      (← Arith.ofInt p.basePositionLots)
  else .ok 0

/-- `PerpInfo::new` -/
def newPerpInfo (p : PerpPosition N) (market : PerpMarket N) (basePrices : Prices N) :
    Exec (PerpInfo N) := do
  let baseLots ← checkI64 (p.basePositionLots + p.takerBaseLots)
  let unsettledFunding ← p.unsettledFunding market
  let takerQuote : N ← Arith.ofInt (← checkI64 (p.takerQuoteLots * market.quoteLotSize))
  let quoteCurrent ← Arith.add (← Arith.sub p.quotePositionNative unsettledFunding) takerQuote
  return {
    settleTokenIndex := market.settleTokenIndex
    maintBaseAssetWeight := market.maintBaseAssetWeight
    initBaseAssetWeight := market.initBaseAssetWeight
    maintBaseLiabWeight := market.maintBaseLiabWeight
    initBaseLiabWeight := market.initBaseLiabWeight
    maintOverallAssetWeight := market.maintOverallAssetWeight
    initOverallAssetWeight := market.initOverallAssetWeight
    baseLotSize := market.baseLotSize
    baseLots := baseLots
    bidsBaseLots := p.bidsBaseLots
    asksBaseLots := p.asksBaseLots
    quote := quoteCurrent
    basePrices := basePrices }

/-- The settle token has to be there even if skipping is allowed. -/
def loadPerp (r : AccountRetriever N) (allowSkippingBanks : Bool) (infos : List (TokenInfo N))
    (x : PerpPosition N × Nat) : Exec (PerpInfo N) := do
  let (market, oraclePrice) ← r.perpMarketAndOraclePrice x.2 x.1.marketIndex
  if allowSkippingBanks ∧ findTokenInfoIndex infos market.settleTokenIndex = none then
    fail .tokenPositionDoesNotExist
  else newPerpInfo x.1 market ⟨oraclePrice, market.stablePrice⟩

section

variable [Doubles N]

def newHealthCacheImpl (account : Account N) (r : AccountRetriever N) (nowTs : Nat)
    (allowSkippingBanks : Bool) : Exec (HealthCache N) := do
  -- the available banks are only looked up if they are needed
  let available ← if allowSkippingBanks then r.availableBanks else .ok []
  let tokens ← account.activeTokenPositions.zipIdx.mapM (loadToken r nowTs allowSkippingBanks available)
  let (tokenInfos, serum3Infos) ← account.activeSerum3Orders.zipIdx.foldlM
    (loadSerum3 r allowSkippingBanks) (tokens.reduceOption, [])
  let perpInfos ← account.activePerpPositions.zipIdx.mapM (loadPerp r allowSkippingBanks tokenInfos)
  return ⟨tokenInfos, serum3Infos, perpInfos⟩

def newHealthCache (account : Account N) (r : AccountRetriever N) (nowTs : Nat) :
    Exec (HealthCache N) :=
  newHealthCacheImpl account r nowTs false

def newHealthCacheSkippingMissingBanksAndBadOracles (account : Account N)
    (r : AccountRetriever N) (nowTs : Nat) : Exec (HealthCache N) :=
  newHealthCacheImpl account r nowTs true

end

end Health

end MangoV4
