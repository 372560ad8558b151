/-
  MangoV4.Health.Cache

  The health cache (`health/cache.rs`): what health reads of an account, its
  banks and its markets, and how health is computed from it.

  Health comes in three types with different weights and prices.  Perp
  positions change the balance of their settle token; what is reserved on
  serum3 open orders counts with the worse of two outcomes.  The functions are
  written over any number format.
-/

import MangoV4.State.MangoAccount
import MangoV4.Lib.Arith

namespace MangoV4

open Lib Lib.Exec

/-- The ordering is meant to be `init` ≤ `liquidationEnd` ≤ `maint`. -/
inductive HealthType where
  | init
  | maint
  | liquidationEnd
deriving DecidableEq

/-- Prices of a bank or perp market, in native units. -/
structure Prices (N : Type) where
  oracle : N
  stable : N
deriving DecidableEq

structure TokenInfo (N : Type) where
  tokenIndex : TokenIndex
  maintAssetWeight : N
  initAssetWeight : N
  initScaledAssetWeight : N
  maintLiabWeight : N
  initLiabWeight : N
  initScaledLiabWeight : N
  prices : Prices N
  /-- Deposits or borrows and the free funds on serum3 open orders. -/
  balanceSpot : N
deriving DecidableEq

/-- Funds on serum3 open orders that end up as base or as quote tokens. -/
structure Serum3Info (N : Type) where
  reservedBase : N
  reservedQuote : N
  /-- Converted at the most extreme order price; zero if that is not known. -/
  reservedBaseAsQuoteLowestAsk : N
  reservedQuoteAsBaseHighestBid : N
  /-- An index into the token infos, not a token index. -/
  baseInfoIndex : Nat
  quoteInfoIndex : Nat
deriving DecidableEq

structure Serum3Reserved (N : Type) where
  allReservedAsBase : N
  allReservedAsQuote : N
deriving DecidableEq

structure PerpInfo (N : Type) where
  settleTokenIndex : TokenIndex
  maintBaseAssetWeight : N
  initBaseAssetWeight : N
  maintBaseLiabWeight : N
  initBaseLiabWeight : N
  maintOverallAssetWeight : N
  initOverallAssetWeight : N
  baseLotSize : Int
  baseLots : Int
  bidsBaseLots : Int
  asksBaseLots : Int
  quote : N
  basePrices : Prices N
deriving DecidableEq

structure HealthCache (N : Type) where
  tokenInfos : List (TokenInfo N)
  serum3Infos : List (Serum3Info N)
  perpInfos : List (PerpInfo N)
deriving DecidableEq

section

variable {N : Type}

def TokenInfo.assetWeight (t : TokenInfo N) : HealthType → N
  | .init => t.initScaledAssetWeight
  | .liquidationEnd => t.initAssetWeight
  | .maint => t.maintAssetWeight

def TokenInfo.liabWeight (t : TokenInfo N) : HealthType → N
  | .init => t.initScaledLiabWeight
  | .liquidationEnd => t.initLiabWeight
  | .maint => t.maintLiabWeight

/-- The weight of a base position, by its sign. -/
def PerpInfo.baseWeight (p : PerpInfo N) : HealthType → Bool → N
  | .init, true | .liquidationEnd, true => p.initBaseLiabWeight
  | .init, false | .liquidationEnd, false => p.initBaseAssetWeight
  | .maint, true => p.maintBaseLiabWeight
  | .maint, false => p.maintBaseAssetWeight

def PerpInfo.overallAssetWeight (p : PerpInfo N) : HealthType → N
  | .init | .liquidationEnd => p.initOverallAssetWeight
  | .maint => p.maintOverallAssetWeight

def HealthCache.tokenInfoIndex (c : HealthCache N) (tokenIndex : TokenIndex) : Exec Nat :=
  match c.tokenInfos.findIdx? fun t => decide (t.tokenIndex = tokenIndex) with
  | some i => .ok i
  | none => fail .tokenPositionDoesNotExist

end

variable {N : Type} [Arith N]

namespace Prices

def liab (p : Prices N) : HealthType → N
  | .maint | .liquidationEnd => p.oracle
  | .init => Arith.max p.oracle p.stable

def asset (p : Prices N) : HealthType → N
  | .maint | .liquidationEnd => p.oracle
  | .init => Arith.min p.oracle p.stable

end Prices

namespace TokenInfo

def assetWeightedPrice (t : TokenInfo N) (healthType : HealthType) : Exec N :=
  Arith.mul (t.assetWeight healthType) (t.prices.asset healthType)

def liabWeightedPrice (t : TokenInfo N) (healthType : HealthType) : Exec N :=
  Arith.mul (t.liabWeight healthType) (t.prices.liab healthType)

def healthContribution (t : TokenInfo N) (healthType : HealthType) (balance : N) : Exec N := do
  let weightedPrice ← if balance < 0 then t.liabWeightedPrice healthType
    else t.assetWeightedPrice healthType
  Arith.mul balance weightedPrice

end TokenInfo

/-! ## Serum3 open orders -/

namespace Serum3Info

/-- All of it as base tokens: at the oracle price, or at the highest bid if
    that gives less. -/
def allReservedAsBase (s : Serum3Info N) (healthType : HealthType)
    (quoteInfo baseInfo : TokenInfo N) : Exec N := do
  let quoteAsset := quoteInfo.prices.asset healthType
  let baseLiab := baseInfo.prices.liab healthType
  let reservedQuoteAsBaseOracle ← Arith.divF64 (← Arith.mul s.reservedQuote quoteAsset) baseLiab
  if s.reservedQuoteAsBaseHighestBid ≠ 0 then
    Arith.add s.reservedBase (Arith.min reservedQuoteAsBaseOracle s.reservedQuoteAsBaseHighestBid)
  else Arith.add s.reservedBase reservedQuoteAsBaseOracle

def allReservedAsQuote (s : Serum3Info N) (healthType : HealthType)
    (quoteInfo baseInfo : TokenInfo N) : Exec N := do
  let baseAsset := baseInfo.prices.asset healthType
  let quoteLiab := quoteInfo.prices.liab healthType
  let reservedBaseAsQuoteOracle ← Arith.divF64 (← Arith.mul s.reservedBase baseAsset) quoteLiab
  if s.reservedBaseAsQuoteLowestAsk ≠ 0 then
    Arith.add s.reservedQuote (Arith.min reservedBaseAsQuoteOracle s.reservedBaseAsQuoteLowestAsk)
  else Arith.add s.reservedQuote reservedBaseAsQuoteOracle

end Serum3Info

/-- How much health would increase if the reserved balance were applied to the
    token, last of all that may come. -/
def TokenInfo.healthEffect (t : TokenInfo N) (healthType : HealthType)
    (balance maxReserved marketReserved : N) : Exec N := do
  let maxBalance ← Arith.add balance maxReserved
  let (assetPart, liabPart) ← (if marketReserved ≤ maxBalance then .ok (marketReserved, 0)
    else if maxBalance < 0 then .ok (0, marketReserved)
    else do return (maxBalance, ← Arith.sub marketReserved maxBalance) : Exec (N × N))
  let asset ← Arith.mul (← Arith.mul assetPart (t.assetWeight healthType))
    (t.prices.asset healthType)
  let liab ← Arith.mul (← Arith.mul liabPart (t.liabWeight healthType)) (t.prices.liab healthType)
  Arith.add asset liab

/-- `l[i]` -/
def nth {α : Type} (l : List α) (i : Nat) : Exec α :=
  match l[i]? with
  | some a => .ok a
  | none => panic .outOfBounds

/-- `l[i] += x` -/
def addAt (l : List N) (i : Nat) (x : N) : Exec (List N) := do
  return l.set i (← Arith.add (← nth l i) x)

def Serum3Info.healthContribution (s : Serum3Info N) (healthType : HealthType)
    (tokenInfos : List (TokenInfo N)) (tokenBalances tokenMaxReserved : List N)
    (marketReserved : Serum3Reserved N) : Exec N :=
  if marketReserved.allReservedAsBase = 0 ∨ marketReserved.allReservedAsQuote = 0 then .ok 0
  else do
    let baseInfo ← nth tokenInfos s.baseInfoIndex
    let quoteInfo ← nth tokenInfos s.quoteInfoIndex
    let healthBase ← baseInfo.healthEffect healthType (← nth tokenBalances s.baseInfoIndex)
      (← nth tokenMaxReserved s.baseInfoIndex) marketReserved.allReservedAsBase
    let healthQuote ← quoteInfo.healthEffect healthType (← nth tokenBalances s.quoteInfoIndex)
      (← nth tokenMaxReserved s.quoteInfoIndex) marketReserved.allReservedAsQuote
    return Arith.min healthBase healthQuote

/-! ## Perp positions -/

namespace PerpInfo

/-- The position and the order quote if `ordersBaseLots` execute at `orderPrice`. -/
def orderExecutionCase (p : PerpInfo N) (healthType : HealthType) (ordersBaseLots : Int)
    (orderPrice : N) : Exec N := do
  let netBaseNative : N ← Arith.ofInt
    (← checkI64 ((← checkI64 (p.baseLots + ordersBaseLots)) * p.baseLotSize))
  let weight := p.baseWeight healthType (decide (netBaseNative < 0))
  let basePrice := if netBaseNative < 0 then p.basePrices.liab healthType
    else p.basePrices.asset healthType
  let baseHealth ← Arith.mul (← Arith.mul netBaseNative weight) basePrice
  let ordersBaseNative : N ← Arith.ofInt (← checkI64 (ordersBaseLots * p.baseLotSize))
  let orderQuote ← Arith.mul (← Arith.neg ordersBaseNative) orderPrice
  Arith.add baseHealth orderQuote

/-- The worse of executing all bids and executing all asks. -/
def unweightedHealthUnsettledPnl (p : PerpInfo N) (healthType : HealthType) : Exec N := do
  let bidsCase ← p.orderExecutionCase healthType p.bidsBaseLots (p.basePrices.liab healthType)
  let asksCase ← p.orderExecutionCase healthType (← checkI64 (-p.asksBaseLots))
    (p.basePrices.asset healthType)
  Arith.add p.quote (Arith.min bidsCase asksCase)

def weighUhupnlOverall (p : PerpInfo N) (unweighted : N) (healthType : HealthType) : Exec N :=
  if 0 < unweighted then Arith.mul (p.overallAssetWeight healthType) unweighted
  else .ok unweighted

/-- The perp-risk adjusted unsettled pnl, in settle token native units. -/
def healthUnsettledPnl (p : PerpInfo N) (healthType : HealthType) : Exec N := do
  p.weighUhupnlOverall (← p.unweightedHealthUnsettledPnl healthType) healthType

end PerpInfo

/-! ## Health -/

namespace HealthCache

/-- One step of the loop of `compute_serum3_reservations`. -/
def reserve (c : HealthCache N) (healthType : HealthType)
    (st : List N × List (Serum3Reserved N)) (info : Serum3Info N) :
    Exec (List N × List (Serum3Reserved N)) := do
  let quoteInfo ← nth c.tokenInfos info.quoteInfoIndex
  let baseInfo ← nth c.tokenInfos info.baseInfoIndex
  let allReservedAsBase ← info.allReservedAsBase healthType quoteInfo baseInfo
  let allReservedAsQuote ← info.allReservedAsQuote healthType quoteInfo baseInfo
  let tokenMaxReserved ← addAt st.1 info.baseInfoIndex allReservedAsBase
  let tokenMaxReserved ← addAt tokenMaxReserved info.quoteInfoIndex allReservedAsQuote
  return (tokenMaxReserved, st.2 ++ [⟨allReservedAsBase, allReservedAsQuote⟩])

/-- For each token the most that open orders may turn into it, and for each
    market both conversions. -/
def computeSerum3Reservations (c : HealthCache N) (healthType : HealthType) :
    Exec (List N × List (Serum3Reserved N)) :=
  c.serum3Infos.foldlM (c.reserve healthType) (List.replicate c.tokenInfos.length 0, [])

/-- One step of the loop over perp positions. -/
def addPerp (c : HealthCache N) (healthType : HealthType) (ignoreNegativePerp : Bool)
    (tokenBalances : List N) (perpInfo : PerpInfo N) : Exec (List N) := do
  let settleTokenIndex ← unwrapResult (c.tokenInfoIndex perpInfo.settleTokenIndex)
  let healthUnsettled ← perpInfo.healthUnsettledPnl healthType
  if !ignoreNegativePerp ∨ 0 < healthUnsettled then
    addAt tokenBalances settleTokenIndex healthUnsettled
  else return tokenBalances

def effectiveTokenBalancesInternal (c : HealthCache N) (healthType : HealthType)
    (ignoreNegativePerp : Bool) : Exec (List N) := do
  let tokenBalances ← c.perpInfos.foldlM (c.addPerp healthType ignoreNegativePerp)
    (List.replicate c.tokenInfos.length 0)
  (c.tokenInfos.zip tokenBalances).mapM fun x => Arith.add x.2 x.1.balanceSpot

/-- Token balances that account for spot and perp contributions. -/
def effectiveTokenBalances (c : HealthCache N) (healthType : HealthType) : Exec (List N) :=
  c.effectiveTokenBalancesInternal healthType false

/-- All contributions to health: first of the tokens, then of the markets. -/
def healthSum (c : HealthCache N) (healthType : HealthType) (tokenBalances : List N) :
    Exec (List N) := do
  let tokens ← (c.tokenInfos.zip tokenBalances).mapM fun x =>
    x.1.healthContribution healthType x.2
  let (tokenMaxReserved, serum3Reserved) ← c.computeSerum3Reservations healthType
  let markets ← (c.serum3Infos.zip serum3Reserved).mapM fun x =>
    x.1.healthContribution healthType c.tokenInfos tokenBalances tokenMaxReserved x.2
  return tokens ++ markets

def health (c : HealthCache N) (healthType : HealthType) : Exec N := do
  let tokenBalances ← c.effectiveTokenBalances healthType
  (← c.healthSum healthType tokenBalances).foldlM Arith.add 0

end HealthCache

end MangoV4
