/-
  MangoV4.Instructions.Funding

  Funding of a perp market (`perp_market.rs`): the funding rate from the book
  and the oracle, and losses that are socialized through funding.

  The functions are written over any number format.  What they read and write
  of a market and of a position is `FundingMarket` and `FundingPosition`; for
  the market and position of the exchange see `PerpMarket.fundingMarket` and
  `PerpPosition.fundingPosition`.
-/

import MangoV4.Instructions.Perp
import MangoV4.Lib.Arith

namespace MangoV4

open Lib Lib.Exec

/-! ## impact_price -/

namespace BookSide

/-- The loop of `impact_price`: orders that are not valid are passed over. -/
def impactLoop (t : OrderTreeNodes) (quantity : Int) :
    Nat → BookSideIter → Int → Exec (Option Int)
  | 0, _, _ => diverge
  | fuel + 1, it, sum => do
    match ← it.next t with
    | (none, _) => return none
    | (some order, it) =>
      if !order.isValid then impactLoop t quantity fuel it sum
      else
        let sum ← checkI64 (sum + order.node.quantity)
        if quantity ≤ sum then return some order.priceLots
        else impactLoop t quantity fuel it sum

/-- Walk up the book `quantity` units and return the price at that level, if
    there is that much on the book. -/
def impactPrice (b : BookSide) (quantity : Int) (nowTs : Nat) (oraclePriceLots : Int) :
    Exec (Option Int) := do
  let it ← b.iterAllIncludingInvalid nowTs oraclePriceLots
  impactLoop b.nodes quantity (2 * MAX_ORDERTREE_NODES) it 0

end BookSide

/-! ## Funding -/

/-- The part of a perp market that funding is about. -/
structure FundingMarket (N : Type) where
  impactQuantity : Int
  minFunding : N
  maxFunding : N
  longFunding : N
  shortFunding : N
  fundingLastUpdated : Nat
  openInterest : Int
  baseLotSize : Int
  quoteLotSize : Int
deriving DecidableEq

/-- The part of a perp position that funding is about. -/
structure FundingPosition (N : Type) where
  basePositionLots : Int
  longSettledFunding : N
  shortSettledFunding : N

section

variable {N : Type} [Arith N]

/-- The funding this position still needs to pay. -/
def FundingPosition.unsettledFunding (p : FundingPosition N) (m : FundingMarket N) : Exec N :=
  if 0 < p.basePositionLots then do
    Arith.mul (← Arith.sub m.longFunding p.longSettledFunding) (← Arith.ofInt p.basePositionLots)
  else if p.basePositionLots < 0 then do
    Arith.mul (← Arith.sub m.shortFunding p.shortSettledFunding) (← Arith.ofInt p.basePositionLots)
  else .ok 0

namespace FundingMarket

def lotToNativePrice (m : FundingMarket N) (price : Int) : Exec N := do
  let p ← Arith.mul (← Arith.ofInt price) (← Arith.ofInt m.quoteLotSize)
  Arith.div p (← Arith.ofInt m.baseLotSize)

def nativePriceToLot (m : FundingMarket N) (price : N) : Exec Int := do
  let p ← Arith.mul price (← Arith.ofInt m.baseLotSize)
  checkI64 (Arith.toInt (← Arith.div p (← Arith.ofInt m.quoteLotSize)))

/-- The funding rate for the impact prices of the two sides of the book. -/
def fundingRate (m : FundingMarket N) (oraclePrice : N) : Option Int → Option Int → Exec N
  | some bid, some ask => do
    let midPrice := (← checkI64 (bid + ask)).tdiv 2
    let bookPrice ← m.lotToNativePrice midPrice
    let diff ← Arith.sub (← Arith.div bookPrice oraclePrice) (← Arith.ofInt 1)
    Arith.clamp diff m.minFunding m.maxFunding
  | some _, none => .ok m.maxFunding
  | none, some _ => .ok m.minFunding
  | none, none => .ok 0

/-- The longest time that funding is applied for, in seconds. -/
def MAX_FUNDING_TIMESTEP : Nat := 3600

/-- Seconds in a day. -/
def DAY : Int := 86400

/-- The native quote that one base lot should pay in funding. -/
def fundingDelta (m : FundingMarket N) (oraclePrice fundingRate : N) (nowTs : Nat) : Exec N := do
  let diffTs ← Arith.ofInt (min (nowTs - m.fundingLastUpdated) MAX_FUNDING_TIMESTEP : Nat)
  let timeFactor ← Arith.div diffTs (← Arith.ofInt DAY)
  let lotPrice ← Arith.mul oraclePrice (← Arith.ofInt m.baseLotSize)
  Arith.mul (← Arith.mul lotPrice fundingRate) timeFactor

/-- Use the book price and the oracle price to update funding. -/
def updateFundingAndStablePrice (m : FundingMarket N) (book : Orderbook) (oraclePrice : N)
    (nowTs : Nat) : Exec (FundingMarket N) :=
  if nowTs ≤ m.fundingLastUpdated then .ok m
  else do
    let oraclePriceLots ← m.nativePriceToLot oraclePrice
    let bid ← (book.bookside .bid).impactPrice m.impactQuantity nowTs oraclePriceLots
    let ask ← (book.bookside .ask).impactPrice m.impactQuantity nowTs oraclePriceLots
    let rate ← m.fundingRate oraclePrice bid ask
    let delta ← m.fundingDelta oraclePrice rate nowTs
    let longFunding ← Arith.add m.longFunding delta
    let shortFunding ← Arith.add m.shortFunding delta
    return { m with longFunding, shortFunding, fundingLastUpdated := nowTs }

/-- Socialize a loss across all longs and shorts; the loss is at most zero. -/
def socializeLoss (m : FundingMarket N) (loss : N) : Exec (N × FundingMarket N) := do
  require (decide (loss ≤ 0)) .requireGteViolated
  let socializedLoss ← (if m.openInterest = 0 then .ok 0
    else do Arith.div loss (← Arith.ofInt m.openInterest) : Exec N)
  let longFunding ← Arith.sub m.longFunding socializedLoss
  let shortFunding ← Arith.add m.shortFunding socializedLoss
  return (socializedLoss, { m with longFunding, shortFunding })

end FundingMarket

end

/-! ## The market and the positions of the exchange -/

/-- Settings and time stamp of funding. -/
structure FundingConfig where
  impactQuantity : Int
  minFunding : I80F48
  maxFunding : I80F48
  fundingLastUpdated : Nat

def PerpMarket.fundingMarket (m : PerpMarket) (c : FundingConfig) : FundingMarket I80F48 where
  impactQuantity := c.impactQuantity
  minFunding := c.minFunding
  maxFunding := c.maxFunding
  longFunding := m.longFunding
  shortFunding := m.shortFunding
  fundingLastUpdated := c.fundingLastUpdated
  openInterest := m.openInterest
  baseLotSize := m.baseLotSize
  quoteLotSize := m.quoteLotSize

def PerpPosition.fundingPosition (p : PerpPosition) : FundingPosition I80F48 where
  basePositionLots := p.basePositionLots
  longSettledFunding := p.longSettledFunding
  shortSettledFunding := p.shortSettledFunding

/-- Both are the same function. -/
theorem PerpPosition.unsettledFunding_eq (p : PerpPosition) (m : PerpMarket) (c : FundingConfig) :
    p.unsettledFunding m = p.fundingPosition.unsettledFunding (m.fundingMarket c) := rfl

end MangoV4
