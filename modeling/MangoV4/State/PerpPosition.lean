/-
  MangoV4.State.PerpPosition

  A perp position (`mango_account_components.rs`).

  The fields kept for display only (average entry price, running quote,
  realized and cumulative amounts) are left out; no check reads them.  What
  the other fields count is the subject of several results, so every function
  comes with a lemma about its effect on `ledger`, the lots and base amounts.
-/

import MangoV4.State.PerpMarket
import MangoV4.Lib.FixedRat

namespace MangoV4

open Lib Lib.Exec

structure PerpPosition where
  marketIndex : PerpMarketIndex
  /-- Index of the current settle pnl limit window. -/
  settlePnlLimitWindow : Nat
  settlePnlLimitSettledInCurrentWindowNative : Int
  basePositionLots : Int
  quotePositionNative : I80F48
  longSettledFunding : I80F48
  shortSettledFunding : I80F48
  /-- Base lots in open bids. -/
  bidsBaseLots : Int
  /-- Base lots in open asks. -/
  asksBaseLots : Int
  /-- Base lots on the event queue waiting to be processed. -/
  takerBaseLots : Int
  /-- Quote lots on the event queue waiting to be processed. -/
  takerQuoteLots : Int
  makerVolume : Nat
  takerVolume : Nat
  oneshotSettlePnlAllowance : I80F48
  recurringSettlePnlAllowance : Int
deriving DecidableEq

/-- `i64::abs` -/
def absI64 (x : Int) : Exec Int := checkI64 |x|

/-- `I80F48::clamp_to_i64` -/
def clampToI64 (x : I80F48) : Int := max I64_MIN (min I64_MAX x.toInt)

namespace PerpPosition

def default : PerpPosition where
  marketIndex := FREE_ORDER_SLOT
  settlePnlLimitWindow := 0
  settlePnlLimitSettledInCurrentWindowNative := 0
  basePositionLots := 0
  quotePositionNative := .zero
  longSettledFunding := .zero
  shortSettledFunding := .zero
  bidsBaseLots := 0
  asksBaseLots := 0
  takerBaseLots := 0
  takerQuoteLots := 0
  makerVolume := 0
  takerVolume := 0
  oneshotSettlePnlAllowance := .zero
  recurringSettlePnlAllowance := 0

def isActive (p : PerpPosition) : Bool := decide (p.marketIndex ≠ FREE_ORDER_SLOT)

def isActiveForMarket (marketIndex : PerpMarketIndex) (p : PerpPosition) : Bool :=
  decide (p.marketIndex = marketIndex)

/-! ## Taker and maker lots -/

/-- A taker trade was matched but is still to be processed on the event queue. -/
def addTakerTrade (p : PerpPosition) (side : Side) (baseLots quoteLots : Int) :
    Exec PerpPosition :=
  match side with
  | .bid => do
    return { p with
      takerBaseLots := ← checkI64 (p.takerBaseLots + baseLots)
      takerQuoteLots := ← checkI64 (p.takerQuoteLots - quoteLots) }
  | .ask => do
    return { p with
      takerBaseLots := ← checkI64 (p.takerBaseLots - baseLots)
      takerQuoteLots := ← checkI64 (p.takerQuoteLots + quoteLots) }

/-- The taker trade has been processed on the event queue. -/
def removeTakerTrade (p : PerpPosition) (baseChange quoteChange : Int) : Exec PerpPosition := do
  return { p with
    takerBaseLots := ← checkI64 (p.takerBaseLots - baseChange)
    takerQuoteLots := ← checkI64 (p.takerQuoteLots - quoteChange) }

def adjustMakerLots (p : PerpPosition) (side : Side) (baseLots : Int) : Exec PerpPosition :=
  match side with
  | .bid => do return { p with bidsBaseLots := ← checkI64 (p.bidsBaseLots + baseLots) }
  | .ask => do return { p with asksBaseLots := ← checkI64 (p.asksBaseLots + baseLots) }

def hasOpenTakerFills (p : PerpPosition) : Bool :=
  decide (p.takerBaseLots ≠ 0 ∨ p.takerQuoteLots ≠ 0)

/-! ## Base and quote -/

def basePositionNative (p : PerpPosition) (market : PerpMarket) : Exec I80F48 := do
  Fixed.ofInt (← checkI64 (p.basePositionLots * market.baseLotSize))

def changeBasePosition (p : PerpPosition) (market : PerpMarket) (baseChange : Int) :
    Exec (PerpPosition × PerpMarket) := do
  let basePositionLots ← checkI64 (p.basePositionLots + baseChange)
  let change ← checkI64 ((← absI64 basePositionLots) - (← absI64 p.basePositionLots))
  let openInterest ← checkI64 (market.openInterest + change)
  return ({ p with basePositionLots }, { market with openInterest })

def changeQuotePosition (p : PerpPosition) (change : I80F48) : Exec PerpPosition := do
  return { p with quotePositionNative := ← p.quotePositionNative.add change }

/-- The funding this position still needs to pay, in native quote. -/
def unsettledFunding (p : PerpPosition) (market : PerpMarket) : Exec I80F48 :=
  if 0 < p.basePositionLots then do
    (← market.longFunding.sub p.longSettledFunding).mul (← Fixed.ofInt p.basePositionLots)
  else if p.basePositionLots < 0 then do
    (← market.shortFunding.sub p.shortSettledFunding).mul (← Fixed.ofInt p.basePositionLots)
  else .ok .zero

/-- Move unrealized funding payments into the quote position. -/
def settleFunding (p : PerpPosition) (market : PerpMarket) : Exec PerpPosition := do
  let funding ← p.unsettledFunding market
  return { p with
    quotePositionNative := ← p.quotePositionNative.sub funding
    oneshotSettlePnlAllowance := ← p.oneshotSettlePnlAllowance.sub funding
    longSettledFunding := market.longFunding
    shortSettledFunding := market.shortFunding }

def unsettledPnl (p : PerpPosition) (market : PerpMarket) (price : I80F48) : Exec I80F48 := do
  require (decide (p.marketIndex = market.perpMarketIndex)) .requireEqViolated
  let baseNative ← p.basePositionNative market
  p.quotePositionNative.add (← baseNative.mul price)

/-- How many lots a base change takes away from the position, and how many it adds. -/
def reducedIncreased (oldPosition baseChange : Int) : Int × Int :=
  let newPosition := oldPosition + baseChange
  if newPosition = 0 then (|oldPosition|, 0)
  else if oldPosition.sign ≠ newPosition.sign then (|oldPosition|, |newPosition|)
  else if oldPosition.sign = baseChange.sign then (0, |baseChange|)
  else (|baseChange|, 0)

/-- The recurring settle allowance after a base change: the settle limit of the
    lots that leave the position is added, that of lots that join it is taken away. -/
def allowanceAfterTrade (p : PerpPosition) (baseChange : Int) (market : PerpMarket) : Exec Int := do
  let _ ← checkI64 (p.basePositionLots + baseChange)
  let (reducedLots, increasedLots) := reducedIncreased p.basePositionLots baseChange
  let _ ← checkI64 reducedLots
  let _ ← checkI64 increasedLots
  let netBaseIncrease ← checkI64 (increasedLots - reducedLots)
  let allowance ← absI64 p.recurringSettlePnlAllowance
  let native ← Fixed.ofInt (← checkI64 (netBaseIncrease * market.baseLotSize))
  let limit ← (← native.mul market.stablePrice).mul market.settlePnlLimitFactor
  let allowance ← checkI64 (allowance - clampToI64 limit)
  return max allowance 0

def updateTradeStats (p : PerpPosition) (baseChange : Int) (market : PerpMarket) :
    Exec PerpPosition :=
  if baseChange = 0 then .ok p
  else do return { p with recurringSettlePnlAllowance := ← p.allowanceAfterTrade baseChange market }

/-- The recurring allowance never exceeds the unsettled pnl at the stable
    price.  Also returns the change of the allowance. -/
def applyRecurringSettlePnlAllowanceConstraint (p : PerpPosition) (market : PerpMarket) :
    Exec (Int × PerpPosition) := do
  let before ← absI64 p.recurringSettlePnlAllowance
  let upnl ← unwrapResult (p.unsettledPnl market market.stablePrice)
  let upnlAbs ← checkI64 (← upnl.abs).ceilInt
  let allowance := max (min before upnlAbs) 0
  return (← checkI64 (allowance - before), { p with recurringSettlePnlAllowance := allowance })

/-- Change the base and quote position as the result of a trade. -/
def recordTrade (p : PerpPosition) (market : PerpMarket) (baseChange : Int)
    (quoteChangeNative : I80F48) : Exec (PerpPosition × PerpMarket) := do
  assert (decide (market.perpMarketIndex = p.marketIndex))
  let p ← p.updateTradeStats baseChange market
  let (p, market) ← p.changeBasePosition market baseChange
  let p ← p.changeQuotePosition quoteChangeNative
  let (_, p) ← p.applyRecurringSettlePnlAllowanceConstraint market
  return (p, market)

/-- A maker or taker fee payment. -/
def recordTradingFee (p : PerpPosition) (fee : I80F48) : Exec PerpPosition := do
  let p ← p.changeQuotePosition (← fee.neg)
  return { p with oneshotSettlePnlAllowance := ← p.oneshotSettlePnlAllowance.sub fee }

/-- A fill of the position's resting order on `side`: the filled lots are no
    longer in open orders. -/
def recordMakerFill (p : PerpPosition) (market : PerpMarket) (side : Side) (baseChange : Int)
    (quote fees : I80F48) : Exec (PerpPosition × PerpMarket) := do
  let p ← p.settleFunding market
  let p ← p.recordTradingFee fees
  let (p, market) ← p.recordTrade market baseChange quote
  let makerVolume ← checkU64 (p.makerVolume + (← (← quote.abs).toU64))
  -- early cancels only release what was on the book, so this is always needed
  let p ← { p with makerVolume }.adjustMakerLots side (← checkI64 (-(← absI64 baseChange)))
  return (p, market)

/-- A fill the position has taken, its fees already paid. -/
def recordTakerFill (p : PerpPosition) (market : PerpMarket) (baseChange quoteChange : Int) :
    Exec (PerpPosition × PerpMarket) := do
  let p ← p.settleFunding market
  let p ← p.removeTakerTrade baseChange quoteChange
  let quote ← Fixed.mul (← Fixed.ofInt market.quoteLotSize) (← Fixed.ofInt quoteChange)
  let (p, market) ← p.recordTrade market baseChange quote
  let takerVolume ← checkU64 (p.takerVolume + (← (← quote.abs).toU64))
  return ({ p with takerVolume }, market)

/-! ## Settling -/

/-- Resets the amount of used settle-pnl budget when a new window starts. -/
def updateSettleLimit (p : PerpPosition) (market : PerpMarket) (nowTs : Nat) :
    Exec PerpPosition := do
  assert (decide (p.marketIndex = market.perpMarketIndex))
  let windowSize := market.settlePnlLimitWindowSizeTs
  let windowStart ← checkU64 (p.settlePnlLimitWindow * windowSize)
  let windowEnd ← checkU64 (windowStart + windowSize)
  if windowEnd ≤ nowTs ∨ nowTs < windowStart then
    if windowSize = 0 then panic .divideByZero
    else
      let window := nowTs / windowSize
      let settlePnlLimitWindow ← unwrap (if window < 2 ^ 32 then some window else none)
      return { p with
        settlePnlLimitWindow, settlePnlLimitSettledInCurrentWindowNative := 0 }
  else return p

/-- Update the perp position for pnl settlement: a positive amount is deducted
    from the quote position. -/
def recordSettle (p : PerpPosition) (settledPnl : I80F48) (market : PerpMarket) :
    Exec PerpPosition := do
  let p ← p.changeQuotePosition (← settledPnl.neg)
  let oneshotReduction :=
    if .zero < settledPnl then (settledPnl.min p.oneshotSettlePnlAllowance).max .zero
    else (settledPnl.max p.oneshotSettlePnlAllowance).min .zero
  let p := { p with
    oneshotSettlePnlAllowance := ← p.oneshotSettlePnlAllowance.sub oneshotReduction }
  let used := (← settledPnl.sub oneshotReduction).truncInt
  let used := max I64_MIN (min I64_MAX used)
  let (change, p) ← p.applyRecurringSettlePnlAllowanceConstraint market
  -- a shrinking recurring allowance already reduces the budget
  let used ← (if change < 0 then
      if 0 < used then do return max (← checkI64 (used + change)) 0
      else do return min (← checkI64 (used - change)) 0
    else .ok used : Exec Int)
  let used ← checkI64 (p.settlePnlLimitSettledInCurrentWindowNative + used)
  return { p with settlePnlLimitSettledInCurrentWindowNative := used }

/-- Value of the base position at the stable price. -/
def stableValue (p : PerpPosition) (market : PerpMarket) : Exec I80F48 := do
  market.stablePrice.mul (← p.basePositionNative market)

/-- The `(min_pnl, max_pnl)` range of pnl that can be settled this window: a
    fraction of the stable value of the base position and the stored recurring
    allowance in both directions, the oneshot allowance in one.

    `product` is the `f64` product of the limit factor and the value, clamped
    to `i64`. -/
def settleLimit (product : I80F48 → I80F48 → Int) (p : PerpPosition) (market : PerpMarket) :
    Exec (Int × Int) := do
  assert (decide (p.marketIndex = market.perpMarketIndex))
  if market.settlePnlLimitFactor < .zero then return (I64_MIN, I64_MAX)
  else
    let positionValue ← p.stableValue market
    let unrealized := product market.settlePnlLimitFactor (← positionValue.abs)
    let upnlAbs ← checkI64 (← (← p.quotePositionNative.add positionValue).abs).ceilInt
    -- the same cap as in `applyRecurringSettlePnlAllowanceConstraint`
    let maxPnl ← checkI64 (unrealized + min (← absI64 p.recurringSettlePnlAllowance) upnlAbs)
    let minPnl ← checkI64 (-maxPnl)
    let oneshot := p.oneshotSettlePnlAllowance
    if .zero ≤ oneshot then
      return (min minPnl 0, max (saturatingAddI64 maxPnl (clampToI64 (← oneshot.ceil))) 0)
    else
      return (min (saturatingAddI64 minPnl (clampToI64 (← oneshot.floor))) 0, max maxPnl 0)

/-- The range of pnl that may still be settled this window. -/
def availableSettleLimit (product : I80F48 → I80F48 → Int) (p : PerpPosition)
    (market : PerpMarket) : Exec (Int × Int) := do
  assert (decide (p.marketIndex = market.perpMarketIndex))
  if market.settlePnlLimitFactor < .zero then return (I64_MIN, I64_MAX)
  else
    let (minPnl, maxPnl) ← p.settleLimit product market
    let used := p.settlePnlLimitSettledInCurrentWindowNative
    return (min (saturatingSubI64 minPnl used) 0, max (saturatingSubI64 maxPnl used) 0)

/-- The part of a pnl that the settle limit allows. -/
def applyPnlSettleLimit (product : I80F48 → I80F48 → Int) (p : PerpPosition)
    (market : PerpMarket) (pnl : I80F48) : Exec I80F48 :=
  if market.settlePnlLimitFactor < .zero then .ok pnl
  else do
    let (minPnl, maxPnl) ← p.availableSettleLimit product market
    if pnl < .zero then return pnl.max (← Fixed.ofInt minPnl)
    else return pnl.min (← Fixed.ofInt maxPnl)

/-- A quote change by liquidation can be settled at once. -/
def recordLiquidationQuoteChange (p : PerpPosition) (change : I80F48) : Exec PerpPosition := do
  let p ← p.changeQuotePosition change
  return { p with oneshotSettlePnlAllowance := ← p.oneshotSettlePnlAllowance.add change }

/-- The liquidator takes over pnl and a part of the settle limit. -/
def recordLiquidationPnlTakeover (p : PerpPosition) (change : I80F48)
    (recurringLimit oneshotLimit : Int) : Exec PerpPosition := do
  let p ← p.changeQuotePosition change
  return { p with
    recurringSettlePnlAllowance := ← checkI64 (p.recurringSettlePnlAllowance + recurringLimit)
    oneshotSettlePnlAllowance := ← p.oneshotSettlePnlAllowance.add (← Fixed.ofInt oneshotLimit) }

end PerpPosition

/-! ## What the position counts -/

/-- The lots and base amounts of a position. -/
@[ext]
structure Ledger where
  bids : Int
  asks : Int
  takerBase : Int
  takerQuote : Int
  base : Int
deriving DecidableEq

namespace Ledger

def zero : Ledger := ⟨0, 0, 0, 0, 0⟩

/-- Base lots in open orders of a side. -/
def maker (l : Ledger) : Side → Int
  | .bid => l.bids
  | .ask => l.asks

def addMaker (l : Ledger) (side : Side) (x : Int) : Ledger :=
  match side with
  | .bid => { l with bids := l.bids + x }
  | .ask => { l with asks := l.asks + x }

/-- Base and quote changes that wait on the event queue. -/
def addTaker (l : Ledger) (change : Int × Int) : Ledger :=
  { l with takerBase := l.takerBase + change.1, takerQuote := l.takerQuote + change.2 }

def addBase (l : Ledger) (x : Int) : Ledger := { l with base := l.base + x }

variable (l : Ledger)

@[simp] theorem maker_zero (side : Side) : zero.maker side = 0 := by cases side <;> rfl

theorem maker_addMaker (side side' : Side) (x : Int) :
    (l.addMaker side x).maker side' = l.maker side' + if side' = side then x else 0 := by
  cases side <;> cases side' <;> simp [addMaker, maker]

@[simp] theorem maker_addTaker (change : Int × Int) (side : Side) :
    (l.addTaker change).maker side = l.maker side := by cases side <;> rfl

@[simp] theorem maker_addBase (x : Int) (side : Side) :
    (l.addBase x).maker side = l.maker side := by cases side <;> rfl

@[simp] theorem addMaker_zero (side : Side) : l.addMaker side 0 = l := by
  cases side <;> simp [addMaker]

/-- Base and quote change that wait on the event queue. -/
def taker : Int × Int := (l.takerBase, l.takerQuote)

@[simp] theorem taker_zero : zero.taker = 0 := rfl

@[simp] theorem taker_addTaker (change : Int × Int) :
    (l.addTaker change).taker = l.taker + change := rfl

@[simp] theorem taker_addMaker (side : Side) (x : Int) : (l.addMaker side x).taker = l.taker := by
  cases side <;> rfl

@[simp] theorem taker_addBase (x : Int) : (l.addBase x).taker = l.taker := rfl

@[simp] theorem base_zero : zero.base = 0 := rfl

@[simp] theorem base_addBase (x : Int) : (l.addBase x).base = l.base + x := rfl

@[simp] theorem base_addMaker (side : Side) (x : Int) : (l.addMaker side x).base = l.base := by
  cases side <;> rfl

@[simp] theorem base_addTaker (change : Int × Int) : (l.addTaker change).base = l.base := rfl

@[simp] theorem addTaker_zero : l.addTaker 0 = l := by simp [addTaker]

theorem addTaker_addTaker (c c' : Int × Int) :
    (l.addTaker c).addTaker c' = l.addTaker (c + c') := by
  simp [addTaker, Int.add_assoc]

end Ledger

/-- The market after a position counts `l'` instead of `l`. -/
@[simps]
def PerpMarket.track (market : PerpMarket) (l l' : Ledger) : PerpMarket :=
  { market with openInterest := market.openInterest + (|l'.base| - |l.base|) }

/-- Base and quote change of a taker trade on `side`. -/
def takerChange : Side → Int → Int → Int × Int
  | .bid, baseLots, quoteLots => (baseLots, -quoteLots)
  | .ask, baseLots, quoteLots => (-baseLots, quoteLots)

namespace PerpPosition

def ledger (p : PerpPosition) : Ledger where
  bids := p.bidsBaseLots
  asks := p.asksBaseLots
  takerBase := p.takerBaseLots
  takerQuote := p.takerQuoteLots
  base := p.basePositionLots

/-- `p'` is `p` with another ledger, and belongs to the same market. -/
def Moves (p p' : PerpPosition) (l : Ledger) : Prop :=
  p'.marketIndex = p.marketIndex ∧ p'.ledger = l

/-- `p'` counts what `p` does. -/
abbrev Keeps (p p' : PerpPosition) : Prop := p.Moves p' p.ledger

theorem Keeps.trans {p p₁ p₂ : PerpPosition} {l : Ledger} (h : p.Keeps p₁) (h' : p₁.Moves p₂ l) :
    p.Moves p₂ l :=
  ⟨h'.1.trans h.1, h'.2⟩

theorem Moves.keeps {p p₁ p₂ : PerpPosition} {l : Ledger} (h : p.Moves p₁ l) (h' : p₁.Keeps p₂) :
    p.Moves p₂ l :=
  ⟨h'.1.trans h.1, h'.2.trans h.2⟩

/-- `p'` counts `l`, has `x` more in quote than `p`, and the same funding markers. -/
def Books (p p' : PerpPosition) (l : Ledger) (x : ℚ) : Prop :=
  p.Moves p' l ∧ p'.quotePositionNative.toRat = p.quotePositionNative.toRat + x ∧
    p'.longSettledFunding = p.longSettledFunding ∧ p'.shortSettledFunding = p.shortSettledFunding

section Books

variable {p p' p₁ : PerpPosition} {market market' : PerpMarket} {side : Side} {baseChange : Int}
  {l l' : Ledger} {x y : ℚ}

theorem Books.trans (h : p.Books p₁ l x) (h' : p₁.Books p' l' y) : p.Books p' l' (x + y) :=
  ⟨⟨h'.1.1.trans h.1.1, h'.1.2⟩, by rw [h'.2.1, h.2.1, add_assoc], h'.2.2.1.trans h.2.2.1,
    h'.2.2.2.trans h.2.2.2⟩

/-- What a function does that leaves the quote position and the markers alone. -/
theorem Moves.books (h : p.Moves p' l) (hquote : p'.quotePositionNative = p.quotePositionNative)
    (hlong : p'.longSettledFunding = p.longSettledFunding)
    (hshort : p'.shortSettledFunding = p.shortSettledFunding) : p.Books p' l 0 :=
  ⟨h, by rw [hquote, add_zero], hlong, hshort⟩

theorem addTakerTrade_books {baseLots quoteLots : Int}
    (h : p.addTakerTrade side baseLots quoteLots = .ok p') :
    p.Books p' (p.ledger.addTaker (takerChange side baseLots quoteLots)) 0 := by
  cases side with
  | bid =>
    obtain ⟨b, hb, h⟩ := of_bind h
    obtain ⟨q, hq, h⟩ := of_bind h
    obtain ⟨-, rfl⟩ := checkI64_eq_ok.mp hb
    obtain ⟨-, rfl⟩ := checkI64_eq_ok.mp hq
    obtain rfl := ok_inj h
    exact Moves.books ⟨rfl, rfl⟩ rfl rfl rfl
  | ask =>
    obtain ⟨b, hb, h⟩ := of_bind h
    obtain ⟨q, hq, h⟩ := of_bind h
    obtain ⟨-, rfl⟩ := checkI64_eq_ok.mp hb
    obtain ⟨-, rfl⟩ := checkI64_eq_ok.mp hq
    obtain rfl := ok_inj h
    exact Moves.books ⟨rfl, rfl⟩ rfl rfl rfl

theorem removeTakerTrade_books {quoteChange : Int}
    (h : p.removeTakerTrade baseChange quoteChange = .ok p') :
    p.Books p' (p.ledger.addTaker (-baseChange, -quoteChange)) 0 := by
  obtain ⟨b, hb, h⟩ := of_bind h
  obtain ⟨q, hq, h⟩ := of_bind h
  obtain ⟨-, rfl⟩ := checkI64_eq_ok.mp hb
  obtain ⟨-, rfl⟩ := checkI64_eq_ok.mp hq
  obtain rfl := ok_inj h
  exact Moves.books ⟨rfl, rfl⟩ rfl rfl rfl

theorem adjustMakerLots_books {baseLots : Int} (h : p.adjustMakerLots side baseLots = .ok p') :
    p.Books p' (p.ledger.addMaker side baseLots) 0 := by
  cases side with
  | bid =>
    obtain ⟨-, h⟩ := of_checkI64 h
    obtain rfl := ok_inj h
    exact Moves.books ⟨rfl, rfl⟩ rfl rfl rfl
  | ask =>
    obtain ⟨-, h⟩ := of_checkI64 h
    obtain rfl := ok_inj h
    exact Moves.books ⟨rfl, rfl⟩ rfl rfl rfl

theorem changeBasePosition_books (h : p.changeBasePosition market baseChange = .ok (p', market')) :
    p.Books p' (p.ledger.addBase baseChange) 0 ∧ market' = market.track p.ledger p'.ledger := by
  obtain ⟨b, hb, h⟩ := of_bind h
  obtain ⟨x, hx, h⟩ := of_bind h
  obtain ⟨y, hy, h⟩ := of_bind h
  obtain ⟨c, hc, h⟩ := of_bind h
  obtain ⟨o, ho, h⟩ := of_bind h
  obtain ⟨-, rfl⟩ := checkI64_eq_ok.mp hb
  obtain ⟨-, rfl⟩ := checkI64_eq_ok.mp hx
  obtain ⟨-, rfl⟩ := checkI64_eq_ok.mp hy
  obtain ⟨-, rfl⟩ := checkI64_eq_ok.mp hc
  obtain ⟨-, rfl⟩ := checkI64_eq_ok.mp ho
  obtain ⟨rfl, rfl⟩ := ok_inj₂ h
  exact ⟨Moves.books ⟨rfl, rfl⟩ rfl rfl rfl, rfl⟩

theorem changeQuotePosition_books {change : I80F48}
    (h : p.changeQuotePosition change = .ok p') : p.Books p' p.ledger change.toRat := by
  obtain ⟨q, hq, h⟩ := of_bind h
  obtain rfl := ok_inj h
  exact ⟨⟨rfl, rfl⟩, Fixed.toRat_add hq, rfl, rfl⟩

theorem settleFunding_keeps (h : p.settleFunding market = .ok p') : p.Keeps p' := by
  obtain ⟨f, -, h⟩ := of_bind h
  obtain ⟨q, -, h⟩ := of_bind h
  obtain ⟨o, -, h⟩ := of_bind h
  obtain rfl := ok_inj h
  exact ⟨rfl, rfl⟩

theorem updateTradeStats_books
    (h : p.updateTradeStats baseChange market = .ok p') : p.Books p' p.ledger 0 := by
  unfold updateTradeStats at h
  split at h
  · obtain rfl := ok_inj h
    exact Moves.books ⟨rfl, rfl⟩ rfl rfl rfl
  · obtain ⟨a, -, h⟩ := of_bind h
    obtain rfl := ok_inj h
    exact Moves.books ⟨rfl, rfl⟩ rfl rfl rfl

theorem applyConstraint_books {change : Int}
    (h : p.applyRecurringSettlePnlAllowanceConstraint market = .ok (change, p')) :
    p.Books p' p.ledger 0 := by
  obtain ⟨_, -, h⟩ := of_bind h
  obtain ⟨_, -, h⟩ := of_bind h
  obtain ⟨_, -, h⟩ := of_bind h
  obtain ⟨_, -, h⟩ := of_bind h
  obtain ⟨_, -, h⟩ := of_bind h
  obtain ⟨-, rfl⟩ := ok_inj₂ h
  exact Moves.books ⟨rfl, rfl⟩ rfl rfl rfl

/-- A trade moves the base position and nothing else that is counted. -/
theorem recordTrade_books {quoteChange : I80F48}
    (h : p.recordTrade market baseChange quoteChange = .ok (p', market')) :
    p.Books p' (p.ledger.addBase baseChange) quoteChange.toRat ∧
      market' = market.track p.ledger p'.ledger := by
  obtain ⟨_, -, h⟩ := of_bind h
  obtain ⟨p₁, hstats, h⟩ := of_bind h
  obtain ⟨⟨p₂, m₂⟩, hbase, h⟩ := of_bind h
  obtain ⟨p₃, hquote, h⟩ := of_bind h
  obtain ⟨⟨c, p₄⟩, hconstraint, h⟩ := of_bind h
  obtain ⟨rfl, rfl⟩ := ok_inj₂ h
  have h₁ := updateTradeStats_books hstats
  obtain ⟨h₂, hmarket⟩ := changeBasePosition_books hbase
  have h₄ := (changeQuotePosition_books hquote).trans (applyConstraint_books hconstraint)
  have hbooks := (h₁.trans h₂).trans h₄
  rw [(changeQuotePosition_books hquote).1.2, h₂.1.2, h₁.1.2, zero_add, zero_add, add_zero] at hbooks
  refine ⟨hbooks, ?_⟩
  rw [hmarket, hbooks.1.2, h₂.1.2, h₁.1.2]

theorem recordTradingFee_books {fee : I80F48} (h : p.recordTradingFee fee = .ok p') :
    p.Books p' p.ledger (-fee.toRat) := by
  obtain ⟨n, hn, h⟩ := of_bind h
  obtain ⟨p₁, hquote, h⟩ := of_bind h
  obtain ⟨o, -, h⟩ := of_bind h
  obtain rfl := ok_inj h
  have h₁ := changeQuotePosition_books hquote
  rw [Fixed.toRat_neg hn] at h₁
  exact h₁

theorem updateSettleLimit_books {nowTs : Nat} (h : p.updateSettleLimit market nowTs = .ok p') :
    p.Books p' p.ledger 0 := by
  obtain ⟨_, -, h⟩ := of_bind h
  obtain ⟨_, -, h⟩ := of_bind h
  obtain ⟨_, -, h⟩ := of_bind h
  split at h
  · split at h
    · cases h
    · obtain ⟨_, -, h⟩ := of_bind h
      obtain rfl := ok_inj h
      exact Moves.books ⟨rfl, rfl⟩ rfl rfl rfl
  · obtain rfl := ok_inj h
    exact Moves.books ⟨rfl, rfl⟩ rfl rfl rfl

theorem recordSettle_books {settledPnl : I80F48}
    (h : p.recordSettle settledPnl market = .ok p') : p.Books p' p.ledger (-settledPnl.toRat) := by
  obtain ⟨n, hn, h⟩ := of_bind h
  obtain ⟨p₁, hquote, h⟩ := of_bind h
  obtain ⟨_, -, h⟩ := of_bind h
  obtain ⟨_, -, h⟩ := of_bind h
  obtain ⟨⟨c, p₂⟩, hconstraint, h⟩ := of_bind h
  obtain ⟨_, -, h⟩ := of_bind h
  obtain ⟨_, -, h⟩ := of_bind h
  obtain rfl := ok_inj h
  have h₁ := changeQuotePosition_books hquote
  have h₂ := applyConstraint_books hconstraint
  have hbooks : p.Books p₂ p₁.ledger (n.toRat + 0) := Books.trans h₁ h₂
  rw [h₁.1.2, Fixed.toRat_neg hn, add_zero] at hbooks
  exact hbooks

theorem recordLiquidationPnlTakeover_books {change : I80F48} {recurringLimit oneshotLimit : Int}
    (h : p.recordLiquidationPnlTakeover change recurringLimit oneshotLimit = .ok p') :
    p.Books p' p.ledger change.toRat := by
  obtain ⟨p₁, hquote, h⟩ := of_bind h
  obtain ⟨recurring, -, h⟩ := of_bind h
  obtain ⟨_, -, h⟩ := of_bind h
  obtain ⟨oneshot, -, h⟩ := of_bind h
  obtain rfl := ok_inj h
  have h₁ := changeQuotePosition_books hquote
  exact h₁

end Books

end PerpPosition

end MangoV4
