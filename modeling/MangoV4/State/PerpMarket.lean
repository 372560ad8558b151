/-
  MangoV4.State.PerpMarket

  The configuration and counters of a perp market (`perp_market.rs`) that
  orders, fills and positions use.

  Floating-point configuration (`fee_penalty`, `settle_pnl_limit_factor`, the
  stable price) is only ever converted to `I80F48` before it is used here, so
  the fields hold the converted values.
-/

import MangoV4.Orderbook.Queue

namespace MangoV4

open Lib Lib.Exec

/-- `u16` -/
abbrev PerpMarketIndex := Nat

/-- `u16` -/
abbrev TokenIndex := Nat

/-- The index of no market: open-order slots and positions with it are free. -/
def FREE_ORDER_SLOT : PerpMarketIndex := 2 ^ 16 - 1

structure PerpMarket where
  perpMarketIndex : PerpMarketIndex
  settleTokenIndex : TokenIndex
  quoteLotSize : Int
  baseLotSize : Int
  maintBaseAssetWeight : I80F48
  initBaseAssetWeight : I80F48
  maintBaseLiabWeight : I80F48
  initBaseLiabWeight : I80F48
  openInterest : Int
  /-- Number of orders placed so far. -/
  seqNum : Nat
  longFunding : I80F48
  shortFunding : I80F48
  makerFee : I80F48
  takerFee : I80F48
  feesAccrued : I80F48
  accruedLiquidationFees : I80F48
  feePenalty : I80F48
  stablePrice : I80F48
  settlePnlLimitFactor : I80F48
  settlePnlLimitWindowSizeTs : Nat
  baseLiquidationFee : I80F48
  platformLiquidationFee : I80F48
  reduceOnly : Bool

namespace PerpMarket

/-- The id of the next order. -/
def genOrderId (m : PerpMarket) (side : Side) (priceData : BitVec 64) : Exec (Key × PerpMarket) := do
  let seqNum ← checkU64 (m.seqNum + 1)
  return (newNodeKey side priceData (BitVec.ofNat 64 seqNum), { m with seqNum })

/-- From the price stored on the book to the price used in value calculations. -/
def lotToNativePrice (m : PerpMarket) (price : Int) : Exec I80F48 := do
  let p ← (← Fixed.ofInt price).mul (← Fixed.ofInt m.quoteLotSize)
  p.div (← Fixed.ofInt m.baseLotSize)

def nativePriceToLot (m : PerpMarket) (price : I80F48) : Exec Int := do
  let p ← price.mul (← Fixed.ofInt m.baseLotSize)
  (← p.div (← Fixed.ofInt m.quoteLotSize)).toI64

/-- Is `nativePrice` an acceptable order for the side, given the oracle price? -/
def insidePriceLimit (m : PerpMarket) (side : Side) (nativePrice oraclePrice : I80F48) :
    Exec Bool :=
  match side with
  | .bid => do return decide (nativePrice ≤ (← m.maintBaseLiabWeight.mul oraclePrice))
  | .ask => do return decide ((← m.maintBaseAssetWeight.mul oraclePrice) ≤ nativePrice)

/-- Generating an id counts the order and changes nothing else. -/
theorem genOrderId_eq_ok {m m' : PerpMarket} {side : Side} {priceData : BitVec 64} {id : Key}
    (h : m.genOrderId side priceData = .ok (id, m')) :
    m.seqNum + 1 < 2 ^ 64 ∧
      id = newNodeKey side priceData (BitVec.ofNat 64 (m.seqNum + 1)) ∧
      m' = { m with seqNum := m.seqNum + 1 } := by
  obtain ⟨hlt, h⟩ := of_checkU64 h
  obtain ⟨rfl, rfl⟩ := ok_inj₂ h
  exact ⟨hlt, rfl, rfl⟩

end PerpMarket

end MangoV4
