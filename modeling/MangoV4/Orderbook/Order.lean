/-
  MangoV4.Orderbook.Order

  The two sides of a book and the parameters of a new order (`order.rs`): its
  limit price, the price data it would be stored with, and where it may rest.
-/

import MangoV4.Orderbook.BookSideOrders

namespace MangoV4

open Lib Lib.Exec

/-- The bids and asks of a market. -/
structure Orderbook where
  bids : BookSide
  asks : BookSide

namespace Orderbook

def bookside (book : Orderbook) : Side → BookSide
  | .bid => book.bids
  | .ask => book.asks

/-- Writes through the reference that `bookside_mut` returns. -/
def setBookside (book : Orderbook) (side : Side) (b : BookSide) : Orderbook :=
  match side with
  | .bid => { book with bids := b }
  | .ask => { book with asks := b }

@[simp] theorem bookside_setBookside_self (book : Orderbook) (side : Side) (b : BookSide) :
    (book.setBookside side b).bookside side = b := by
  cases side <;> rfl

@[simp] theorem bookside_setBookside_invert (book : Orderbook) (side : Side) (b : BookSide) :
    (book.setBookside side b).bookside side.invertSide = book.bookside side.invertSide := by
  cases side <;> rfl

@[simp] theorem bookside_setBookside_of_invert (book : Orderbook) (side : Side) (b : BookSide) :
    (book.setBookside side.invertSide b).bookside side = book.bookside side := by
  cases side <;> rfl

/-- Both sides are well formed and of their type. -/
def WellFormed (book : Orderbook) : Prop :=
  ∀ side, (book.bookside side).WellFormed ∧ (book.bookside side).side = side

end Orderbook

namespace BookSide

/-- The first valid item an iterator yields. -/
def firstValid (t : OrderTreeNodes) : Nat → BookSideIter → Exec (Option BookSideIterItem)
  | 0, _ => diverge
  | fuel + 1, it => do
    match ← it.next t with
    | (none, _) => return none
    | (some item, it) => if item.isValid then return some item else firstValid t fuel it

/-- The price of the order closest to the spread. -/
def bestPrice (b : BookSide) (nowTs : Nat) (oraclePriceLots : Int) : Exec (Option Int) := do
  let it ← b.iterAllIncludingInvalid nowTs oraclePriceLots
  let item ← firstValid b.nodes (2 * MAX_ORDERTREE_NODES) it
  return item.map BookSideIterItem.priceLots

end BookSide

/-- `i64` -/
abbrev I64 := { x : Int // I64_MIN ≤ x ∧ x ≤ I64_MAX }

theorem ten_fits : I64_MIN ≤ 10 ∧ 10 ≤ I64_MAX := by decide

theorem twenty_fits : I64_MIN ≤ 20 ∧ 20 ≤ I64_MAX := by decide

inductive OrderParams where
  | market
  | immediateOrCancel (priceLots : I64)
  | fixed (priceLots : I64) (orderType : PostOrderType)
  | oraclePegged (priceOffsetLots : I64) (orderType : PostOrderType) (pegLimit : I64)
deriving DecidableEq, Repr

/-- Perp order parameters. -/
structure Order where
  side : Side
  /-- Max base lots to buy or sell. -/
  maxBaseLots : Int
  /-- Max quote lots to pay or receive, fees not included. -/
  maxQuoteLots : Int
  clientOrderId : Nat
  reduceOnly : Bool
  /-- Number of seconds the order shall live, 0 meaning forever. -/
  timeInForce : Nat
  selfTradeBehavior : SelfTradeBehavior
  params : OrderParams
deriving DecidableEq, Repr

/-- The implicit limit price of market orders. -/
def marketOrderLimitForSide : Side → Int
  | .bid => I64_MAX
  | .ask => 1

/-- The limit of `PostOnlySlide` orders: just better than the best opposing order. -/
def postOnlySlideLimit (side : Side) (bestOtherSide limit : Int) : Exec Int :=
  match side with
  | .bid => do return min limit (← checkI64 (bestOtherSide - 1))
  | .ask => do return max limit (← checkI64 (bestOtherSide + 1))

namespace Order

def needsPenaltyFee (order : Order) : Bool :=
  match order.params with
  | .immediateOrCancel _ => true
  | _ => false

def isPostOnly (order : Order) : Bool :=
  match order.params with
  | .fixed _ orderType | .oraclePegged _ orderType _ =>
    decide (orderType = .postOnly ∨ orderType = .postOnlySlide)
  | _ => false

/-- Order tree that this order should be added to. -/
def postTarget (order : Order) : Option BookSideOrderTree :=
  match order.params with
  | .fixed _ _ => some .fixed
  | .oraclePegged _ _ _ => some .oraclePegged
  | _ => none

/-- `PostOnlySlide` may override the price that is passed in. -/
def priceForOrderType (order : Order) (nowTs : Nat) (oraclePriceLots priceLots : Int)
    (orderType : PostOrderType) (book : Orderbook) : Exec Int :=
  if orderType = .postOnlySlide then do
    match ← (book.bookside order.side.invertSide).bestPrice nowTs oraclePriceLots with
    | some bestOtherPrice => postOnlySlideLimit order.side bestOtherPrice priceLots
    | none => return priceLots
  else .ok priceLots

/-- The limit price of the order. -/
def limitPrice (order : Order) (nowTs : Nat) (oraclePriceLots : Int) (book : Orderbook) :
    Exec Int :=
  match order.params with
  | .market => .ok (marketOrderLimitForSide order.side)
  | .immediateOrCancel priceLots => .ok priceLots
  | .fixed priceLots orderType =>
    order.priceForOrderType nowTs oraclePriceLots priceLots orderType book
  | .oraclePegged priceOffsetLots orderType _ => do
    let priceLots ← checkI64 (oraclePriceLots + priceOffsetLots)
    order.priceForOrderType nowTs oraclePriceLots priceLots orderType book

/-- The price this order is currently at, and the price data that would be
    stored in its node if it is posted. -/
def price (order : Order) (nowTs : Nat) (oraclePriceLots : Int) (book : Orderbook) :
    Exec (Int × BitVec 64) := do
  let priceLots ← order.limitPrice nowTs oraclePriceLots book
  let priceData ← (match order.params with
    | .oraclePegged _ _ _ => do
      return oraclePeggedPriceData (← checkI64 (priceLots - oraclePriceLots))
    | _ => fixedPriceData priceLots : Exec (BitVec 64))
  require (decide (1 ≤ priceLots)) .requireGteViolated
  return (priceLots, priceData)

/-- Pegging limit for oracle pegged orders, otherwise -1. -/
def pegLimit (order : Order) : Int :=
  match order.params with
  | .oraclePegged _ _ pegLimit => pegLimit
  | _ => -1

section Price

variable {order : Order} {nowTs : Nat} {oraclePriceLots priceLots : Int} {book : Orderbook}
  {priceData : BitVec 64}

theorem priceForOrderType_le {p : Int} {orderType : PostOrderType} (hp : p ≤ I64_MAX)
    (h : order.priceForOrderType nowTs oraclePriceLots p orderType book = .ok priceLots) :
    priceLots ≤ I64_MAX := by
  unfold priceForOrderType at h
  split at h
  · obtain ⟨best, -, h⟩ := of_bind h
    cases best with
    | none =>
      obtain rfl := ok_inj h
      exact hp
    | some best =>
      have h : postOnlySlideLimit order.side best p = .ok priceLots := h
      cases hside : order.side with
      | bid =>
        rw [hside] at h
        obtain ⟨x, hx, h⟩ := of_bind h
        obtain rfl := ok_inj h
        exact Int.le_trans (Int.min_le_left ..) hp
      | ask =>
        rw [hside] at h
        obtain ⟨hrange, h⟩ := of_checkI64 h
        obtain rfl := ok_inj h
        unfold I64_MAX at *
        omega
  · obtain rfl := ok_inj h
    exact hp

theorem limitPrice_le (h : order.limitPrice nowTs oraclePriceLots book = .ok priceLots) :
    priceLots ≤ I64_MAX := by
  unfold limitPrice at h
  split at h
  · obtain rfl := ok_inj h
    cases order.side <;> decide
  · rename_i p _
    obtain rfl := ok_inj h
    exact p.2.2
  · next p _ _ => exact priceForOrderType_le p.2.2 h
  · obtain ⟨hrange, h⟩ := of_checkI64 h
    refine priceForOrderType_le ?_ h
    unfold I64_MAX
    omega

/-- The price data stores the limit price. -/
theorem price_spec (h : order.price nowTs oraclePriceLots book = .ok (priceLots, priceData)) :
    1 ≤ priceLots ∧ priceLots ≤ I64_MAX ∧
      ((order.postTarget = some .oraclePegged ∧
          priceData = oraclePeggedPriceData (priceLots - oraclePriceLots) ∧
          -2 ^ 63 ≤ priceLots - oraclePriceLots ∧ priceLots - oraclePriceLots < 2 ^ 63) ∨
        (order.postTarget ≠ some .oraclePegged ∧ priceData = BitVec.ofInt 64 priceLots)) := by
  obtain ⟨p, hp, h⟩ := of_bind h
  obtain ⟨d, hd, h⟩ := of_bind h
  obtain ⟨_, hreq, h⟩ := of_bind h
  obtain ⟨rfl, rfl⟩ := ok_inj₂ h
  refine ⟨of_require hreq, limitPrice_le hp, ?_⟩
  have hfixed : fixedPriceData p = .ok d → d = BitVec.ofInt 64 p := by
    intro hd
    obtain ⟨_, -, hd⟩ := of_bind hd
    exact (ok_inj hd).symm
  unfold postTarget
  cases hparams : order.params with
  | oraclePegged offset orderType limit =>
    rw [hparams] at hd
    obtain ⟨hrange, hd⟩ := of_checkI64 hd
    exact Or.inl ⟨rfl, (ok_inj hd).symm, hrange.1, hrange.2⟩
  | market =>
    rw [hparams] at hd
    exact Or.inr ⟨by simp, hfixed hd⟩
  | immediateOrCancel p' =>
    rw [hparams] at hd
    exact Or.inr ⟨by simp, hfixed hd⟩
  | fixed p' orderType =>
    rw [hparams] at hd
    exact Or.inr ⟨by simp, hfixed hd⟩

/-- A leaf with the price data of an order rests at the limit price of the order. -/
theorem restingPrice_eq {target : BookSideOrderTree} {leaf : LeafNode}
    (h : order.price nowTs oraclePriceLots book = .ok (priceLots, priceData))
    (htarget : order.postTarget = some target) (hleaf : leaf.priceData = priceData) (side : Side) :
    restingPrice side oraclePriceLots (target, leaf) = priceLots := by
  obtain ⟨hone, hmax, hdata⟩ := price_spec h
  have hlt : priceLots < 2 ^ 64 := by
    unfold I64_MAX at hmax
    omega
  rcases hdata with ⟨htree, hdata, hlo, hhi⟩ | ⟨htree, hdata⟩
  · obtain rfl := Option.some.inj (htree.symm.trans htarget)
    show (oraclePeggedPrice oraclePriceLots leaf side).2 = priceLots
    have hoffset : oraclePeggedPriceOffset leaf.priceData = priceLots - oraclePriceLots := by
      rw [hleaf, hdata, oraclePeggedPriceOffset, oraclePeggedPriceData, BitVec.add_sub_cancel,
        BitVec.toInt_ofInt]
      exact Int.bmod_eq_of_le (by omega) (by omega)
    have hsat : saturatingAddI64 oraclePriceLots (oraclePeggedPriceOffset leaf.priceData) =
        priceLots := by
      rw [hoffset, saturatingAddI64]
      unfold I64_MIN I64_MAX at *
      omega
    unfold oraclePeggedPrice
    simp only [hsat]
    split
    · split <;> rfl
    · exact Int.max_eq_left hone
  · cases target with
    | oraclePegged => exact absurd htarget htree
    | fixed =>
      show ((leaf.priceData.toNat : Nat) : Int) = priceLots
      rw [hleaf, hdata]
      exact toNat_ofInt64 (by omega) hlt

end Price

end Order

end MangoV4
