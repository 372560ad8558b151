/-
  MangoV4.State.Faults

  How the account functions fail.  Most of them are made of arithmetic only;
  what is left is a missing position, an open order slot that does not exist,
  or one that is free.  A slot is out of bounds only if the account has fewer.
-/

import MangoV4.State.MangoAccount
import MangoV4.Lib.Faults

namespace MangoV4

open Lib Lib.Exec

section Faults

/-- The faults `F` include the panics of arithmetic and of its checks. -/
structure Computes (F : Fault MangoError → Prop) : Prop where
  overflow : F (.panic .overflow)
  assertion : F (.panic .assertion)
  unwrap : F (.panic .unwrap)

variable {F : Fault MangoError → Prop} (hF : Computes F)

include hF

@[simp] theorem faults_absI64 (x : Int) : Faults F (absI64 x) := by simp [absI64, hF.overflow]

@[simp] theorem FillEvent.faults_baseQuoteChange (f : FillEvent) (side : Side) :
    Faults F (f.baseQuoteChange side) := by
  cases side <;> simp [baseQuoteChange, hF.overflow]

namespace PerpPosition

variable (p : PerpPosition) (market : PerpMarket)

@[simp] theorem faults_settleFunding : Faults F (p.settleFunding market) := by
  simp [settleFunding, unsettledFunding, hF.overflow]

@[simp] theorem faults_recordTradingFee (fee : I80F48) : Faults F (p.recordTradingFee fee) := by
  simp [recordTradingFee, changeQuotePosition, hF.overflow]

@[simp] theorem faults_recordTrade (baseChange : Int) (quote : I80F48) :
    Faults F (p.recordTrade market baseChange quote) := by
  have hpnl : ∀ p : PerpPosition, ∀ market : PerpMarket,
      Faults F (unwrapResult (p.unsettledPnl market market.stablePrice)) := fun p market =>
    .unwrapResult hF.unwrap (by simp [unsettledPnl, basePositionNative, hF.overflow])
  simp [recordTrade, updateTradeStats, allowanceAfterTrade, changeBasePosition,
    changeQuotePosition, applyRecurringSettlePnlAllowanceConstraint, hpnl, hF,
    hF.overflow, hF.assertion]

@[simp] theorem faults_adjustMakerLots (side : Side) (lots : Int) :
    Faults F (p.adjustMakerLots side lots) := by
  cases side <;> simp [adjustMakerLots, hF.overflow]

@[simp] theorem faults_recordMakerFill (side : Side) (baseChange : Int) (quote fees : I80F48) :
    Faults F (p.recordMakerFill market side baseChange quote fees) := by
  simp [recordMakerFill, hF, hF.overflow]

@[simp] theorem faults_recordTakerFill (baseChange quoteChange : Int) :
    Faults F (p.recordTakerFill market baseChange quoteChange) := by
  simp [recordTakerFill, removeTakerTrade, hF, hF.overflow]

end PerpPosition

namespace MangoAccount

variable (a : MangoAccount)

@[simp] theorem faults_accrueMakerFees (fees : I80F48) (nowTs interval : Nat) :
    Faults F (a.accrueMakerFees fees nowTs interval) := by
  simp [accrueMakerFees, expireBuybackFees, hF.overflow]

omit hF in
theorem faults_perpPositionMut {m : PerpMarketIndex}
    (h : a.ledgerOf m = none → F (.error .perpPositionDoesNotExist)) :
    Faults F (a.perpPositionMut m) := by
  unfold perpPositionMut
  cases hp : a.perpPosition m with
  | none => exact Faults.fail_iff.mpr (h (by rw [ledgerOf, hp, Option.map_none]))
  | some p => exact .ok p

omit hF in
theorem faults_perpOrderByRawIndex (slot : Nat) (h : F (.error .requireGtViolated)) :
    Faults F (a.perpOrderByRawIndex slot) := by
  unfold perpOrderByRawIndex
  cases a.perpOpenOrders[slot]? <;> simp [h]

theorem faults_removePerpOrder (slot : Nat) (quantity : Int) (hindex : F (.error .requireGtViolated))
    (hfree : F (.error .requireNeqViolated)) (hposition : F (.error .perpPositionDoesNotExist)) :
    Faults F (a.removePerpOrder slot quantity) := by
  simp [removePerpOrder, faults_perpOrderByRawIndex, faults_perpPositionMut, hindex, hfree,
    hposition, hF, hF.overflow]

omit hF in
theorem faults_updateOrderSlot (m : PerpMarketIndex) {slot : Nat} (orderId : Key)
    {f : PerpOpenOrder → Exec PerpOpenOrder}
    (hslot : a.perpOpenOrders.length ≤ slot → F (.panic .outOfBounds))
    (hf : ∀ oo, Faults F (f oo)) : Faults F (a.updateOrderSlot m slot orderId f) := by
  unfold updateOrderSlot perpOrderMutByRawIndex
  cases hoo : a.perpOpenOrders[slot]? with
  | none => simp [hslot (List.getElem?_eq_none_iff.mp hoo), hf]
  | some oo => simp [hf]

theorem faults_executePerpMaker {market : PerpMarket} {fill : FillEvent} (nowTs interval : Nat)
    (h : a.ledgerOf market.perpMarketIndex = none → F (.error .perpPositionDoesNotExist))
    (hslot : a.perpOpenOrders.length ≤ fill.makerSlot → F (.panic .outOfBounds)) :
    Faults F (a.executePerpMaker market fill nowTs interval) := by
  have hoverflow := hF.overflow
  unfold executePerpMaker
  simp only [Faults.bind_iff, FillEvent.faults_baseQuoteChange hF, Faults.ofInt hoverflow,
    Faults.mul hoverflow, Faults.abs hoverflow, Faults.toFixed hoverflow,
    faults_accrueMakerFees hF, true_and]
  intro change _ _ _ _ _ quote _ _ _ _ _ fees _ a₁ haccrue
  obtain ⟨hperps, horders⟩ := accrueMakerFees_spec haccrue
  have hposition : a₁.ledgerOf market.perpMarketIndex = none →
      F (.error .perpPositionDoesNotExist) := by
    rw [ledgerOf, perpPosition, hperps]
    exact h
  refine ⟨faults_perpPositionMut a₁ hposition, ?_⟩
  simp only [PerpPosition.faults_recordMakerFill hF, faults_absI64 hF, true_and]
  intro p _ _ _ filled _
  rw [← horders] at hslot
  exact ⟨faults_updateOrderSlot _ _ _ hslot fun oo => by simp [hoverflow], by simp⟩

theorem faults_executePerpTaker {market : PerpMarket}
    (h : a.ledgerOf market.perpMarketIndex = none → F (.error .perpPositionDoesNotExist))
    (fill : FillEvent) : Faults F (a.executePerpTaker market fill) := by
  simp [executePerpTaker, faults_perpPositionMut a h, hF]

theorem faults_executePerpOutEvent {m : PerpMarketIndex} (side : Side) {slot : Nat} (quantity : Int)
    (orderId : Key) (h : a.ledgerOf m = none → F (.error .perpPositionDoesNotExist))
    (hslot : a.perpOpenOrders.length ≤ slot → F (.panic .outOfBounds)) :
    Faults F (a.executePerpOutEvent m side slot quantity orderId) := by
  refine .bind (faults_perpPositionMut a h) fun p => .bind (by simp [hF.overflow]) fun lots =>
    .bind (by simp [hF]) fun p' => ?_
  exact faults_updateOrderSlot _ _ _ hslot fun _ => .ok _

end MangoAccount

end Faults

end MangoV4
