/-
  MangoV4.State.MangoAccount

  A mango account (`mango_account.rs`): the entries of each kind, and here the
  functions of its perp part, on positions, open-order slots and the token
  positions they keep in use.

  `PerpMoves` says what a function does to the positions: the one of a market
  counts something else than before, all others are as they were.
-/

import MangoV4.State.Funding
import MangoV4.State.TokenEntries
import MangoV4.Lib.FirstMatch

namespace MangoV4

open Lib Lib.Exec PerpPosition List Option

structure TokenPosition where
  /-- In units of the deposit index if positive, of the borrow index if negative. -/
  indexedPosition : I80F48 := .zero
  tokenIndex : TokenIndex
  /-- Number of entries of the account that need the position. -/
  inUseCount : Nat
  /-- Deposit or borrow index at the last change of the position. -/
  previousIndex : I80F48 := .zero
deriving DecidableEq

structure PerpOpenOrder where
  sideAndTree : SideAndOrderTree
  market : PerpMarketIndex
  clientId : Nat
  id : Key
  quantity : Int
deriving DecidableEq

namespace PerpOpenOrder

/-- A free slot; also what clearing a slot leaves. -/
def cleared : PerpOpenOrder where
  sideAndTree := .bidFixed
  market := FREE_ORDER_SLOT
  clientId := 0
  id := 0
  quantity := 0

def isActiveForMarket (marketIndex : PerpMarketIndex) (oo : PerpOpenOrder) : Bool :=
  decide (oo.market = marketIndex)

end PerpOpenOrder

/-- The number of open-order slots is a `u8`. -/
structure MangoAccount where
  tokens : List TokenPosition
  perps : List PerpPosition
  perpOpenOrders : List PerpOpenOrder
  buybackFeesExpiryTimestamp : Nat
  buybackFeesAccruedCurrent : Nat
  buybackFeesAccruedPrevious : Nat
  serum3 : List Serum3Orders := []
  tokenConditionalSwaps : List TokenConditionalSwap := []
  nextTokenConditionalSwapId : Nat := 0
  perpOoCount_lt : perpOpenOrders.length < 2 ^ 8

theorem noOrders_lt : ([] : List PerpOpenOrder).length < 2 ^ 8 := by decide

namespace MangoAccount

/-! ## Buyback fees -/

def expireBuybackFees (a : MangoAccount) (nowTs interval : Nat) : Exec MangoAccount :=
  if interval = 0 ∨ nowTs < a.buybackFeesExpiryTimestamp then .ok a
  else do
    let secondExpiry ← checkU64 (a.buybackFeesExpiryTimestamp + interval)
    let expiry ← checkU64 ((nowTs / interval + 1) * interval)
    return { a with
      buybackFeesAccruedPrevious := if nowTs < secondExpiry then a.buybackFeesAccruedCurrent else 0
      buybackFeesAccruedCurrent := 0
      buybackFeesExpiryTimestamp := expiry }

def buybackFeesAccrued (a : MangoAccount) : Nat :=
  min U64_MAX (a.buybackFeesAccruedCurrent + a.buybackFeesAccruedPrevious)

def accrueBuybackFees (a : MangoAccount) (amount : Nat) : MangoAccount :=
  { a with buybackFeesAccruedCurrent := min U64_MAX (a.buybackFeesAccruedCurrent + amount) }

def reduceBuybackFeesAccrued (a : MangoAccount) (amount : Nat) : Exec MangoAccount :=
  if a.buybackFeesAccruedPrevious < amount then do
    let remainingAmount := amount - a.buybackFeesAccruedPrevious
    assert (decide (remainingAmount ≤ a.buybackFeesAccruedCurrent))
    return { a with
      buybackFeesAccruedCurrent := a.buybackFeesAccruedCurrent - remainingAmount
      buybackFeesAccruedPrevious := 0 }
  else
    .ok { a with buybackFeesAccruedPrevious := a.buybackFeesAccruedPrevious - amount }

/-! ## Token positions -/

/-- The token positions with one for `tokenIndex`, and that position. -/
def ensureTokenPosition (a : MangoAccount) (tokenIndex : TokenIndex) :
    Exec (TokenPosition × MangoAccount) :=
  match a.tokens.find? fun t => decide (t.tokenIndex = tokenIndex) with
  | some t => .ok (t, a)
  | none =>
    let free := fun t : TokenPosition => decide (t.tokenIndex = FREE_TOKEN_INDEX)
    match a.tokens.find? free with
    | some _ =>
      let t := { tokenIndex, inUseCount := 0 }
      .ok (t, { a with tokens := replaceFirst free t a.tokens })
    | none => fail .noFreeTokenPositionIndex

def tokenPositionMut (a : MangoAccount) (tokenIndex : TokenIndex) : Exec TokenPosition :=
  match a.tokens.find? fun t => decide (t.tokenIndex = tokenIndex) with
  | some t => .ok t
  | none => fail .tokenPositionDoesNotExist

/-- Writes through the reference that `tokenPositionMut` returned. -/
def setTokenPosition (a : MangoAccount) (t : TokenPosition) : MangoAccount :=
  { a with tokens := replaceFirst (fun x => decide (x.tokenIndex = t.tokenIndex)) t a.tokens }

/-- Frees the position of a token; nothing may need it any more. -/
def deactivateTokenPosition (a : MangoAccount) (tokenIndex : TokenIndex) : Exec MangoAccount := do
  let t ← a.tokenPositionMut tokenIndex
  assert (decide (t.inUseCount = 0))
  return { a with
    tokens := replaceFirst (fun x => decide (x.tokenIndex = tokenIndex))
      { t with tokenIndex := FREE_TOKEN_INDEX } a.tokens }

/-- Positions that a bank reports as no longer active are freed. -/
def deactivateIfInactive (a : MangoAccount) (tokenIndex : TokenIndex) (active : Bool) :
    Exec MangoAccount :=
  if active then .ok a else a.deactivateTokenPosition tokenIndex

/-! ## Perp positions -/

def perpPosition (a : MangoAccount) (marketIndex : PerpMarketIndex) : Option PerpPosition :=
  a.perps.find? (PerpPosition.isActiveForMarket marketIndex)

def perpPositionMut (a : MangoAccount) (marketIndex : PerpMarketIndex) : Exec PerpPosition :=
  match a.perpPosition marketIndex with
  | some p => .ok p
  | none => fail .perpPositionDoesNotExist

/-- Writes through the reference that `perpPositionMut` returned. -/
def setPerpPosition (a : MangoAccount) (marketIndex : PerpMarketIndex) (p : PerpPosition) :
    MangoAccount :=
  { a with perps := replaceFirst (PerpPosition.isActiveForMarket marketIndex) p a.perps }

def ensurePerpPosition (a : MangoAccount) (perpMarketIndex : PerpMarketIndex)
    (settleTokenIndex : TokenIndex) : Exec MangoAccount :=
  match a.perpPosition perpMarketIndex with
  | some _ => .ok a
  | none =>
    match a.perps.find? fun p => !p.isActive with
    | none => fail .noFreePerpPositionIndex
    | some _ => do
      let p := { PerpPosition.default with marketIndex := perpMarketIndex }
      let a := { a with perps := replaceFirst (fun p => !p.isActive) p a.perps }
      let (t, a) ← a.ensureTokenPosition settleTokenIndex
      let inUseCount ← checkUnsigned 16 (t.inUseCount + 1)
      return a.setTokenPosition { t with inUseCount }

def deactivatePerpPosition (a : MangoAccount) (perpMarketIndex : PerpMarketIndex)
    (settleTokenIndex : TokenIndex) : Exec MangoAccount := do
  let p ← a.perpPositionMut perpMarketIndex
  let a := a.setPerpPosition perpMarketIndex { p with marketIndex := FREE_ORDER_SLOT }
  let t ← a.tokenPositionMut settleTokenIndex
  return a.setTokenPosition { t with inUseCount := t.inUseCount - 1 }

/-! ## Open orders -/

def perpOrderByRawIndex (a : MangoAccount) (slot : Nat) : Exec PerpOpenOrder :=
  match a.perpOpenOrders[slot]? with
  | some oo => .ok oo
  | none => fail .requireGtViolated

/-- Access without a check; a slot outside of the account is a bad access. -/
def perpOrderMutByRawIndex (a : MangoAccount) (slot : Nat) : Exec PerpOpenOrder :=
  match a.perpOpenOrders[slot]? with
  | some oo => .ok oo
  | none => panic .outOfBounds

/-- Writes through the reference that `perpOrderMutByRawIndex` returned. -/
def setPerpOrder (a : MangoAccount) (slot : Nat) (oo : PerpOpenOrder) : MangoAccount :=
  { a with
    perpOpenOrders := a.perpOpenOrders.set slot oo
    perpOoCount_lt := by rw [List.length_set]; exact a.perpOoCount_lt }

def perpNextOrderSlot (a : MangoAccount) : Exec Nat :=
  match a.perpOpenOrders.findIdx? fun oo => decide (oo.market = FREE_ORDER_SLOT) with
  | some slot => .ok slot
  | none => fail .someError

def addPerpOrder (a : MangoAccount) (perpMarketIndex : PerpMarketIndex) (side : Side)
    (orderTree : BookSideOrderTree) (order : LeafNode) : Exec MangoAccount := do
  let p ← a.perpPositionMut perpMarketIndex
  let a := a.setPerpPosition perpMarketIndex (← p.adjustMakerLots side order.quantity)
  let _ ← a.perpOrderMutByRawIndex order.ownerSlot
  return a.setPerpOrder order.ownerSlot {
    market := perpMarketIndex
    sideAndTree := .new side orderTree
    id := order.key
    clientId := order.clientOrderId
    quantity := order.quantity }

/-- Removes the order from its slot; `quantity` is what was still on the book. -/
def removePerpOrder (a : MangoAccount) (slot : Nat) (quantity : Int) : Exec MangoAccount := do
  let oo ← a.perpOrderByRawIndex slot
  require (decide (oo.market ≠ FREE_ORDER_SLOT)) .requireNeqViolated
  let p ← a.perpPositionMut oo.market
  let p ← p.adjustMakerLots oo.sideAndTree.side (← checkI64 (-quantity))
  return (a.setPerpPosition oo.market p).setPerpOrder slot .cleared

/-! ## Processing events -/

/-- The slot an event refers to, after the event: only touched while it still
    belongs to the order of the event. -/
def updateOrderSlot (a : MangoAccount) (perpMarketIndex : PerpMarketIndex) (slot : Nat)
    (orderId : Key) (f : PerpOpenOrder → Exec PerpOpenOrder) : Exec MangoAccount := do
  let oo ← a.perpOrderMutByRawIndex slot
  -- events without an order id match against any order
  if oo.isActiveForMarket perpMarketIndex ∧ (orderId = 0 ∨ oo.id = orderId) then
    return a.setPerpOrder slot (← f oo)
  else return a

/-- A positive maker fee counts for the buyback of fees. -/
def accrueMakerFees (a : MangoAccount) (fees : I80F48) (nowTs buybackFeesExpiryInterval : Nat) :
    Exec MangoAccount :=
  if .zero < fees then do
    let a ← a.expireBuybackFees nowTs buybackFeesExpiryInterval
    return a.accrueBuybackFees (← fees.toU64)
  else .ok a

def executePerpMaker (a : MangoAccount) (market : PerpMarket) (fill : FillEvent)
    (nowTs buybackFeesExpiryInterval : Nat) : Exec (MangoAccount × PerpMarket) := do
  let side := fill.takerSide.invertSide
  let (baseChange, quoteChange) ← fill.baseQuoteChange side
  let quote ← Fixed.mul (← Fixed.ofInt market.quoteLotSize) (← Fixed.ofInt quoteChange)
  let fees ← (← quote.abs).mul (← fill.makerFee.toFixed)
  let a ← a.accrueMakerFees fees nowTs buybackFeesExpiryInterval
  let p ← a.perpPositionMut market.perpMarketIndex
  let (p, market') ← p.recordMakerFill market side baseChange quote fees
  let a := a.setPerpPosition market.perpMarketIndex p
  let quantityFilled ← absI64 baseChange
  let a ← a.updateOrderSlot market.perpMarketIndex fill.makerSlot fill.makerOrderId fun oo => do
    let quantity ← checkI64 (oo.quantity - quantityFilled)
    return if fill.makerOut then .cleared else { oo with quantity := max quantity 0 }
  return (a, market')

def executePerpTaker (a : MangoAccount) (market : PerpMarket) (fill : FillEvent) :
    Exec (MangoAccount × PerpMarket) := do
  let p ← a.perpPositionMut market.perpMarketIndex
  let (baseChange, quoteChange) ← fill.baseQuoteChange fill.takerSide
  let (p, market') ← p.recordTakerFill market baseChange quoteChange
  return (a.setPerpPosition market.perpMarketIndex p, market')

def executePerpOutEvent (a : MangoAccount) (perpMarketIndex : PerpMarketIndex) (side : Side)
    (slot : Nat) (quantity : Int) (orderId : Key) : Exec MangoAccount := do
  let p ← a.perpPositionMut perpMarketIndex
  let p ← p.adjustMakerLots side (← checkI64 (-quantity))
  let a := a.setPerpPosition perpMarketIndex p
  a.updateOrderSlot perpMarketIndex slot orderId fun _ => .ok .cleared

/-! ## What the functions do to the positions -/

/-- What the account's position in a market counts. -/
def ledgerOf (a : MangoAccount) (marketIndex : PerpMarketIndex) : Option Ledger :=
  (a.perpPosition marketIndex).map PerpPosition.ledger

/-- What the position in the market is worth in quote. -/
def equityIn (a : MangoAccount) (market : PerpMarket) : ℚ :=
  ((a.perpPosition market.perpMarketIndex).getD .default).equity market

/-- Number of positions with a market index. -/
def perpCount (a : MangoAccount) (marketIndex : PerpMarketIndex) : Nat :=
  a.perps.countP (PerpPosition.isActiveForMarket marketIndex)

/-- The position of market `m` counts `l'` instead of `l`; nothing else moves. -/
structure PerpMoves (a a' : MangoAccount) (m : PerpMarketIndex) (l l' : Ledger) : Prop where
  before : a.ledgerOf m = some l
  after : a'.ledgerOf m = some l'
  others : ∀ m', m' ≠ m → a'.ledgerOf m' = a.ledgerOf m'
  count : ∀ m', a'.perpCount m' = a.perpCount m'

variable {a a' : MangoAccount} {m m' : PerpMarketIndex} {l l' : Ledger} {p : PerpPosition}
  {slot nowTs interval : Nat} {oo : PerpOpenOrder} {orderId : Key} {orders : List PerpOpenOrder}
  {P : Prop}

variable {a₁ a₂ : MangoAccount} {side : Side} {quantity : Int} {market market' : PerpMarket}
  {fill : FillEvent} {out : Bool} {orders' : List PerpOpenOrder}

theorem PerpMoves.trans {l₁ l₂ : Ledger}
    (h : PerpMoves a a₁ m l l₁) (h' : PerpMoves a₁ a₂ m l₁ l₂) : PerpMoves a a₂ m l l₂ where
  before := h.before
  after := h'.after
  others := fun m' hm => (h'.others m' hm).trans (h.others m' hm)
  count := fun m' => (h'.count m').trans (h.count m')

/-- Accounts with the same positions. -/
theorem PerpMoves.congr {b b' : MangoAccount}
    (h : PerpMoves a a' m l l') (hb : b.perps = a.perps) (hb' : b'.perps = a'.perps) :
    PerpMoves b b' m l l' := by
  have hledger : ∀ m', b.ledgerOf m' = a.ledgerOf m' := by
    intro m'
    unfold ledgerOf perpPosition
    rw [hb]
  have hledger' : ∀ m', b'.ledgerOf m' = a'.ledgerOf m' := by
    intro m'
    unfold ledgerOf perpPosition
    rw [hb']
  refine ⟨?_, ?_, ?_, ?_⟩
  · rw [hledger, h.before]
  · rw [hledger', h.after]
  · intro m' hm
    rw [hledger', hledger, h.others m' hm]
  · intro m'
    have hcount := h.count m'
    unfold perpCount at *
    rw [hb, hb', hcount]

theorem perpPositionMut_eq_ok :
    a.perpPositionMut m = .ok p ↔ a.perpPosition m = some p := by
  unfold perpPositionMut
  cases a.perpPosition m with
  | none => simp [fail]
  | some p' => simp

theorem perpPosition_marketIndex (h : a.perpPosition m = some p) : p.marketIndex = m :=
  of_decide_eq_true (find?_some (p := isActiveForMarket m) h)

theorem equityIn_of_position (hp : a.perpPosition market.perpMarketIndex = some p) :
    a.equityIn market = p.equity market := by
  rw [equityIn, hp, getD_some]

theorem equityIn_congr (h : a'.perps = a.perps) : a'.equityIn market = a.equityIn market := by
  rw [equityIn, equityIn, perpPosition, perpPosition, h]

section Written

variable {p' : PerpPosition} {x : ℚ}

theorem perpPosition_setPerpPosition (hp : a.perpPosition m = some p)
    (hp' : p'.marketIndex = p.marketIndex) : (a.setPerpPosition m p').perpPosition m = some p' :=
  find?_replaceFirst_self hp (decide_eq_true (hp'.trans (perpPosition_marketIndex hp)))

/-- Writing back a position with `x` more quote and the same lots. -/
theorem equityIn_setPerpPosition (hp : a.perpPosition market.perpMarketIndex = some p)
    (hkeeps : p'.marketIndex = p.marketIndex ∧ p'.basePositionLots = p.basePositionLots)
    (hpays : p.Pays p' x) :
    (a.setPerpPosition market.perpMarketIndex p').equityIn market = a.equityIn market + x := by
  rw [equityIn_of_position hp, equityIn_of_position (perpPosition_setPerpPosition hp hkeeps.1),
    hpays.equity hkeeps.2]

/-- Writing back a position of the same market. -/
theorem setPerpPosition_moves (hp : a.perpPosition m = some p) (hmoves : p.Moves p' l') :
    PerpMoves a (a.setPerpPosition m p') m p.ledger l' := by
  have hm := perpPosition_marketIndex hp
  have hm' : p'.marketIndex = m := hmoves.1.trans hm
  have htest : ∀ m', isActiveForMarket m' p' = isActiveForMarket m' p := by
    intro m'
    unfold isActiveForMarket
    rw [hmoves.1]
  refine ⟨?_, ?_, ?_, ?_⟩
  · rw [ledgerOf, hp, map_some]
  · have hfind := find?_replaceFirst_self (x := p') hp (decide_eq_true hm')
    show ((a.setPerpPosition m p').perpPosition m).map ledger = some l'
    rw [perpPosition, setPerpPosition, hfind, map_some, hmoves.2]
  · intro m' hne
    have hfalse : isActiveForMarket m' p = false := by
      unfold isActiveForMarket
      rw [hm]
      exact decide_eq_false (Ne.symm hne)
    have hfind := find?_replaceFirst_of_not (q := isActiveForMarket m') hp hfalse
      ((htest m').trans hfalse)
    unfold ledgerOf perpPosition setPerpPosition
    rw [hfind]
  · intro m'
    have hcount := countP_replaceFirst (q := isActiveForMarket m') (x := p') hp
    rw [htest m'] at hcount
    exact Nat.add_right_cancel hcount

/-- Lots in open orders are not worth anything yet. -/
theorem setPerpPosition_adjusted {lots : Int} (hp : a.perpPosition m = some p)
    (h : p.adjustMakerLots side lots = .ok p') :
    PerpMoves a (a.setPerpPosition m p') m p.ledger (p.ledger.addMaker side lots) ∧
      ∀ market : PerpMarket, market.perpMarketIndex = m →
        (a.setPerpPosition m p').equityIn market = a.equityIn market := by
  have hbooks := adjustMakerLots_books h
  refine ⟨setPerpPosition_moves hp hbooks.1, ?_⟩
  rintro market rfl
  have hbase : p'.basePositionLots = p.basePositionLots := by
    have hledger := congrArg Ledger.base hbooks.1.2
    rwa [Ledger.base_addMaker] at hledger
  rw [equityIn_setPerpPosition hp ⟨hbooks.1.1, hbase⟩ hbooks.pays, add_zero]

end Written

theorem setPerpPosition_orders (a : MangoAccount) (m : PerpMarketIndex) (p : PerpPosition) :
    (a.setPerpPosition m p).perpOpenOrders = a.perpOpenOrders := rfl

/-! ## Orders of an account -/

theorem perpOrderByRawIndex_eq_ok :
    a.perpOrderByRawIndex slot = .ok oo ↔ a.perpOpenOrders[slot]? = some oo := by
  unfold perpOrderByRawIndex
  cases a.perpOpenOrders[slot]? with
  | none => simp [fail]
  | some oo' => simp

theorem perpOrderMutByRawIndex_eq_ok :
    a.perpOrderMutByRawIndex slot = .ok oo ↔ a.perpOpenOrders[slot]? = some oo := by
  unfold perpOrderMutByRawIndex
  cases a.perpOpenOrders[slot]? with
  | none => simp [Exec.panic]
  | some oo' => simp

/-- The next slot is free, and its number fits into a byte. -/
theorem perpNextOrderSlot_eq_ok (h : a.perpNextOrderSlot = .ok slot) :
    (∃ oo, a.perpOpenOrders[slot]? = some oo ∧ oo.market = FREE_ORDER_SLOT) ∧ slot < 2 ^ 8 := by
  unfold perpNextOrderSlot at h
  cases hfind : a.perpOpenOrders.findIdx? fun oo => decide (oo.market = FREE_ORDER_SLOT) with
  | none =>
    rw [hfind] at h
    cases h
  | some i =>
    rw [hfind] at h
    obtain rfl := ok_inj h
    obtain ⟨hlt, hfree, -⟩ := findIdx?_eq_some_iff_getElem.mp hfind
    have hlen := a.perpOoCount_lt
    exact ⟨⟨_, getElem?_eq_getElem hlt, of_decide_eq_true hfree⟩, by omega⟩

theorem addPerpOrder_spec
    {tree : BookSideOrderTree} {order : LeafNode} (h : a.addPerpOrder m side tree order = .ok a') :
    (∃ l, PerpMoves a a' m l (l.addMaker side order.quantity)) ∧
      order.ownerSlot < a.perpOpenOrders.length ∧
      a'.perpOpenOrders = a.perpOpenOrders.set order.ownerSlot
        { market := m, sideAndTree := .new side tree, id := order.key,
          clientId := order.clientOrderId, quantity := order.quantity } ∧
      ∀ market : PerpMarket, market.perpMarketIndex = m →
        a'.equityIn market = a.equityIn market := by
  obtain ⟨p, hp, h⟩ := of_bind h
  obtain ⟨p', hadjust, h⟩ := of_bind h
  obtain ⟨oo, hoo, h⟩ := of_bind h
  obtain rfl := ok_inj h
  obtain ⟨hmoves, hequity⟩ := setPerpPosition_adjusted (perpPositionMut_eq_ok.mp hp) hadjust
  refine ⟨⟨p.ledger, hmoves.congr rfl rfl⟩, ?_, rfl, hequity⟩
  have hslot := perpOrderMutByRawIndex_eq_ok.mp hoo
  exact (List.getElem?_eq_some_iff.mp hslot).1

theorem removePerpOrder_spec (hoo : a.perpOpenOrders[slot]? = some oo)
    (h : a.removePerpOrder slot quantity = .ok a') :
    (∃ l, PerpMoves a a' oo.market l (l.addMaker oo.sideAndTree.side (-quantity))) ∧
      oo.market ≠ FREE_ORDER_SLOT ∧ a'.perpOpenOrders = a.perpOpenOrders.set slot .cleared ∧
      ∀ market : PerpMarket, market.perpMarketIndex = oo.market →
        a'.equityIn market = a.equityIn market := by
  obtain ⟨oo', hoo', h⟩ := of_bind h
  obtain rfl : oo' = oo := by
    rw [perpOrderByRawIndex_eq_ok, hoo] at hoo'
    exact (some.inj hoo').symm
  obtain ⟨_, hreq, h⟩ := of_bind h
  obtain ⟨p, hp, h⟩ := of_bind h
  obtain ⟨-, h⟩ := of_checkI64 h
  obtain ⟨p', hadjust, h⟩ := of_bind h
  obtain rfl := ok_inj h
  obtain ⟨hmoves, hequity⟩ := setPerpPosition_adjusted (perpPositionMut_eq_ok.mp hp) hadjust
  exact ⟨⟨p.ledger, hmoves.congr rfl rfl⟩, of_require hreq, rfl, hequity⟩

/-- What an event does to the slot it refers to; `out` says that the order is
    off the book. -/
inductive SlotUpdate (m : PerpMarketIndex) (slot : Nat) (orderId : Key) (out : Bool)
    (orders : List PerpOpenOrder) : List PerpOpenOrder → Prop
  /-- the slot is free or belongs to another order -/
  | kept {oo : PerpOpenOrder} (hoo : orders[slot]? = some oo)
      (hother : ¬ (oo.market = m ∧ (orderId = 0 ∨ oo.id = orderId))) :
      SlotUpdate m slot orderId out orders orders
  | cleared {oo : PerpOpenOrder} (hout : out = true) (hoo : orders[slot]? = some oo)
      (hm : oo.market = m) (hid : orderId = 0 ∨ oo.id = orderId) :
      SlotUpdate m slot orderId out orders (orders.set slot .cleared)
  | reduced {oo : PerpOpenOrder} (quantity : Int) (hoo : orders[slot]? = some oo)
      (hm : oo.market = m) (hid : orderId = 0 ∨ oo.id = orderId) :
      SlotUpdate m slot orderId out orders (orders.set slot { oo with quantity })

theorem updateOrderSlot_spec {f : PerpOpenOrder → Exec PerpOpenOrder} (out : Bool)
    (hf : ∀ oo oo', f oo = .ok oo' →
      (out = true ∧ oo' = .cleared) ∨ ∃ quantity, oo' = { oo with quantity })
    (h : a.updateOrderSlot m slot orderId f = .ok a') :
    a'.perps = a.perps ∧ SlotUpdate m slot orderId out a.perpOpenOrders a'.perpOpenOrders := by
  obtain ⟨oo, hoo, h⟩ := of_bind h
  have hslot := perpOrderMutByRawIndex_eq_ok.mp hoo
  split at h
  · rename_i hmatch
    obtain ⟨oo', hf', h⟩ := of_bind h
    obtain rfl := ok_inj h
    have hm : oo.market = m := of_decide_eq_true hmatch.1
    refine ⟨rfl, ?_⟩
    rcases hf oo oo' hf' with ⟨hout, rfl⟩ | ⟨quantity, rfl⟩
    · exact .cleared hout hslot hm hmatch.2
    · exact .reduced quantity hslot hm hmatch.2
  · rename_i hmatch
    obtain rfl := ok_inj h
    refine ⟨rfl, .kept hslot fun hboth => hmatch ⟨decide_eq_true hboth.1, hboth.2⟩⟩

/-! ## Events -/

theorem FillEvent.change_fst (e : FillEvent) (side : Side) : |(e.change side).1| = |e.quantity| := by
  cases side with
  | bid => rfl
  | ask => exact abs_neg e.quantity

theorem expireBuybackFees_spec (h : a.expireBuybackFees nowTs interval = .ok a') :
    a'.perps = a.perps ∧ a'.perpOpenOrders = a.perpOpenOrders := by
  unfold expireBuybackFees at h
  split at h
  · obtain rfl := ok_inj h
    exact ⟨rfl, rfl⟩
  · obtain ⟨_, -, h⟩ := of_bind h
    obtain ⟨_, -, h⟩ := of_bind h
    obtain rfl := ok_inj h
    exact ⟨rfl, rfl⟩

theorem accrueMakerFees_spec {fees : I80F48} (h : a.accrueMakerFees fees nowTs interval = .ok a') :
    a'.perps = a.perps ∧ a'.perpOpenOrders = a.perpOpenOrders := by
  unfold accrueMakerFees at h
  split at h
  · obtain ⟨a₁, hexpire, h⟩ := of_bind h
    obtain ⟨amount, -, h⟩ := of_bind h
    obtain rfl := ok_inj h
    have hkeep := expireBuybackFees_spec hexpire
    exact ⟨hkeep.1, hkeep.2⟩
  · obtain rfl := ok_inj h
    exact ⟨rfl, rfl⟩

/-- The maker's base position moves by the fill, and the filled lots are no
    longer in open orders. -/
theorem executePerpMaker_spec
    (h : a.executePerpMaker market fill nowTs interval = .ok (a', market')) :
    (∃ l l', l' = (l.addBase (fill.change fill.takerSide.invertSide).1).addMaker
        fill.takerSide.invertSide (-|fill.quantity|) ∧
      PerpMoves a a' market.perpMarketIndex l l' ∧ market' = market.track l l') ∧
    SlotUpdate market.perpMarketIndex fill.makerSlot fill.makerOrderId fill.makerOut
      a.perpOpenOrders a'.perpOpenOrders ∧
    ∃ p p', a.perpPosition market.perpMarketIndex = some p ∧
      a'.perpPosition market.perpMarketIndex = some p' ∧
      p'.equity market' = p.equity market +
        (fill.quoteFor market fill.takerSide.invertSide - fill.makerFees market) := by
  obtain ⟨⟨baseChange, quoteChange⟩, hchange, h⟩ := of_bind h
  have hbase : baseChange = (fill.change fill.takerSide.invertSide).1 :=
    congrArg Prod.fst (FillEvent.baseQuoteChange_eq_ok hchange)
  have hlotsEq : quoteChange = (fill.change fill.takerSide.invertSide).2 :=
    congrArg Prod.snd (FillEvent.baseQuoteChange_eq_ok hchange)
  obtain ⟨lotSize, hlotSize, h⟩ := of_bind h
  obtain ⟨lots, hlots, h⟩ := of_bind h
  obtain ⟨quote, hquote, h⟩ := of_bind h
  obtain ⟨quoteAbs, habs, h⟩ := of_bind h
  obtain ⟨rate, hrate, h⟩ := of_bind h
  obtain ⟨fees, hfees, h⟩ := of_bind h
  obtain ⟨a₁, haccrue, h⟩ := of_bind h
  obtain ⟨p, hp, h⟩ := of_bind h
  obtain ⟨⟨p₁, m₁⟩, hfill, h⟩ := of_bind h
  obtain ⟨filled, -, h⟩ := of_bind h
  obtain ⟨a₂, hslot, h⟩ := of_bind h
  obtain ⟨rfl, rfl⟩ := ok_inj₂ h
  obtain ⟨hperps, horders⟩ := accrueMakerFees_spec haccrue
  obtain ⟨hmoves, hmarket, hequity⟩ := recordMakerFill_spec hfill
  rw [hbase, FillEvent.change_fst] at hmoves
  have hp := perpPositionMut_eq_ok.mp hp
  have hset := setPerpPosition_moves hp hmoves
  obtain ⟨hperps', hupdate⟩ := updateOrderSlot_spec fill.makerOut (fun oo oo' hoo => by
    obtain ⟨quantity, -, hoo⟩ := of_bind hoo
    obtain rfl := ok_inj hoo
    split
    · next hout => exact Or.inl ⟨hout, rfl⟩
    · exact Or.inr ⟨_, rfl⟩) hslot
  rw [setPerpPosition_orders, horders] at hupdate
  rw [hmoves.2] at hmarket
  -- lots are whole, so neither the quote amount nor its fee is rounded
  have hwhole := (Fixed.isWhole_ofInt hlotSize).mul (Fixed.isWhole_ofInt hlots) hquote
  have hvalue : quote.toRat = fill.quoteFor market fill.takerSide.invertSide := by
    rw [hwhole.toRat, hlotsEq, FillEvent.quoteFor]
    push_cast
    rfl
  have hfeesValue : fees.toRat = fill.makerFees market := by
    rw [Fixed.toRat_mul_left (hwhole.abs habs) hfees, Float.toRat_toFixed hrate,
      FillEvent.makerFees, ← hvalue, hwhole.toRat]
    push_cast
    rfl
  rw [hvalue, hfeesValue] at hequity
  refine ⟨⟨p.ledger, _, rfl, hset.congr hperps.symm hperps', hmarket⟩, hupdate, p, p₁, ?_, ?_, hequity⟩
  · rw [perpPosition, ← hperps]
    exact hp
  · rw [perpPosition, hperps']
    exact perpPosition_setPerpPosition hp hmoves.1

/-- The taker's base position moves by the fill, which no longer waits on the queue. -/
theorem executePerpTaker_spec (h : a.executePerpTaker market fill = .ok (a', market')) :
    (∃ l l', l' = (l.addTaker (-fill.change fill.takerSide)).addBase
        (fill.change fill.takerSide).1 ∧
      PerpMoves a a' market.perpMarketIndex l l' ∧ market' = market.track l l') ∧
    a'.perpOpenOrders = a.perpOpenOrders ∧
    ∃ p p', a.perpPosition market.perpMarketIndex = some p ∧
      a'.perpPosition market.perpMarketIndex = some p' ∧
      p'.equity market' = p.equity market + fill.quoteFor market fill.takerSide := by
  obtain ⟨p, hp, h⟩ := of_bind h
  obtain ⟨⟨baseChange, quoteChange⟩, hchange, h⟩ := of_bind h
  have hc := FillEvent.baseQuoteChange_eq_ok hchange
  obtain ⟨⟨p₁, m₁⟩, hfill, h⟩ := of_bind h
  obtain ⟨rfl, rfl⟩ := ok_inj₂ h
  obtain ⟨hmoves, hmarket, hequity⟩ := recordTakerFill_spec hfill
  rw [hmoves.2] at hmarket
  have hp := perpPositionMut_eq_ok.mp hp
  rw [FillEvent.quoteFor, ← hc]
  exact ⟨⟨p.ledger, _, rfl, setPerpPosition_moves hp hmoves, hmarket⟩, rfl, p, p₁, hp,
    perpPosition_setPerpPosition hp hmoves.1, hequity⟩

/-- The lots of the order are no longer in open orders. -/
theorem executePerpOutEvent_spec (h : a.executePerpOutEvent m side slot quantity orderId = .ok a') :
    (∃ l, PerpMoves a a' m l (l.addMaker side (-quantity))) ∧
    SlotUpdate m slot orderId true a.perpOpenOrders a'.perpOpenOrders ∧
    ∀ market : PerpMarket, market.perpMarketIndex = m →
      a'.equityIn market = a.equityIn market := by
  obtain ⟨p, hp, h⟩ := of_bind h
  obtain ⟨-, h⟩ := of_checkI64 h
  obtain ⟨p', hadjust, h⟩ := of_bind h
  obtain ⟨hset, hequity⟩ := setPerpPosition_adjusted (perpPositionMut_eq_ok.mp hp) hadjust
  obtain ⟨hperps, hupdate⟩ := updateOrderSlot_spec true
    (fun oo oo' hoo => Or.inl ⟨rfl, (ok_inj hoo).symm⟩) h
  exact ⟨⟨p.ledger, hset.congr rfl hperps⟩, hupdate,
    fun market hm => (equityIn_congr hperps).trans (hequity market hm)⟩

/-! ## Creating and closing positions -/

theorem ensureTokenPosition_spec {tokenIndex : TokenIndex}
    {t : TokenPosition} (h : a.ensureTokenPosition tokenIndex = .ok (t, a')) :
    a'.perps = a.perps ∧ a'.perpOpenOrders = a.perpOpenOrders := by
  unfold ensureTokenPosition at h
  split at h
  · obtain ⟨-, rfl⟩ := ok_inj₂ h
    exact ⟨rfl, rfl⟩
  · simp only at h
    split at h
    · obtain ⟨-, rfl⟩ := ok_inj₂ h
      exact ⟨rfl, rfl⟩
    · cases h

/-- What creating a position for market `m` does: nothing if there is one. -/
inductive Ensured (a a' : MangoAccount) (m : PerpMarketIndex) : Prop
  | existing (hpos : a.ledgerOf m ≠ none) (hperps : a'.perps = a.perps)
  | created (hnone : a.ledgerOf m = none) (hzero : a'.ledgerOf m = some .zero)
      (hothers : ∀ m', m' ≠ m → m' ≠ FREE_ORDER_SLOT →
        a'.ledgerOf m' = a.ledgerOf m' ∧ a'.perpCount m' = a.perpCount m')
      (hcount : a'.perpCount m = 1)

theorem ensurePerpPosition_spec {t : TokenIndex} (h : a.ensurePerpPosition m t = .ok a') :
    Ensured a a' m ∧ a'.perpOpenOrders = a.perpOpenOrders := by
  unfold ensurePerpPosition at h
  cases hp : a.perpPosition m with
  | some p =>
    rw [hp] at h
    obtain rfl := ok_inj h
    exact ⟨.existing (by simp [ledgerOf, hp]) rfl, rfl⟩
  | none =>
    rw [hp] at h
    cases hfree : a.perps.find? fun p => !p.isActive with
    | none =>
      rw [hfree] at h
      cases h
    | some old =>
      rw [hfree] at h
      obtain ⟨⟨tp, a₁⟩, htoken, h⟩ := of_bind h
      obtain ⟨n, -, h⟩ := of_bind h
      obtain rfl := ok_inj h
      obtain ⟨hperps, horders⟩ := ensureTokenPosition_spec htoken
      refine ⟨?_, horders⟩
      -- the replaced position had no market
      have hold : old.marketIndex = FREE_ORDER_SLOT := by
        have hinactive := find?_some hfree
        simpa [isActive] using hinactive
      have hnew : isActiveForMarket m
          { default with marketIndex := m } = true := decide_eq_true rfl
      have hcount : ∀ m', (a₁.setTokenPosition { tp with inUseCount := n }).perpCount m' +
          (if isActiveForMarket m' old then 1 else 0) = a.perpCount m' +
          (if isActiveForMarket m'
            { default with marketIndex := m } then 1 else 0) := by
        intro m'
        show a₁.perps.countP _ + _ = _
        rw [hperps]
        exact countP_replaceFirst hfree
      have hzero : a.perpCount m = 0 := countP_eq_zero.mpr (find?_eq_none.mp hp)
      refine .created (by simp [ledgerOf, hp]) ?_ ?_ ?_
      · have hfind := find?_replaceFirst_new hfree hp hnew
        show (a₁.perps.find? _).map _ = _
        rw [hperps]
        show (find? _ (replaceFirst _ _ a.perps)).map _ = _
        rw [hfind]
        rfl
      · intro m' hne hm'
        have hold' : isActiveForMarket m' old = false := by
          unfold isActiveForMarket
          rw [hold]
          exact decide_eq_false (Ne.symm hm')
        have hnew' : isActiveForMarket m'
            { default with marketIndex := m } = false :=
          decide_eq_false (Ne.symm hne)
        refine ⟨?_, ?_⟩
        · show (a₁.perps.find? _).map _ = _
          rw [hperps]
          show (find? _ (replaceFirst _ _ a.perps)).map _ = _
          rw [find?_replaceFirst_of_not hfree hold' hnew']
          rfl
        · have hc := hcount m'
          rw [hold', hnew'] at hc
          exact hc
      · have hc := hcount m
        rw [hnew, hzero] at hc
        by_cases hm : isActiveForMarket m old = true
        · have hnot := find?_eq_none.mp hp old (mem_of_find?_eq_some hfree)
          exact absurd hm hnot
        · rw [if_neg hm] at hc
          exact hc

/-- Closing the only position of market `m`. -/
structure Deactivated (a a' : MangoAccount) (m : PerpMarketIndex) (l : Ledger) : Prop where
  before : a.ledgerOf m = some l
  after : m ≠ FREE_ORDER_SLOT → a.perpCount m ≤ 1 → a'.ledgerOf m = none
  /-- the index of no market is not changed by setting it again -/
  free : m = FREE_ORDER_SLOT → a'.ledgerOf m = some l
  others : ∀ m', m' ≠ m → m' ≠ FREE_ORDER_SLOT → a'.ledgerOf m' = a.ledgerOf m'
  count : ∀ m', m' ≠ FREE_ORDER_SLOT → a'.perpCount m' ≤ a.perpCount m'

theorem deactivatePerpPosition_spec {t : TokenIndex} (h : a.deactivatePerpPosition m t = .ok a') :
    (∃ l, Deactivated a a' m l) ∧ a'.perpOpenOrders = a.perpOpenOrders := by
  obtain ⟨p, hp, h⟩ := of_bind h
  obtain ⟨tp, -, h⟩ := of_bind h
  obtain rfl := ok_inj h
  have hp := perpPositionMut_eq_ok.mp hp
  have hm := perpPosition_marketIndex hp
  refine ⟨⟨p.ledger, ?_⟩, rfl⟩
  have hnot : ∀ m', m' ≠ FREE_ORDER_SLOT → isActiveForMarket m'
      { p with marketIndex := FREE_ORDER_SLOT } = false :=
    fun m' hm' => decide_eq_false (Ne.symm hm')
  refine ⟨?_, ?_, ?_, ?_, ?_⟩
  · rw [ledgerOf, hp, map_some]
  · intro hfree hone
    have hfind := find?_replaceFirst_none hp hone (hnot m hfree)
    show (find? _ (replaceFirst _ _ a.perps)).map _ = _
    rw [hfind]
    rfl
  · intro hfree
    have hfind := find?_replaceFirst_self (x := { p with marketIndex := FREE_ORDER_SLOT }) hp
      (decide_eq_true hfree.symm)
    show (find? _ (replaceFirst _ _ a.perps)).map _ = _
    rw [hfind]
    rfl
  · intro m' hne hm'
    have hold : isActiveForMarket m' p = false := by
      unfold isActiveForMarket
      rw [hm]
      exact decide_eq_false (Ne.symm hne)
    show (find? _ (replaceFirst _ _ a.perps)).map _ = _
    rw [find?_replaceFirst_of_not hp hold (hnot m' hm')]
    rfl
  · intro m' hm'
    have hcount := countP_replaceFirst (q := isActiveForMarket m')
      (x := { p with marketIndex := FREE_ORDER_SLOT }) hp
    rw [hnot m' hm'] at hcount
    exact Nat.le_trans (Nat.le_add_right _ _) (Nat.le_of_eq hcount)

/-! ## What an account keeps -/

/-- The slots that belong to market `m` are the same in both lists. -/
def SameSlots (m : PerpMarketIndex) (orders orders' : List PerpOpenOrder) : Prop :=
  ∀ (i : Nat) (oo : PerpOpenOrder), oo.market = m → (orders'[i]? = some oo ↔ orders[i]? = some oo)

theorem SameSlots.refl (m : PerpMarketIndex) (orders : List PerpOpenOrder) :
    SameSlots m orders orders := fun _ _ _ => Iff.rfl

theorem SameSlots.trans {orders₁ orders₂ : List PerpOpenOrder}
    (h : SameSlots m orders orders₁) (h' : SameSlots m orders₁ orders₂) :
    SameSlots m orders orders₂ := fun i oo hm => (h' i oo hm).trans (h i oo hm)

/-- Writing a slot that neither belonged nor belongs to the market. -/
theorem SameSlots.set
    {old new : PerpOpenOrder} (hold : orders[slot]? = some old) (hne : old.market ≠ m)
    (hne' : new.market ≠ m) : SameSlots m orders (orders.set slot new) := by
  intro i oo hm
  by_cases hi : slot = i
  · subst hi
    have hlt := (List.getElem?_eq_some_iff.mp hold).1
    rw [List.getElem?_set_self hlt, hold]
    constructor
    · intro h
      exact absurd (some.inj h ▸ hm) hne'
    · intro h
      exact absurd (some.inj h ▸ hm) hne
  · rw [getElem?_set_ne hi]

theorem SlotUpdate.sameSlots (h : SlotUpdate m' slot orderId out orders orders')
    (hm : m ≠ m') (hfree : m ≠ FREE_ORDER_SLOT) : SameSlots m orders orders' := by
  cases h with
  | kept _ _ => exact .refl m orders
  | cleared _ hoo hm' _ => exact .set hoo (hm' ▸ hm.symm) hfree.symm
  | reduced quantity hoo hm' _ => exact .set hoo (hm' ▸ hm.symm) (hm' ▸ hm.symm)

theorem SlotUpdate.length_eq (h : SlotUpdate m slot orderId out orders orders') :
    orders'.length = orders.length := by
  cases h with
  | kept _ _ => rfl
  | cleared _ _ _ _ => exact length_set
  | reduced _ _ _ _ => exact length_set

/-- What a change for market `m'` leaves alone on an account.  If `P` holds, no
    position has been created or closed. -/
structure Apart (m' : PerpMarketIndex) (P : Prop) (a a' : MangoAccount) : Prop where
  ledger : ∀ m, m ≠ m' → m ≠ FREE_ORDER_SLOT ∨ P → a'.ledgerOf m = a.ledgerOf m
  slots : ∀ m, m ≠ m' → m ≠ FREE_ORDER_SLOT → SameSlots m a.perpOpenOrders a'.perpOpenOrders
  count : ∀ m, m ≠ FREE_ORDER_SLOT → a'.perpCount m ≤ max 1 (a.perpCount m)
  slotCount : a'.perpOpenOrders.length = a.perpOpenOrders.length

theorem Apart.refl (m' : PerpMarketIndex) (P : Prop) (a : MangoAccount) : Apart m' P a a :=
  ⟨fun _ _ _ => rfl, fun m _ _ => .refl m _, fun _ _ => Nat.le_max_right .., rfl⟩

theorem Apart.trans (h : Apart m' P a a₁) (h' : Apart m' P a₁ a₂) : Apart m' P a a₂ where
  ledger := fun m hm hp => (h'.ledger m hm hp).trans (h.ledger m hm hp)
  slots := fun m hm hfree => (h.slots m hm hfree).trans (h'.slots m hm hfree)
  count := fun m hfree => by
    have h₁ := h.count m hfree
    have h₂ := h'.count m hfree
    omega
  slotCount := h'.slotCount.trans h.slotCount

/-- A change of the account that touches neither positions nor slots. -/
theorem Apart.of_eq (hperps : a'.perps = a.perps) (horders : a'.perpOpenOrders = a.perpOpenOrders) :
    Apart m' P a a' where
  ledger := fun m _ _ => by rw [ledgerOf, ledgerOf, perpPosition, perpPosition, hperps]
  slots := fun m _ _ => horders ▸ .refl m _
  count := fun m _ => by
    rw [perpCount, perpCount, hperps]
    exact Nat.le_max_right ..
  slotCount := congrArg length horders

theorem PerpMoves.apart
    (h : PerpMoves a a' m' l l') (hcount : a'.perpOpenOrders.length = a.perpOpenOrders.length)
    (hslots : ∀ m, m ≠ m' → m ≠ FREE_ORDER_SLOT →
      SameSlots m a.perpOpenOrders a'.perpOpenOrders) : Apart m' P a a' where
  ledger := fun m hm _ => h.others m hm
  slots := hslots
  count := fun m _ => by
    rw [h.count m]
    exact Nat.le_max_right ..
  slotCount := hcount

theorem PerpMoves.apart_of_orders (h : PerpMoves a a' m' l l') (horders : a'.perpOpenOrders = a.perpOpenOrders) :
    Apart m' P a a' :=
  h.apart (congrArg length horders) fun m _ _ => horders ▸ .refl m _

theorem Ensured.apart (hP : ¬ P)
    (h : Ensured a a' m') (horders : a'.perpOpenOrders = a.perpOpenOrders) : Apart m' P a a' := by
  cases h with
  | existing _ hperps => exact .of_eq hperps horders
  | created _ _ hothers hcount =>
    refine ⟨fun m hm hp => ?_, fun m _ _ => horders ▸ .refl m _, fun m hfree => ?_,
      congrArg length horders⟩
    · exact (hothers m hm (hp.resolve_right hP)).1
    · by_cases hm : m = m'
      · rw [hm, hcount]
        exact Nat.le_max_left ..
      · rw [(hothers m hm hfree).2]
        exact Nat.le_max_right ..

theorem Deactivated.apart (hP : ¬ P) (h : Deactivated a a' m' l) (horders : a'.perpOpenOrders = a.perpOpenOrders) :
    Apart m' P a a' where
  ledger := fun m hm hp => h.others m hm (hp.resolve_right hP)
  slots := fun m _ _ => horders ▸ .refl m _
  count := fun m hfree => Nat.le_trans (h.count m hfree) (Nat.le_max_right ..)
  slotCount := congrArg length horders

end MangoAccount

end MangoV4
