/-
  MangoV4.Orderbook.Book

  Placing and cancelling orders (`book.rs`).

  `newOrder` is cut at the comments of the source: the matching loop, which
  collects changes and deletions (`matchOrder`); recording the taker trade
  (`recordTaker`); applying the collected changes to the opposing side
  (`applyChanges`, `applyDeletes`); posting the remainder (`postRemainder`).
  The loop walks the iterator as the source does, so a book side with an
  unreadable order is no problem unless the loop gets there.
-/

import MangoV4.Orderbook.Order
import MangoV4.State.MangoAccount

namespace MangoV4

open Lib Lib.Exec

/-- Drop at most this many expired orders when trying to match. -/
def DROP_EXPIRED_ORDER_LIMIT : Nat := 5

/-- `i64` division. -/
def divI64 (x y : Int) : Exec Int :=
  if y = 0 then panic .divideByZero else checkI64 (x.tdiv y)

/-! ## Matching -/

/-- What the matching loop reads but does not change. -/
structure MatchContext where
  side : Side
  priceLots : Int
  postOnly : Bool
  selfTradeBehavior : SelfTradeBehavior
  clientOrderId : Nat
  accountPk : Pubkey
  nowTs : Nat
  makerFee : I80F48
  takerFee : I80F48

/-- The context of an order. -/
def MatchContext.of (order : Order) (market : PerpMarket) (accountPk : Pubkey) (nowTs : Nat)
    (priceLots : Int) : MatchContext where
  side := order.side
  priceLots := priceLots
  postOnly := order.isPostOnly
  selfTradeBehavior := order.selfTradeBehavior
  clientOrderId := order.clientOrderId
  accountPk := accountPk
  nowTs := nowTs
  makerFee := market.makerFee
  takerFee := market.takerFee

/-- The variables of the matching loop. -/
structure MatchState where
  remainingBaseLots : Int
  remainingQuoteLots : Int
  decrementedBaseLots : Int
  decrementedQuoteLots : Int
  ordersToChange : List (BookSideOrderHandle × Int)
  ordersToDelete : List (BookSideOrderTree × Key)
  droppedExpired : Nat
  postTarget : Option BookSideOrderTree
  limit : Nat
  eventQueue : EventQueue

namespace MatchState

/-- Takes the opposing order off the book, with an out event. -/
def dropBest (st : MatchState) (ctx : MatchContext) (best : BookSideIterItem) :
    Exec MatchState := do
  let event := OutEvent.fromLeafNode ctx.side.invertSide ctx.nowTs st.eventQueue.seqNum best.node
  let eventQueue ← st.eventQueue.pushBack (.out event)
  return { st with
    eventQueue
    ordersToDelete := st.ordersToDelete ++ [(best.handle.orderTree, best.node.key)] }

/-- Fills the opposing order with `matchBaseLots`. -/
def fillBest (st : MatchState) (ctx : MatchContext) (best : BookSideIterItem)
    (matchBaseLots matchQuoteLots : Int) (makerFee takerFee : I80F48) : Exec MatchState := do
  let remainingBaseLots ← checkI64 (st.remainingBaseLots - matchBaseLots)
  let remainingQuoteLots ← checkI64 (st.remainingQuoteLots - matchQuoteLots)
  assert (decide (0 ≤ remainingQuoteLots))
  let newQuantity ← checkI64 (best.node.quantity - matchBaseLots)
  let makerOut := decide (newQuantity = 0)
  let fill := FillEvent.new ctx.side makerOut best.node.ownerSlot ctx.nowTs st.eventQueue.seqNum
    best.node.owner best.node.key best.node.clientOrderId makerFee best.node.timestamp
    ctx.accountPk ctx.clientOrderId takerFee best.priceLots matchBaseLots
  let eventQueue ← st.eventQueue.pushBack (.fill fill)
  let limit ← subUnsigned st.limit 1
  return { st with
    remainingBaseLots, remainingQuoteLots, eventQueue, limit
    ordersToDelete := if makerOut then
      st.ordersToDelete ++ [(best.handle.orderTree, best.node.key)] else st.ordersToDelete
    ordersToChange := if makerOut then st.ordersToChange
      else st.ordersToChange ++ [(best.handle, newQuantity)] }

end MatchState

/-- An order that has not expired, is within its peg limit and at a price the
    taker accepts. -/
def matchValid (ctx : MatchContext) (st : MatchState) (best : BookSideIterItem) :
    Exec (ForInStep MatchState) := do
  let maxMatchByQuote ← divI64 st.remainingQuoteLots best.priceLots
  if maxMatchByQuote = 0 then return .done st
  else
    let matchBaseLots := min (min st.remainingBaseLots best.node.quantity) maxMatchByQuote
    let matchQuoteLots ← checkI64 (matchBaseLots * best.priceLots)
    if ctx.accountPk = best.node.owner then
      match ctx.selfTradeBehavior with
      | .decrementTake =>
        -- no fees are charged on self-trades
        let decrementedQuoteLots ← checkI64 (st.decrementedQuoteLots + matchQuoteLots)
        let decrementedBaseLots ← checkI64 (st.decrementedBaseLots + matchBaseLots)
        let st := { st with decrementedQuoteLots, decrementedBaseLots }
        return .yield (← st.fillBest ctx best matchBaseLots matchQuoteLots .zero .zero)
      | .cancelProvide => return .yield (← st.dropBest ctx best)
      | .abortTransaction => fail .wouldSelfTrade
    else return .yield (← st.fillBest ctx best matchBaseLots matchQuoteLots ctx.makerFee ctx.takerFee)

/-- The body of the matching loop. -/
def matchStep (ctx : MatchContext) (st : MatchState) (best : BookSideIterItem) :
    Exec (ForInStep MatchState) :=
  if st.remainingBaseLots = 0 ∨ st.remainingQuoteLots = 0 then .ok (.done st)
  else if !best.isValid then
    -- remove the order from the book unless we've done that enough
    if st.droppedExpired < DROP_EXPIRED_ORDER_LIMIT then do
      return .yield (← { st with droppedExpired := st.droppedExpired + 1 }.dropBest ctx best)
    else .ok (.yield st)
  else if !ctx.side.isPriceWithinLimit best.priceLots ctx.priceLots then .ok (.done st)
  else if ctx.postOnly then .ok (.done { st with postTarget := none })
  else if st.limit = 0 then .ok (.done { st with postTarget := none })
  else matchValid ctx st best

/-- The matching loop. -/
def matchLoop (t : OrderTreeNodes) (ctx : MatchContext) :
    Nat → BookSideIter → MatchState → Exec MatchState
  | 0, _, _ => diverge
  | fuel + 1, it, st => do
    match ← it.next t with
    | (none, _) => return st
    | (some best, it) =>
      match ← matchStep ctx st best with
      | .done st => return st
      | .yield st => matchLoop t ctx fuel it st

/-- The loop variables before the loop. -/
def MatchState.start (order : Order) (limit : Nat) (eventQueue : EventQueue) : MatchState where
  remainingBaseLots := order.maxBaseLots
  remainingQuoteLots := order.maxQuoteLots
  decrementedBaseLots := 0
  decrementedQuoteLots := 0
  ordersToChange := []
  ordersToDelete := []
  droppedExpired := 0
  postTarget := order.postTarget
  limit := limit
  eventQueue := eventQueue

/-- Matches an order against the opposing side. -/
def matchOrder (opposing : BookSide) (ctx : MatchContext) (oraclePriceLots : Int)
    (start : MatchState) : Exec MatchState := do
  let it ← opposing.iterAllIncludingInvalid ctx.nowTs oraclePriceLots
  matchLoop opposing.nodes ctx (2 * MAX_ORDERTREE_NODES) it start

/-- Apply changes to matched orders (handles invalidate on delete!). -/
def applyChanges (b : BookSide) : List (BookSideOrderHandle × Int) → Exec BookSide
  | [] => .ok b
  | (handle, quantity) :: changes => do
    applyChanges (← b.setQuantity handle.node quantity) changes

def applyDeletes (b : BookSide) : List (BookSideOrderTree × Key) → Exec BookSide
  | [] => .ok b
  | (component, key) :: deletes => do
    let (removed, b) ← b.removeByKey component key
    let _ ← unwrap removed
    applyDeletes b deletes

/-! ## Fees -/

/-- Taker fees for the account; maker and taker fees for the market. -/
def applyFees (market : PerpMarket) (account : MangoAccount) (quoteLots : Int) :
    Exec (PerpMarket × MangoAccount) := do
  assert (decide (0 ≤ quoteLots))
  let quoteNative : I80F48 ← Fixed.ofInt (← checkI64 (market.quoteLotSize * quoteLots))
  let makerFees ← quoteNative.mul market.makerFee
  let takerFees ← quoteNative.mul market.takerFee
  require (decide (Fixed.zero ≤ takerFees)) .requireGteViolated
  -- the part of the taker fees that does not pay for maker rebates
  let takerDaoFees := (← takerFees.add (makerFees.min .zero)).max .zero
  let account := account.accrueBuybackFees (← takerDaoFees.toU64)
  let p ← account.perpPositionMut market.perpMarketIndex
  let p ← p.recordTradingFee takerFees
  let takerVolume ← checkU64 (p.takerVolume + (← takerFees.toU64))
  let account := account.setPerpPosition market.perpMarketIndex { p with takerVolume }
  let feesAccrued ← market.feesAccrued.add (← takerFees.add makerFees)
  return ({ market with feesAccrued }, account)

/-- A fixed penalty fee. -/
def applyPenalty (market : PerpMarket) (account : MangoAccount) :
    Exec (PerpMarket × MangoAccount) := do
  let account := account.accrueBuybackFees (← market.feePenalty.toU64)
  let p ← account.perpPositionMut market.perpMarketIndex
  let account := account.setPerpPosition market.perpMarketIndex
    (← p.recordTradingFee market.feePenalty)
  let feesAccrued ← market.feesAccrued.add market.feePenalty
  return ({ market with feesAccrued }, account)

/-- Record the taker trade in the account already, even though it will only be
    realized when the fill event gets executed. -/
def recordTaker (order : Order) (st : MatchState) (market : PerpMarket) (account : MangoAccount) :
    Exec (PerpMarket × MangoAccount) := do
  let totalQuoteLotsTaken ← checkI64 (order.maxQuoteLots - st.remainingQuoteLots)
  let totalBaseLotsTaken ← checkI64 (order.maxBaseLots - st.remainingBaseLots)
  assert (decide (0 ≤ totalQuoteLotsTaken))
  assert (decide (0 ≤ totalBaseLotsTaken))
  if 0 < totalQuoteLotsTaken ∨ 0 < totalBaseLotsTaken then
    let p ← account.perpPositionMut market.perpMarketIndex
    let p ← p.addTakerTrade order.side totalBaseLotsTaken totalQuoteLotsTaken
    let account := account.setPerpPosition market.perpMarketIndex p
    applyFees market account (← checkI64 (totalQuoteLotsTaken - st.decrementedQuoteLots))
  else return (market, account)

/-! ## Posting -/

/-- Where the remainder goes, if anywhere. -/
def postingTarget (market : PerpMarket) (side : Side) (priceLots : Int) (oraclePrice : I80F48)
    (target : Option BookSideOrderTree) (bookBaseQuantity : Int) :
    Exec (Option BookSideOrderTree) :=
  if bookBaseQuantity ≤ 0 then .ok none
  else match target with
    | none => .ok none
    | some tree => do
      let nativePrice ← market.lotToNativePrice priceLots
      let inside ← market.insidePriceLimit side nativePrice oraclePrice
      return if inside then some tree else none

/-- Drops an expired order if possible, and the worst one if the side is full. -/
def makeRoom (b : BookSide) (side : Side) (target : BookSideOrderTree) (priceLots : Int)
    (nowTs : Nat) (oraclePriceLots : Int) (eventQueue : EventQueue) :
    Exec (BookSide × EventQueue) := do
  let (expired, b) ← b.removeOneExpired target nowTs
  let eventQueue ← (match expired with
    | some leaf => eventQueue.pushBack (.out (.fromLeafNode side nowTs eventQueue.seqNum leaf))
    | none => .ok eventQueue : Exec EventQueue)
  if b.isFull then
    let (worst, b) ← b.removeWorst nowTs oraclePriceLots
    let (worstOrder, worstPrice) ← unwrap worst
    require (side.isPriceBetter priceLots worstPrice) .someError
    let eventQueue ←
      eventQueue.pushBack (.out (.fromLeafNode side nowTs eventQueue.seqNum worstOrder))
    return (b, eventQueue)
  else return (b, eventQueue)

/-- The leaf of an order that is posted. -/
def newLeaf (order : Order) (ownerSlot : Nat) (orderId : Key) (accountPk : Pubkey)
    (quantity : Int) (nowTs : Nat) : LeafNode where
  ownerSlot := ownerSlot % 2 ^ 8
  orderType := .limit
  timeInForce := order.timeInForce
  key := orderId
  owner := accountPk
  quantity := quantity
  timestamp := nowTs
  pegLimit := order.pegLimit
  clientOrderId := order.clientOrderId

/-- Puts a new leaf on the book and into an open-order slot of the account. -/
def postLeaf (b : BookSide) (target : BookSideOrderTree) (order : Order)
    (perpMarketIndex : PerpMarketIndex) (account : MangoAccount) (accountPk : Pubkey)
    (orderId : Key) (quantity : Int) (nowTs : Nat) : Exec (BookSide × MangoAccount) := do
  let ownerSlot ← account.perpNextOrderSlot
  let leaf := newLeaf order ownerSlot orderId accountPk quantity nowTs
  match ← b.insertLeaf target leaf with
  | (.error e, _) => fail e
  | (.ok _, b) =>
    let account ← account.addPerpOrder perpMarketIndex order.side target leaf
    return (b, account)

namespace Orderbook

/-- Places the remainder on the book, if there is one and it may rest there. -/
def postRemainder (book : Orderbook) (order : Order) (market : PerpMarket) (st : MatchState)
    (oraclePrice : I80F48) (oraclePriceLots priceLots : Int) (orderId : Key)
    (account : MangoAccount) (accountPk : Pubkey) (nowTs : Nat) :
    Exec (Option Key × Orderbook × EventQueue × MangoAccount) := do
  let side := order.side
  let bookBaseQuantity := min st.remainingBaseLots (← divI64 st.remainingQuoteLots priceLots)
  match ← postingTarget market side priceLots oraclePrice st.postTarget bookBaseQuantity with
  | none => return (none, book, st.eventQueue, account)
  | some target =>
    let (b, eventQueue) ← makeRoom (book.bookside side) side target priceLots nowTs
      oraclePriceLots st.eventQueue
    let (b, account) ← postLeaf b target order market.perpMarketIndex account accountPk orderId
      bookBaseQuantity nowTs
    return (some orderId, book.setBookside side b, eventQueue, account)

def newOrder (book : Orderbook) (order : Order) (market : PerpMarket) (eventQueue : EventQueue)
    (oraclePrice : I80F48) (account : MangoAccount) (accountPk : Pubkey) (nowTs limit : Nat) :
    Exec (Option Key × Orderbook × PerpMarket × EventQueue × MangoAccount) := do
  let side := order.side
  let oraclePriceLots ← market.nativePriceToLot oraclePrice
  let (priceLots, priceData) ← order.price nowTs oraclePriceLots book
  let (orderId, market) ← market.genOrderId side priceData
  let (market, account) ← (if order.needsPenaltyFee then applyPenalty market account
    else .ok (market, account) : Exec (PerpMarket × MangoAccount))
  let _ ← account.perpPositionMut market.perpMarketIndex
  let opposing := book.bookside side.invertSide
  let st ← matchOrder opposing (.of order market accountPk nowTs priceLots) oraclePriceLots
    (.start order limit eventQueue)
  let (market, account) ← recordTaker order st market account
  let opposing ← applyChanges opposing st.ordersToChange
  let opposing ← applyDeletes opposing st.ordersToDelete
  let book := book.setBookside side.invertSide opposing
  let (posted, book, eventQueue, account) ← book.postRemainder order market st oraclePrice
    oraclePriceLots priceLots orderId account accountPk nowTs
  return (posted, book, market, eventQueue, account)

/-! ## Cancelling -/

/-- Cancels an order in an open order slot, removing it from the open orders
    and from the book (unless already filled or expired). -/
def cancelOrderBySlot (book : Orderbook) (account : MangoAccount) (accountPk : Pubkey)
    (slot : Nat) (perpMarketIndex : PerpMarketIndex) : Exec (Orderbook × MangoAccount) := do
  let oo ← account.perpOrderByRawIndex slot
  require (oo.isActiveForMarket perpMarketIndex) .someError
  let side := oo.sideAndTree.side
  let (leaf, b) ← (book.bookside side).removeByKey oo.sideAndTree.orderTree oo.id
  let book := book.setBookside side b
  let onBookQuantity ← (match leaf with
    | some leaf => do
      require (decide (leaf.ownerSlot = slot)) .requireEqViolated
      require (decide (leaf.owner = accountPk)) .requireKeysEqViolated
      return leaf.quantity
    | none =>
      -- an order without a quantity may still be matched by its event
      if oo.quantity = 0 then fail .perpOrderIdNotFound else .ok 0 : Exec Int)
  return (book, ← account.removePerpOrder slot onBookQuantity)

/-- One round of the loop in `cancel_all_orders`. -/
def cancelStep (accountPk : Pubkey) (perpMarketIndex : PerpMarketIndex) (sideToCancel : Option Side)
    (i : Nat) (book : Orderbook) (account : MangoAccount) (limit : Nat) :
    Exec (ForInStep (Orderbook × MangoAccount × Nat)) := do
  let oo ← account.perpOrderByRawIndex i
  if !oo.isActiveForMarket perpMarketIndex then return .yield (book, account, limit)
  else if sideToCancel.any fun side => decide (side ≠ oo.sideAndTree.side) then
    return .yield (book, account, limit)
  else
    let (book, account) ←
      (match book.cancelOrderBySlot account accountPk i perpMarketIndex with
        -- filled or expired already, an event on the queue will free the slot
        | .error (.error .perpOrderIdNotFound) => .ok (book, account)
        | r => r : Exec (Orderbook × MangoAccount))
    let limit ← subUnsigned limit 1
    return if limit = 0 then .done (book, account, limit) else .yield (book, account, limit)

def cancelLoop (accountPk : Pubkey) (perpMarketIndex : PerpMarketIndex)
    (sideToCancel : Option Side) :
    List Nat → Orderbook → MangoAccount → Nat → Exec (Orderbook × MangoAccount)
  | [], book, account, _ => .ok (book, account)
  | i :: is, book, account, limit => do
    match ← cancelStep accountPk perpMarketIndex sideToCancel i book account limit with
    | .done (book, account, _) => return (book, account)
    | .yield (book, account, limit) =>
      cancelLoop accountPk perpMarketIndex sideToCancel is book account limit

/-- Cancels up to `limit` orders that are listed on the account for the market. -/
def cancelAllOrders (book : Orderbook) (account : MangoAccount) (accountPk : Pubkey)
    (perpMarketIndex : PerpMarketIndex) (limit : Nat) (sideToCancel : Option Side) :
    Exec (Orderbook × MangoAccount) :=
  cancelLoop accountPk perpMarketIndex sideToCancel (List.range account.perpOpenOrders.length)
    book account limit

/-- What every single cancel keeps, the loop keeps. -/
theorem cancelLoop_preserves {P : Orderbook → MangoAccount → Prop} {accountPk : Pubkey}
    {perpMarketIndex : PerpMarketIndex}
    (hcancel : ∀ {book book' : Orderbook} {account account' : MangoAccount} {slot : Nat},
      P book account → book.cancelOrderBySlot account accountPk slot perpMarketIndex =
        .ok (book', account') → P book' account')
    (sideToCancel : Option Side) (slots : List Nat) :
    ∀ {book book' : Orderbook} {account account' : MangoAccount} {limit : Nat}, P book account →
      cancelLoop accountPk perpMarketIndex sideToCancel slots book account limit =
        .ok (book', account') → P book' account' := by
  induction slots with
  | nil =>
    intro book book' account account' limit hP h
    obtain ⟨rfl, rfl⟩ := ok_inj₂ h
    exact hP
  | cons i slots ih =>
    intro book book' account account' limit hP h
    obtain ⟨step, hstep, h⟩ := of_bind h
    obtain ⟨oo, -, hstep⟩ := of_bind hstep
    split at hstep
    · -- a slot of another market
      obtain rfl := ok_inj hstep
      exact ih hP h
    · split at hstep
      · obtain rfl := ok_inj hstep
        exact ih hP h
      · obtain ⟨⟨book₁, account₁⟩, hone, hstep⟩ := of_bind hstep
        obtain ⟨limit', -, hstep⟩ := of_bind hstep
        have hP₁ : P book₁ account₁ := by
          split at hone
          · obtain ⟨rfl, rfl⟩ := ok_inj₂ hone
            exact hP
          · exact hcancel hP hone
        have hstep := ok_inj hstep
        split at hstep
        · subst hstep
          obtain ⟨rfl, rfl⟩ := ok_inj₂ h
          exact hP₁
        · subst hstep
          exact ih hP₁ h

end Orderbook

/-! ## A plain market -/

/-- A market without fees and with lots of size one, whose price limits are
    half and twice the oracle price. -/
def PerpMarket.plain (perpMarketIndex : PerpMarketIndex) : PerpMarket where
  perpMarketIndex := perpMarketIndex
  settleTokenIndex := 0
  quoteLotSize := 1
  baseLotSize := 1
  maintBaseAssetWeight := ⟨2 ^ 47, by decide⟩
  initBaseAssetWeight := ⟨2 ^ 47, by decide⟩
  maintBaseLiabWeight := .ofSmall 2
  initBaseLiabWeight := .ofSmall 2
  openInterest := 0
  seqNum := 0
  longFunding := .zero
  shortFunding := .zero
  makerFee := .zero
  takerFee := .zero
  feesAccrued := .zero
  accruedLiquidationFees := .zero
  feePenalty := .zero
  stablePrice := .ofSmall 20
  settlePnlLimitFactor := .zero
  settlePnlLimitWindowSizeTs := 1
  baseLiquidationFee := .zero
  platformLiquidationFee := .zero
  reduceOnly := false

/-- An account with a position in the market and two free order slots. -/
def MangoAccount.plain (perpMarketIndex : PerpMarketIndex) : MangoAccount where
  tokens := [{ tokenIndex := 0, inUseCount := 1 }]
  perps := [{ PerpPosition.default with marketIndex := perpMarketIndex }]
  perpOpenOrders := [.cleared, .cleared]
  buybackFeesExpiryTimestamp := 0
  buybackFeesAccruedCurrent := 0
  buybackFeesAccruedPrevious := 0
  perpOoCount_lt := by decide

/-- A limit order without expiry. -/
def Order.plain (side : Side) (priceLots : I64) (maxBaseLots maxQuoteLots : Int) : Order where
  side := side
  maxBaseLots := maxBaseLots
  maxQuoteLots := maxQuoteLots
  clientOrderId := 0
  reduceOnly := false
  timeInForce := 0
  selfTradeBehavior := .decrementTake
  params := .fixed priceLots .limit

/-- A resting order of account `owner` without expiry. -/
def LeafNode.plain (side : Side) (priceLots quantity : Int) (owner : Pubkey) (seqNum : Nat) :
    LeafNode where
  ownerSlot := 0
  orderType := .limit
  timeInForce := 0
  key := newNodeKey side (BitVec.ofInt 64 priceLots) (BitVec.ofNat 64 seqNum)
  owner := owner
  quantity := quantity
  timestamp := 0
  pegLimit := -1
  clientOrderId := 0

end MangoV4
