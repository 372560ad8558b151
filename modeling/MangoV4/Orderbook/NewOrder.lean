/-
  MangoV4.Orderbook.NewOrder

  What a whole `new_order` call does.

  `newOrder_run` cuts a successful call into its phases, each described by the
  spec of the function that computes it (`OrderRun`).  Results about new orders
  start from it and never look at the code of `newOrder` again.
-/

import MangoV4.Orderbook.Matching

namespace MangoV4

open Lib Lib.Exec MangoAccount List Fixed BookSide

/-! ## Matching against a book side -/

variable {b b' : BookSide} {oracle priceLots : Int}

theorem BookSide.taggedCells_eq {tree : BookSideOrderTree → Option NodeTree}
    {free : List NodeHandle} (h : Layout b tree free) :
    b.taggedCells = tagLists (b.cells tree .fixed) (b.cells tree .oraclePegged) := by
  have hcells : ∀ c, b.cellSet c = b.cells tree c := by
    intro c
    unfold cellSet
    rw [iterComponent_eq h]
  rw [taggedCells, tagBoth, hcells, hcells]
  rfl

/-- Matching is a list of hits of different leaves. -/
theorem matchOrder_spec {ctx : MatchContext} {start st : MatchState} (hwf : b.WellFormed)
    (h : matchOrder b ctx oracle start = .ok st) :
    ∃ hits : List Hit, (hits.map fun h => h.item.cell : List _) ≤ b.taggedCells ∧
      (∀ h ∈ hits, h.item = itemOf b.side ctx.nowTs oracle h.item.cell) ∧
      Progress ctx start hits st ∧ (∀ h ∈ hits, h.Allowed ctx) ∧
      ((∀ x ∈ b.leaves, 0 < x.2.quantity) → Fair start hits st) := by
  obtain ⟨tree, free, hl⟩ := hwf
  obtain ⟨it, hnew, hit, hnow, horacle, hleft⟩ := iter_holds hl ctx.nowTs oracle
  obtain ⟨it', hnew', h⟩ := of_bind h
  obtain rfl : it' = it := ok_unique hnew' hnew
  obtain ⟨xs, hxs, hitems⟩ := matchLoop_items hit h
  rw [← taggedCells_eq hl] at hxs
  have hside : it'.fixedIter.side = b.side := by
    unfold OrderTreeIter.side side
    rw [hleft]
    cases b.nodes.orderTreeType <;> rfl
  rw [hside, hnow, horacle] at hitems
  obtain ⟨hits, hsub, hprog, hallowed, -, hfair⟩ := matchItems_spec _ hitems
  obtain ⟨ys, hys, hmap⟩ := sublist_map_iff.mp hsub
  have hitem : ∀ h ∈ hits, h.item = itemOf b.side ctx.nowTs oracle h.item.cell := by
    intro h hmem
    have hin : h.item ∈ ys.map (itemOf b.side ctx.nowTs oracle) :=
      hmap ▸ mem_map_of_mem hmem
    obtain ⟨y, -, hy⟩ := mem_map.mp hin
    rw [← hy, cell_itemOf]
  refine ⟨hits, ?_, hitem, hprog, hallowed, fun hpos => hfair fun item hmem => ?_⟩
  · have hcells : (hits.map fun h => h.item.cell) = ys := by
      have heq := congrArg (map BookSideIterItem.cell) hmap
      rw [map_map, map_map] at heq
      have hid : (BookSideIterItem.cell ∘ itemOf b.side ctx.nowTs oracle) = id := by
        funext y
        exact cell_itemOf ..
      rw [hid, map_id] at heq
      exact heq
    rw [hcells]
    exact le_trans (Multiset.coe_le.mpr hys.subperm) hxs
  · obtain ⟨x, hx, rfl⟩ := mem_map.mp hmem
    refine ⟨itemOf_price_nonneg .., ?_⟩
    have hleaf : (x.1, x.2.2) ∈ b.leaves :=
      Multiset.mem_map_of_mem (Prod.map id Prod.snd) (Multiset.mem_of_le hxs hx)
    obtain ⟨c, x⟩ := x
    have hq := hpos _ hleaf
    cases c <;> exact hq

/-! ## The account -/

section Account

variable {market market' : PerpMarket} {account account' : MangoAccount}

/-- The quote of the account and the fees that the market has collected.  It does not
    see taker fees and penalties, which go from one to the other, but does see maker
    fees: the market collects them when orders match, and the makers pay when the
    fill events are processed. -/
def MangoAccount.booked (a : MangoAccount) (market : PerpMarket) : ℚ :=
  a.equityIn market + market.feesAccrued.toRat

/-- The account pays a fee to the market, which collects `x` more than that. -/
structure Charges (market market' : PerpMarket) (account account' : MangoAccount) (x : ℚ) :
    Prop where
  market_eq : ∃ feesAccrued, market' = { market with feesAccrued }
  moves : ∃ l, PerpMoves account account' market.perpMarketIndex l l
  orders : account'.perpOpenOrders = account.perpOpenOrders
  booked : account'.booked market' = account.booked market + x

theorem charges_tradingFee {p p' : PerpPosition} {fee feesAccrued : I80F48} {x : ℚ}
    (takerVolume : Nat) (hp : account.perpPosition market.perpMarketIndex = some p)
    (hfee : p.recordTradingFee fee = .ok p')
    (haccrued : feesAccrued.toRat = market.feesAccrued.toRat + (fee.toRat + x)) :
    Charges market { market with feesAccrued } account
      (account.setPerpPosition market.perpMarketIndex { p' with takerVolume }) x := by
  have hbooks := PerpPosition.recordTradingFee_books hfee
  have hkeeps := hbooks.1
  have hmoves : p.Moves { p' with takerVolume } p.ledger := ⟨hkeeps.1, hkeeps.2⟩
  have hpays : p.Pays { p' with takerVolume } (-fee.toRat) :=
    ⟨hbooks.pays.quote, hbooks.pays.longSettled, hbooks.pays.shortSettled⟩
  refine ⟨⟨_, rfl⟩, ⟨p.ledger, setPerpPosition_moves hp hmoves⟩, rfl, ?_⟩
  show (account.setPerpPosition market.perpMarketIndex { p' with takerVolume }).equityIn market +
    feesAccrued.toRat = account.equityIn market + market.feesAccrued.toRat + x
  rw [equityIn_setPerpPosition hp ⟨hmoves.1, congrArg Ledger.base hmoves.2⟩ hpays, haccrued]
  ring

/-- The taker pays its own fee; the maker fee is collected ahead of time. -/
theorem applyFees_spec {quoteLots : Int}
    (h : applyFees market account quoteLots = .ok (market', account')) :
    Charges market market' account account'
      (market.quoteLotSize * quoteLots * market.makerFee.toRat) := by
  obtain ⟨_, -, h⟩ := of_bind h
  obtain ⟨n, hn, h⟩ := of_bind h
  obtain ⟨quoteNative, hquote, h⟩ := of_bind h
  obtain ⟨makerFees, hmaker, h⟩ := of_bind h
  obtain ⟨takerFees, htaker, h⟩ := of_bind h
  obtain ⟨_, -, h⟩ := of_bind h
  obtain ⟨_, -, h⟩ := of_bind h
  obtain ⟨fees, -, h⟩ := of_bind h
  obtain ⟨p, hp, h⟩ := of_bind h
  obtain ⟨p', hfee, h⟩ := of_bind h
  obtain ⟨_, -, h⟩ := of_bind h
  obtain ⟨takerVolume, -, h⟩ := of_bind h
  obtain ⟨total, htotal, h⟩ := of_bind h
  obtain ⟨feesAccrued, haccrued, h⟩ := of_bind h
  obtain ⟨rfl, rfl⟩ := ok_inj₂ h
  obtain ⟨-, rfl⟩ := checkI64_eq_ok.mp hn
  have hmakerFees : makerFees.toRat = market.quoteLotSize * quoteLots * market.makerFee.toRat := by
    rw [toRat_mul_left (isWhole_ofInt hquote) hmaker]
    push_cast
    rfl
  have hcharges := charges_tradingFee (x := makerFees.toRat) takerVolume
    (perpPositionMut_eq_ok.mp hp) hfee (by rw [toRat_add haccrued, toRat_add htotal])
  rw [← hmakerFees]
  obtain ⟨l, hmoves⟩ := hcharges.moves
  exact ⟨hcharges.market_eq, ⟨l, hmoves.congr rfl rfl⟩, hcharges.orders, hcharges.booked⟩

/-- The penalty goes from the account to the market. -/
theorem applyPenalty_spec (h : applyPenalty market account = .ok (market', account')) :
    Charges market market' account account' 0 := by
  obtain ⟨fees, -, h⟩ := of_bind h
  obtain ⟨p, hp, h⟩ := of_bind h
  obtain ⟨p', hfee, h⟩ := of_bind h
  obtain ⟨feesAccrued, haccrued, h⟩ := of_bind h
  obtain ⟨rfl, rfl⟩ := ok_inj₂ h
  have hcharges := charges_tradingFee (x := 0) p'.takerVolume (perpPositionMut_eq_ok.mp hp) hfee
    (by rw [toRat_add haccrued, add_zero])
  obtain ⟨l, hmoves⟩ := hcharges.moves
  exact ⟨hcharges.market_eq, ⟨l, hmoves.congr rfl rfl⟩, hcharges.orders, hcharges.booked⟩

/-- Nothing moves on an account that keeps its positions. -/
theorem MangoAccount.PerpMoves.refl {m : PerpMarketIndex} {l : Ledger}
    (h : account.ledgerOf m = some l) : PerpMoves account account m l l :=
  ⟨h, h, fun _ _ => rfl, fun _ => rfl⟩

/-- The lots taken are not negative, the account counts them as taker lots, and
    maker fees are collected on what is not traded with itself. -/
theorem recordTaker_spec {order : Order} {st : MatchState} {l : Ledger}
    (hl : account.ledgerOf market.perpMarketIndex = some l)
    (h : recordTaker order st market account = .ok (market', account')) :
    (st.remainingQuoteLots ≤ order.maxQuoteLots ∧ st.remainingBaseLots ≤ order.maxBaseLots) ∧
    (∃ feesAccrued, market' = { market with feesAccrued }) ∧
    PerpMoves account account' market.perpMarketIndex l
      (l.addTaker (takerChange order.side (order.maxBaseLots - st.remainingBaseLots)
        (order.maxQuoteLots - st.remainingQuoteLots))) ∧
    account'.perpOpenOrders = account.perpOpenOrders ∧
    ((order.maxQuoteLots - st.remainingQuoteLots = 0 → st.decrementedQuoteLots = 0) →
      account'.booked market' = account.booked market + market.quoteLotSize *
        (order.maxQuoteLots - st.remainingQuoteLots - st.decrementedQuoteLots : Int) *
        market.makerFee.toRat) := by
  obtain ⟨-, h⟩ := of_checkI64 h
  obtain ⟨-, h⟩ := of_checkI64 h
  obtain ⟨_, hquote0, h⟩ := of_bind h
  obtain ⟨_, hbase0, h⟩ := of_bind h
  have hquote0 := of_assert hquote0
  have hbase0 := of_assert hbase0
  refine ⟨⟨by omega, by omega⟩, ?_⟩
  split at h
  · obtain ⟨p, hp, h⟩ := of_bind h
    obtain ⟨p', hadd, h⟩ := of_bind h
    obtain ⟨-, h⟩ := of_checkI64 h
    have hcharges := applyFees_spec h
    obtain ⟨l', hfees⟩ := hcharges.moves
    have hp := perpPositionMut_eq_ok.mp hp
    have hbooks := PerpPosition.addTakerTrade_books hadd
    have hmoves := setPerpPosition_moves hp hbooks.1
    have hp' := hmoves.before
    rw [hl] at hp'
    obtain rfl := Option.some.inj hp'
    have hl' := hfees.before
    rw [hmoves.after] at hl'
    obtain rfl := Option.some.inj hl'
    refine ⟨hcharges.market_eq, hmoves.trans hfees, hcharges.orders, fun _ => ?_⟩
    have hbase : p'.basePositionLots = p.basePositionLots := congrArg Ledger.base hbooks.1.2
    rw [hcharges.booked, MangoAccount.booked,
      equityIn_setPerpPosition hp ⟨hbooks.1.1, hbase⟩ hbooks.pays, add_zero]
    rfl
  · rename_i hzero
    obtain ⟨rfl, rfl⟩ := ok_inj₂ h
    have hq : order.maxQuoteLots - st.remainingQuoteLots = 0 := by omega
    have hb : order.maxBaseLots - st.remainingBaseLots = 0 := by omega
    have hsame : l.addTaker (takerChange order.side 0 0) = l := by
      cases order.side <;> simp [takerChange, Ledger.addTaker]
    rw [hq, hb, hsame]
    exact ⟨⟨_, rfl⟩, .refl hl, rfl, fun hself => by simp [hself rfl]⟩

end Account

/-! ## Posting -/

/-- Orders that leave the side of the new order, as events. -/
def roomEvents (side : Side) (nowTs seqNum : Nat) (outs : List (BookSideOrderTree × LeafNode)) :
    List AnyEvent :=
  outs.mapIdx fun i x => .out (.fromLeafNode side nowTs (seqNum + i) x.2)

/-- Making room takes orders off the book, each with an out event. -/
theorem makeRoom_spec {side : Side} {target : BookSideOrderTree} {nowTs : Nat} {q q' : EventQueue} (hwf : b.WellFormed)
    (h : makeRoom b side target priceLots nowTs oracle q = .ok (b', q')) :
    ∃ outs : List (BookSideOrderTree × LeafNode), b.leaves = outs + b'.leaves ∧ b'.WellFormed ∧
      b'.nodes.orderTreeType = b.nodes.orderTreeType ∧
      q'.events = q.events ++ roomEvents side nowTs q.seqNum outs := by
  obtain ⟨⟨expired, b₁⟩, hexpired, h⟩ := of_bind h
  obtain ⟨q₁, hpush, h⟩ := of_bind h
  -- the expired order, if there is one
  have hfirst : ∃ outs₁ : List (BookSideOrderTree × LeafNode), b.leaves = outs₁ + b₁.leaves ∧
      b₁.WellFormed ∧ b₁.nodes.orderTreeType = b.nodes.orderTreeType ∧
      q₁.events = q.events ++ roomEvents side nowTs q.seqNum outs₁ ∧
      q₁.seqNum = q.seqNum + outs₁.length := by
    rcases removeOneExpired_spec hwf hexpired with
      ⟨rfl, rfl⟩ | ⟨c, o, rest, rfl, hrest, hb₁⟩
    · obtain rfl := ok_inj hpush
      exact ⟨[], by simp, hwf, rfl, by simp [roomEvents], rfl⟩
    · obtain ⟨hevents, hseq⟩ := EventQueue.events_pushBack hpush
      refine ⟨[(c, o)], ?_, hb₁.wf, hb₁.type_eq, hevents, hseq⟩
      rw [hrest, hb₁.leaves_eq]
      exact (Multiset.singleton_add ..).symm
  obtain ⟨outs₁, hleaves₁, hwf₁, htype₁, hevents₁, hseq₁⟩ := hfirst
  split at h
  · obtain ⟨⟨worst, b₂⟩, hworst, h⟩ := of_bind h
    obtain ⟨⟨o, price⟩, hunwrap, h⟩ := of_bind h
    obtain ⟨_, -, h⟩ := of_bind h
    obtain ⟨q₂, hpush₂, h⟩ := of_bind h
    obtain ⟨rfl, rfl⟩ := ok_inj₂ h
    rcases removeWorst_spec hwf₁ hworst with
      ⟨rfl, -⟩ | ⟨c, o', price', rest, rfl, hrest, hb₂⟩
    · cases hunwrap
    · obtain ⟨rfl, rfl⟩ := Prod.mk.inj (Option.some.inj (unwrap_eq_ok.mp hunwrap))
      obtain ⟨hevents₂, -⟩ := EventQueue.events_pushBack hpush₂
      refine ⟨outs₁ ++ [(c, o')], ?_, hb₂.wf, hb₂.type_eq.trans htype₁, ?_⟩
      · rw [hleaves₁, hrest, hb₂.leaves_eq, ← Multiset.coe_add, add_assoc]
        exact congrArg _ (Multiset.singleton_add ..).symm
      · rw [hevents₂, hevents₁, hseq₁, roomEvents, roomEvents, mapIdx_append, append_assoc]
        simp
  · obtain ⟨rfl, rfl⟩ := ok_inj₂ h
    exact ⟨outs₁, hleaves₁, hwf₁, htype₁, hevents₁⟩

/-- The new leaf is on the book and in a slot of the account that was free. -/
structure Posted (b b' : BookSide) (target : BookSideOrderTree) (order : Order)
    (m : PerpMarketIndex) (account account' : MangoAccount) (pk : Pubkey) (orderId : Key)
    (quantity : Int) (nowTs : Nat) (slot : Nat) : Prop where
  insert : ∃ r, b.insertLeaf target (newLeaf order slot orderId pk quantity nowTs) = .ok (.ok r, b')
  free : ∃ oo, account.perpOpenOrders[slot]? = some oo ∧ oo.market = FREE_ORDER_SLOT
  slot_lt : slot < 2 ^ 8
  moves : ∃ l, MangoAccount.PerpMoves account account' m l (l.addMaker order.side quantity)
  orders : account'.perpOpenOrders = account.perpOpenOrders.set slot
    { market := m, sideAndTree := .new order.side target, id := orderId,
      clientId := order.clientOrderId, quantity }

theorem postLeaf_spec {target : BookSideOrderTree} {order : Order}
    {m : PerpMarketIndex} {account account' : MangoAccount} {pk : Pubkey} {orderId : Key}
    {quantity : Int} {nowTs : Nat}
    (h : postLeaf b target order m account pk orderId quantity nowTs = .ok (b', account')) :
    (∃ slot, Posted b b' target order m account account' pk orderId quantity nowTs slot) ∧
      ∀ market : PerpMarket, market.perpMarketIndex = m →
        account'.equityIn market = account.equityIn market := by
  obtain ⟨slot, hslot, h⟩ := of_bind h
  obtain ⟨⟨r, b₁⟩, hinsert, h⟩ := of_bind h
  obtain ⟨hfree, hlt⟩ := perpNextOrderSlot_eq_ok hslot
  cases r with
  | error e => cases h
  | ok r =>
    obtain ⟨account₁, hadd, h⟩ := of_bind h
    obtain ⟨rfl, rfl⟩ := ok_inj₂ h
    obtain ⟨hmoves, -, horders, hequity⟩ := addPerpOrder_spec hadd
    have howner : (newLeaf order slot orderId pk quantity nowTs).ownerSlot = slot :=
      Nat.mod_eq_of_lt hlt
    rw [howner] at horders
    exact ⟨⟨slot, ⟨r, hinsert⟩, hfree, hlt, hmoves, horders⟩, hequity⟩

/-! ## The whole call -/

theorem postingTarget_eq_some {market : PerpMarket} {side : Side}
    {oraclePrice : I80F48} {target : Option BookSideOrderTree} {quantity : Int}
    {tree : BookSideOrderTree}
    (h : postingTarget market side priceLots oraclePrice target quantity = .ok (some tree)) :
    0 < quantity ∧ target = some tree := by
  unfold postingTarget at h
  split at h
  · cases h
  · rename_i hquantity
    refine ⟨by omega, ?_⟩
    split at h
    · cases h
    · obtain ⟨_, -, h⟩ := of_bind h
      obtain ⟨inside, -, h⟩ := of_bind h
      have h := ok_inj h
      split at h
      · exact h
      · cases h

/-- How the remainder of an order ends. -/
inductive Remainder (book : Orderbook) (order : Order) (m : PerpMarketIndex) (st : MatchState)
    (oraclePriceLots priceLots : Int) (orderId : Key) (account : MangoAccount) (pk : Pubkey)
    (nowTs : Nat) : Option Key → Orderbook → EventQueue → MangoAccount → Prop
  | unposted : Remainder book order m st oraclePriceLots priceLots orderId account pk nowTs
      none book st.eventQueue account
  | posted {target : BookSideOrderTree} {room side : BookSide} {q' : EventQueue} {slot : Nat}
      {account' : MangoAccount} (htarget : st.postTarget = some target)
      (hpos : 0 < min st.remainingBaseLots (st.remainingQuoteLots.tdiv priceLots))
      (hroom : makeRoom (book.bookside order.side) order.side target priceLots nowTs
        oraclePriceLots st.eventQueue = .ok (room, q'))
      (hposted : Posted room side target order m account account' pk orderId
        (min st.remainingBaseLots (st.remainingQuoteLots.tdiv priceLots)) nowTs slot) :
      Remainder book order m st oraclePriceLots priceLots orderId account pk nowTs
        (some orderId) (book.setBookside order.side side) q' account'

theorem Orderbook.postRemainder_outcome {book book' : Orderbook} {order : Order}
    {market : PerpMarket} {st : MatchState} {oraclePrice : I80F48} {orderId : Key} {account account' : MangoAccount}
    {pk : Pubkey} {nowTs : Nat} {posted : Option Key} {q' : EventQueue}
    (h : book.postRemainder order market st oraclePrice oracle priceLots orderId account
      pk nowTs = .ok (posted, book', q', account')) :
    Remainder book order market.perpMarketIndex st oracle priceLots orderId account pk
      nowTs posted book' q' account' ∧ account'.equityIn market = account.equityIn market := by
  obtain ⟨byQuote, hdiv, h⟩ := of_bind h
  obtain ⟨-, rfl⟩ := divI64_eq_ok hdiv
  obtain ⟨target, htarget, h⟩ := of_bind h
  cases target with
  | none =>
    obtain ⟨rfl, rfl, rfl, rfl⟩ := ok_inj₄ h
    exact ⟨.unposted, rfl⟩
  | some target =>
    obtain ⟨hpos, htree⟩ := postingTarget_eq_some htarget
    obtain ⟨⟨room, q₁⟩, hroom, h⟩ := of_bind h
    obtain ⟨⟨side, account₁⟩, hpost, h⟩ := of_bind h
    obtain ⟨rfl, rfl, rfl, rfl⟩ := ok_inj₄ h
    obtain ⟨⟨slot, hposted⟩, hequity⟩ := postLeaf_spec hpost
    exact ⟨.posted htree hpos hroom hposted, hequity market rfl⟩

/-- The phases of a successful call. -/
structure OrderRun (book book' : Orderbook) (order : Order) (market market' : PerpMarket)
    (q q' : EventQueue) (oraclePrice : I80F48) (account account' : MangoAccount) (pk : Pubkey)
    (nowTs limit : Nat) (posted : Option Key) where
  oraclePriceLots : Int
  priceLots : Int
  priceData : BitVec 64
  /-- the loop variables after the matching loop -/
  st : MatchState
  /-- the opposing side after the changes, and after the deletions -/
  changed : BookSide
  opposing : BookSide
  /-- what the account counted before the order, and the account when matching is done -/
  ledger : Ledger
  taker : MangoAccount
  oracle_eq : market.nativePriceToLot oraclePrice = .ok oraclePriceLots
  price_eq : order.price nowTs oraclePriceLots book = .ok (priceLots, priceData)
  seqNum_lt : market.seqNum + 1 < 2 ^ 64
  market_eq : ∃ feesAccrued, market' = { market with seqNum := market.seqNum + 1, feesAccrued }
  match_eq : matchOrder (book.bookside order.side.invertSide)
    (.of order market pk nowTs priceLots) oraclePriceLots (.start order limit q) = .ok st
  quote_le : st.remainingQuoteLots ≤ order.maxQuoteLots
  base_le : st.remainingBaseLots ≤ order.maxBaseLots
  change_eq : applyChanges (book.bookside order.side.invertSide) st.ordersToChange = .ok changed
  delete_eq : applyDeletes changed st.ordersToDelete = .ok opposing
  taker_moves : MangoAccount.PerpMoves account taker market.perpMarketIndex ledger
    (ledger.addTaker (takerChange order.side (order.maxBaseLots - st.remainingBaseLots)
      (order.maxQuoteLots - st.remainingQuoteLots)))
  taker_orders : taker.perpOpenOrders = account.perpOpenOrders
  booked : (order.maxQuoteLots - st.remainingQuoteLots = 0 → st.decrementedQuoteLots = 0) →
    account'.booked market' = account.booked market + market.quoteLotSize *
      (order.maxQuoteLots - st.remainingQuoteLots - st.decrementedQuoteLots : Int) *
      market.makerFee.toRat
  remainder : Remainder (book.setBookside order.side.invertSide opposing) order
    market.perpMarketIndex st oraclePriceLots priceLots
    (newNodeKey order.side priceData (BitVec.ofNat 64 (market.seqNum + 1))) taker pk nowTs
    posted book' q' account'

theorem Orderbook.newOrder_run {book book' : Orderbook} {order : Order}
    {market market' : PerpMarket} {q q' : EventQueue} {oraclePrice : I80F48}
    {account account' : MangoAccount} {pk : Pubkey} {nowTs limit : Nat} {posted : Option Key}
    (h : book.newOrder order market q oraclePrice account pk nowTs limit =
      .ok (posted, book', market', q', account')) :
    Nonempty (OrderRun book book' order market market' q q' oraclePrice account account' pk nowTs
      limit posted) := by
  obtain ⟨oracle, horacle, h⟩ := of_bind h
  obtain ⟨⟨priceLots, priceData⟩, hprice, h⟩ := of_bind h
  obtain ⟨⟨orderId, market₁⟩, hid, h⟩ := of_bind h
  obtain ⟨hseq, rfl, rfl⟩ := PerpMarket.genOrderId_eq_ok hid
  obtain ⟨⟨market₂, account₁⟩, hpenalty, h⟩ := of_bind h
  obtain ⟨p, hp, h⟩ := of_bind h
  obtain ⟨st, hmatch, h⟩ := of_bind h
  obtain ⟨⟨market₃, taker⟩, htaker, h⟩ := of_bind h
  obtain ⟨changed, hchange, h⟩ := of_bind h
  obtain ⟨opposing, hdelete, h⟩ := of_bind h
  obtain ⟨⟨posted₁, book₁, q₁, account₂⟩, hrest, h⟩ := of_bind h
  simp only [pure_eq_ok, Except.ok.injEq, Prod.mk.injEq] at h
  obtain ⟨rfl, rfl, rfl, rfl, rfl⟩ := h
  -- the penalty only moves fees
  have hfees : (∃ feesAccrued, market₂ =
        { market with seqNum := market.seqNum + 1, feesAccrued }) ∧
      (account₁.ledgerOf market.perpMarketIndex = some p.ledger →
        PerpMoves account account₁ market.perpMarketIndex p.ledger p.ledger) ∧
      account₁.perpOpenOrders = account.perpOpenOrders ∧
      account₁.booked market₂ = account.booked market := by
    split at hpenalty
    · obtain ⟨⟨fees, rfl⟩, ⟨l, hmoves⟩, horders, hbooked⟩ := applyPenalty_spec hpenalty
      refine ⟨⟨fees, rfl⟩, fun hl => ?_, horders, hbooked.trans (add_zero _)⟩
      have hl' := hmoves.after
      rw [hl] at hl'
      obtain rfl := Option.some.inj hl'
      exact hmoves
    · obtain ⟨rfl, rfl⟩ := ok_inj₂ hpenalty
      exact ⟨⟨_, rfl⟩, fun hl => .refl hl, rfl, rfl⟩
  obtain ⟨⟨fees, hmarket₂⟩, hmoves₁, horders₁, hbooked₁⟩ := hfees
  have hindex : market₂.perpMarketIndex = market.perpMarketIndex := by rw [hmarket₂]
  have hctx : MatchContext.of order market₂ pk nowTs priceLots =
      MatchContext.of order market pk nowTs priceLots := by
    rw [hmarket₂]
    rfl
  rw [hctx] at hmatch
  have hl : account₁.ledgerOf market₂.perpMarketIndex = some p.ledger := by
    rw [ledgerOf, perpPositionMut_eq_ok.mp hp]
    rfl
  obtain ⟨⟨hquote, hbase⟩, ⟨fees', hmarket₃⟩, hmoves, horders, htakerBooked⟩ :=
    recordTaker_spec hl htaker
  obtain ⟨hremainder, hequity⟩ := Orderbook.postRemainder_outcome hrest
  have hindex₃ : market₃.perpMarketIndex = market.perpMarketIndex := by rw [hmarket₃, hindex]
  rw [hindex₃] at hremainder
  rw [hindex] at hl hmoves
  have hmarket : market₃ = { market with seqNum := market.seqNum + 1, feesAccrued := fees' } := by
    rw [hmarket₃, hmarket₂]
  have hbooked : (order.maxQuoteLots - st.remainingQuoteLots = 0 → st.decrementedQuoteLots = 0) →
      account₂.booked market₃ = account.booked market + market.quoteLotSize *
        (order.maxQuoteLots - st.remainingQuoteLots - st.decrementedQuoteLots : Int) *
        market.makerFee.toRat := by
    intro hself
    have htakerBooked := htakerBooked hself
    rw [hbooked₁, hmarket₂] at htakerBooked
    rw [booked, hequity]
    exact htakerBooked
  exact ⟨⟨oracle, priceLots, priceData, st, changed, opposing, p.ledger, taker, horacle,
    hprice, hseq, ⟨fees', hmarket⟩, hmatch, hquote, hbase, hchange, hdelete,
    (hmoves₁ hl).trans hmoves, horders.trans horders₁, hbooked, hremainder⟩⟩

section Run

variable {book book' : Orderbook} {order : Order} {market market' : PerpMarket}
  {q q' : EventQueue} {oraclePrice : I80F48} {account account' : MangoAccount} {pk : Pubkey}
  {nowTs limit : Nat} {posted : Option Key}

/-- What matching did: its hits, and the opposing orders it did not touch. -/
structure OrderRun.Matched (r : OrderRun book book' order market market' q q' oraclePrice account
    account' pk nowTs limit posted) (hits : List Hit)
    (rest : Multiset (BookSideOrderTree × LeafNode)) : Prop where
  items : ∀ h ∈ hits, h.item = itemOf order.side.invertSide nowTs r.oraclePriceLots h.item.cell
  progress : Progress (.of order market pk nowTs r.priceLots) (.start order limit q) hits r.st
  allowed : ∀ h ∈ hits, h.Allowed (.of order market pk nowTs r.priceLots)
  before : (book.bookside order.side.invertSide).leaves = rest + (hits.map Hit.order : List _)
  after : (book.bookside order.side.invertSide).Becomes r.opposing
    (rest + (hits.filterMap Hit.leftover : List _))
  sound : (∀ x ∈ (book.bookside order.side.invertSide).leaves, 0 < x.2.quantity) →
    (∀ h ∈ hits, h.Sound) ∧ (0 ≤ order.maxBaseLots → 0 ≤ order.maxQuoteLots →
      0 ≤ r.st.remainingBaseLots ∧ 0 ≤ r.st.remainingQuoteLots)

theorem OrderRun.matched (hwf : book.WellFormed) (r : OrderRun book book' order market market' q
    q' oraclePrice account account' pk nowTs limit posted) :
    ∃ hits rest, r.Matched hits rest := by
  obtain ⟨hwf', hside⟩ := hwf order.side.invertSide
  obtain ⟨hits, hcells, hitems, hprog, hallowed, hfair⟩ := matchOrder_spec hwf' r.match_eq
  rw [hside] at hitems
  have hchange := r.change_eq
  have hdelete := r.delete_eq
  rw [hprog.change] at hchange
  rw [hprog.delete] at hdelete
  obtain ⟨rest, hbefore, hafter⟩ := applyMatches_spec hwf' hcells hchange hdelete
  refine ⟨hits, rest, hitems, hprog, hallowed, hbefore, hafter, fun hpos => ?_⟩
  rcases hfair hpos with hsound | hover
  · exact hsound
  · -- the totals are asserted not to be negative
    have hbase := r.base_le
    have hquote := r.quote_le
    have hover : (r.st.remainingBaseLots = 0 ∧ order.maxBaseLots < 0) ∨
      (r.st.remainingQuoteLots = 0 ∧ order.maxQuoteLots < 0) := hover
    omega

end Run

end MangoV4
