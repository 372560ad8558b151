/-
  MangoV4.Orderbook.Conservation

  Nothing gets lost in matching: the events that a new order pushes, the lots
  that leave the opposing side, the taker's budget and the quantity that is
  posted add up (`newOrder_conserves`).
-/

import MangoV4.Orderbook.NewOrder

namespace MangoV4

open Lib Lib.Exec List Orderbook AnyEvent Hit

/-! ## Sums over events and orders -/

namespace AnyEvent

/-- Base lots of a fill. -/
def fillBase : AnyEvent → Int
  | .fill f => f.quantity
  | _ => 0

/-- Quote lots of a fill. -/
def fillQuote : AnyEvent → Int
  | .fill f => f.quantity * f.price
  | _ => 0

def isFill : AnyEvent → Bool
  | .fill _ => true
  | _ => false

/-- Lots of an order on `side` that left the book unfilled. -/
def outLots (side : Side) : AnyEvent → Int
  | .out o => if o.side = side then o.quantity else 0
  | _ => 0

/-- The event says that the order has left the book with all its lots: by a
    fill of them, or unfilled. -/
def TakesOff (side : Side) (x : LeafNode) : AnyEvent → Prop
  | .fill f => f.makerOut = true ∧ f.maker = x.owner ∧ f.makerSlot = x.ownerSlot ∧
      f.makerOrderId = x.key ∧ f.quantity = x.quantity ∧ f.takerSide = side.invertSide
  | .out o => o.side = side ∧ o.owner = x.owner ∧ o.ownerSlot = x.ownerSlot ∧
      o.orderId = x.key ∧ o.quantity = x.quantity
  | .liquidate => False

end AnyEvent

/-- Lots of all orders of a side. -/
def totalLots (s : Multiset (BookSideOrderTree × LeafNode)) : Int :=
  (s.map fun x => x.2.quantity).sum

theorem totalLots_add (s t : Multiset (BookSideOrderTree × LeafNode)) :
    totalLots (s + t) = totalLots s + totalLots t := by
  unfold totalLots
  rw [Multiset.map_add, Multiset.sum_add]

theorem map_mapIdx_of_forall {α β γ : Type} {g : β → γ} {k : α → γ} (l : List α) :
    ∀ {f : Nat → α → β}, (∀ i, ∀ a ∈ l, g (f i a) = k a) → (l.mapIdx f).map g = l.map k := by
  induction l with
  | nil => intro f _; rfl
  | cons a l ih =>
    intro f h
    rw [mapIdx_cons, map_cons, map_cons, h 0 a (mem_cons_self ..),
      ih fun i a ha => h (i + 1) a (mem_cons_of_mem _ ha)]

section Hits

variable (ctx : MatchContext) (seqNum : Nat) (hits : List Hit)

/-- The events of the hits. -/
def hitEvents : List AnyEvent := hits.mapIdx fun i h => h.event ctx (seqNum + i)

theorem fillBase_hitEvents :
    ((hitEvents ctx seqNum hits).map fillBase).sum = (hits.map base).sum := by
  congr 1
  apply map_mapIdx_of_forall
  rintro i ⟨item, _ | lots⟩ - <;> rfl

theorem fillQuote_hitEvents :
    ((hitEvents ctx seqNum hits).map fillQuote).sum = (hits.map quote).sum := by
  congr 1
  apply map_mapIdx_of_forall
  rintro i ⟨item, _ | lots⟩ -
  · simp [event, fillQuote, quote, base]
  · rfl

theorem countP_hitEvents :
    (hitEvents ctx seqNum hits).countP isFill = (hits.filterMap taken).length := by
  have hmap := map_mapIdx_of_forall (g := isFill) (k := fun h : Hit => h.taken.isSome)
    hits (f := fun i h => h.event ctx (seqNum + i)) (by rintro i ⟨item, _ | lots⟩ - <;> rfl)
  have hcount : (hitEvents ctx seqNum hits).countP isFill =
      ((hitEvents ctx seqNum hits).map isFill).countP id := by
    rw [countP_map]
    rfl
  rw [hcount, hitEvents, hmap, countP_map, length_filterMap_eq_countP]
  rfl

/-- Fills and outs together take off what is missing afterwards. -/
theorem totalLots_hits (ctx : MatchContext) (hits : List Hit) :
    totalLots (hits.map order : List _) =
      totalLots (hits.filterMap leftover : List _) + (hits.map base).sum +
        ((hitEvents ctx seqNum hits).map (outLots ctx.side.invertSide)).sum := by
  have hout : ((hitEvents ctx seqNum hits).map (outLots ctx.side.invertSide)) =
      hits.map fun h => if h.taken = none then h.item.node.quantity else 0 := by
    apply map_mapIdx_of_forall
    rintro i ⟨item, _ | lots⟩ -
    · simp [event, outLots, OutEvent.fromLeafNode]
    · rfl
  rw [hout]
  clear hout
  unfold totalLots
  simp only [Multiset.map_coe, Multiset.sum_coe, map_map]
  induction hits with
  | nil => rfl
  | cons h hits ih =>
    have hleft : h.item.node.quantity = h.left + h.base +
        if h.taken = none then h.item.node.quantity else 0 := by
      obtain ⟨item, _ | lots⟩ := h
      · simp [left, base]
      · simp [left, base]
    have hcons : ((h :: hits).filterMap leftover).map (fun x => x.2.quantity) =
        (if h.left = 0 then [] else [h.left]) ++
          (hits.filterMap leftover).map (fun x => x.2.quantity) := by
      by_cases hzero : h.left = 0
      · have hnone : h.leftover = none := if_pos hzero
        rw [filterMap_cons_none hnone, if_pos hzero]
        rfl
      · have hsome : h.leftover = some (h.item.handle.orderTree,
            { h.item.node with quantity := h.left }) := if_neg hzero
        rw [filterMap_cons_some hsome, if_neg hzero]
        rfl
    have hsum : (if h.left = 0 then [] else [h.left]).sum = h.left := by
      split
      · next hzero => exact hzero.symm
      · simp
    rw [hcons, sum_append, hsum]
    simp only [map_cons, sum_cons, Function.comp_apply, order] at ih ⊢
    omega

end Hits

/-- A fill event comes from a hit that took lots. -/
theorem fill_mem_hitEvents {ctx : MatchContext} {seqNum : Nat} {hits : List Hit} {f : FillEvent}
    (h : .fill f ∈ hitEvents ctx seqNum hits) :
    ∃ hit ∈ hits, hit.taken = some f.quantity ∧ f.maker = hit.item.node.owner ∧
      f.makerOrderId = hit.item.node.key ∧ f.price = hit.item.priceLots := by
  obtain ⟨i, hi, hevent⟩ := mem_mapIdx.mp h
  refine ⟨hits[i], getElem_mem hi, ?_⟩
  generalize hits[i] = hit at hevent
  obtain ⟨item, _ | lots⟩ := hit
  · cases hevent
  · obtain rfl := fill.inj hevent
    exact ⟨rfl, rfl, rfl, rfl⟩

/-- A hit that leaves nothing takes the order off the book. -/
theorem Hit.takesOff {ctx : MatchContext} {h : Hit} (hleft : h.left = 0) (seqNum : Nat) :
    TakesOff ctx.side.invertSide h.item.node (h.event ctx seqNum) := by
  obtain ⟨item, _ | lots⟩ := h
  · exact ⟨rfl, rfl, rfl, rfl, rfl⟩
  · have hlots : lots = item.node.quantity := by
      have hzero : item.node.quantity - lots = 0 := hleft
      omega
    exact ⟨decide_eq_true hleft, rfl, rfl, rfl, hlots, by
      rw [Side.invertSide_invertSide]
      rfl⟩

/-- Out events of the order's own side do not count for the opposing side. -/
theorem sum_append_outs {side : Side} {outs : List AnyEvent}
    (h : ∀ e ∈ outs, ∃ o, e = .out o ∧ o.side = side) {g : AnyEvent → Int}
    (hg : ∀ o, o.side = side → g (.out o) = 0) (es : List AnyEvent) :
    ((es ++ outs).map g).sum = (es.map g).sum := by
  have hzero : (outs.map g).sum = 0 := by
    apply sum_eq_zero
    intro y hy
    obtain ⟨e, he, rfl⟩ := mem_map.mp hy
    obtain ⟨o, rfl, ho⟩ := h e he
    exact hg o ho
  rw [map_append, sum_append, hzero, Int.add_zero]

/-! ## Conservation -/

/-- The books of one new order: `hits` are the opposing orders it hit, `rest`
    the others, `pushed` its events, `st` holds the unmatched remainder. -/
structure Conserved (book book' : Orderbook) (order : Order) (ctx : MatchContext)
    (oraclePriceLots : Int) (limit seqNum : Nat) (posted : Option Key) (st : MatchState)
    (hits : List Hit) (rest : Multiset (BookSideOrderTree × LeafNode)) (pushed : List AnyEvent) :
    Prop where
  /-- One event per hit; the other events are for orders that made room on the order's own side. -/
  events : ∃ outs, pushed = hitEvents ctx seqNum hits ++ outs ∧
    ∀ e ∈ outs, ∃ o, e = .out o ∧ o.side = order.side
  /-- Filled lots are what is missing from the taker's budget, -/
  base_eq : (pushed.map AnyEvent.fillBase).sum = order.maxBaseLots - st.remainingBaseLots
  /-- and what fills took from the opposing orders. -/
  base_taken : (pushed.map AnyEvent.fillBase).sum =
    totalLots (book.bookside order.side.invertSide).leaves -
      totalLots (book'.bookside order.side.invertSide).leaves -
      (pushed.map (AnyEvent.outLots order.side.invertSide)).sum
  quote_eq : (pushed.map AnyEvent.fillQuote).sum = order.maxQuoteLots - st.remainingQuoteLots
  quote_le : (pushed.map AnyEvent.fillQuote).sum ≤ order.maxQuoteLots
  /-- What is posted is within what is left. -/
  posted_le : ∀ id, posted = some id → ∃ c o, (c, o) ∈ (book'.bookside order.side).leaves ∧
    o.key = id ∧ restingPrice order.side oraclePriceLots (c, o) = ctx.priceLots ∧
    (pushed.map AnyEvent.fillBase).sum + o.quantity ≤ order.maxBaseLots ∧
    (pushed.map AnyEvent.fillQuote).sum + o.quantity * ctx.priceLots ≤ order.maxQuoteLots
  /-- Fills are at the price of a valid resting order, within the limit. -/
  fills : ∀ f, .fill f ∈ pushed → ∃ x ∈ (book.bookside order.side.invertSide).leaves,
    f.maker = x.2.owner ∧ f.makerOrderId = x.2.key ∧
    f.price = restingPrice order.side.invertSide oraclePriceLots x ∧
    order.side.isPriceWithinLimit f.price ctx.priceLots = true ∧
    restingValid order.side.invertSide ctx.nowTs oraclePriceLots x = true ∧
    0 < f.quantity ∧ f.quantity ≤ x.2.quantity
  fills_le : pushed.countP AnyEvent.isFill ≤ limit
  /-- Hits are of different orders; all others stay as they are. -/
  nodup : (hits.map Hit.order).Nodup
  before : (book.bookside order.side.invertSide).leaves = rest + (hits.map Hit.order : List _)
  after : (book'.bookside order.side.invertSide).leaves =
    rest + (hits.filterMap Hit.leftover : List _)
  /-- An order that disappeared was hit once, and the event of that hit takes it off. -/
  gone : ∀ x ∈ (book.bookside order.side.invertSide).leaves,
    (∀ o, (x.1, o) ∈ (book'.bookside order.side.invertSide).leaves → o.key ≠ x.2.key) →
    (hits.map Hit.order).count x = 1 ∧ ∀ h ∈ hits, h.order = x → ∀ n,
      AnyEvent.TakesOff order.side.invertSide x.2 (h.event ctx n)

section Remainder

variable {book book' : Orderbook} {order : Order} {m : PerpMarketIndex} {st : MatchState}
  {oracle priceLots : Int} {orderId : Key} {account account' : MangoAccount} {pk : Pubkey}
  {nowTs : Nat} {posted : Option Key} {q' : EventQueue}

/-- Posting does not touch the opposing side. -/
theorem Remainder.opposing_eq (h : Remainder book order m st oracle priceLots orderId
    account pk nowTs posted book' q' account') :
    book'.bookside order.side.invertSide = book.bookside order.side.invertSide := by
  cases h with
  | unposted => rfl
  | posted _ _ _ _ => exact bookside_setBookside_invert ..

/-- The events of posting are out events of the order's own side. -/
theorem Remainder.events_eq (h : Remainder book order m st oracle priceLots orderId
    account pk nowTs posted book' q' account') (hwf : (book.bookside order.side).WellFormed) :
    ∃ outs, q'.events = st.eventQueue.events ++ outs ∧
      ∀ e ∈ outs, ∃ o, e = .out o ∧ o.side = order.side := by
  cases h with
  | unposted => exact ⟨[], by simp, by simp⟩
  | posted _ _ hroom _ =>
    obtain ⟨outs, -, -, -, hevents⟩ := makeRoom_spec hwf hroom
    refine ⟨_, hevents, fun e he => ?_⟩
    obtain ⟨i, hi, rfl⟩ := mem_mapIdx.mp he
    exact ⟨_, rfl, rfl⟩

/-- The posted leaf holds what base and quote budget still allow. -/
theorem Remainder.leaf (h : Remainder book order m st oracle priceLots orderId
    account pk nowTs posted book' q' account') (hwf : (book.bookside order.side).WellFormed)
    {id : Key} (hid : posted = some id) :
    ∃ c o, (c, o) ∈ (book'.bookside order.side).leaves ∧ o.key = id ∧ id = orderId ∧
      st.postTarget = some c ∧
      o.quantity = min st.remainingBaseLots (st.remainingQuoteLots.tdiv priceLots) ∧
      0 < o.quantity := by
  cases h with
  | unposted => cases hid
  | @posted target room side q' slot account' htarget hpos hroom hposted =>
    obtain rfl := Option.some.inj hid
    obtain ⟨outs, -, hwf', -, -⟩ := makeRoom_spec hwf hroom
    obtain ⟨r, hinsert⟩ := hposted.insert
    obtain ⟨hmem, -⟩ := BookSide.insertLeaf_spec hwf' hinsert
    rw [← bookside_setBookside_self book order.side side] at hmem
    exact ⟨_, _, hmem, rfl, rfl, htarget, rfl, hpos⟩

end Remainder

section Run

variable {book book' : Orderbook} {order : Order} {market market' : PerpMarket}
  {q q' : EventQueue} {oraclePrice : I80F48} {account account' : MangoAccount} {pk : Pubkey}
  {nowTs limit : Nat} {posted : Option Key}

variable {r : OrderRun book book' order market market' q q' oraclePrice account account' pk nowTs
  limit posted} {hits : List Hit} {rest : Multiset (BookSideOrderTree × LeafNode)}

theorem OrderRun.Matched.after_eq (hm : r.Matched hits rest) :
    (book'.bookside order.side.invertSide).leaves =
      rest + (hits.filterMap leftover : List _) := by
  rw [r.remainder.opposing_eq, bookside_setBookside_self]
  exact hm.after.leaves_eq

theorem OrderRun.Matched.order_mem (hm : r.Matched hits rest) {h : Hit} (hmem : h ∈ hits) :
    h.order ∈ (book.bookside order.side.invertSide).leaves := by
  rw [hm.before]
  exact Multiset.mem_add.mpr (Or.inr (Multiset.mem_coe.mpr (mem_map_of_mem hmem)))

/-- An order of which lots are left is still there. -/
theorem OrderRun.Matched.leftover_mem (hm : r.Matched hits rest) {h : Hit} (hmem : h ∈ hits)
    (hleft : h.left ≠ 0) : (h.item.handle.orderTree, { h.item.node with quantity := h.left }) ∈
      (book'.bookside order.side.invertSide).leaves := by
  rw [hm.after_eq]
  refine Multiset.mem_add.mpr (Or.inr (Multiset.mem_coe.mpr ?_))
  exact mem_filterMap.mpr ⟨h, hmem, if_neg hleft⟩

/-- Hits are of different orders. -/
theorem OrderRun.Matched.nodup (hm : r.Matched hits rest) (hwf : book.WellFormed) :
    (hits.map Hit.order).Nodup := by
  have hnodup := (hwf order.side.invertSide).1.leaves_nodup
  rw [hm.before] at hnodup
  exact Multiset.coe_nodup.mp (Multiset.nodup_add.mp hnodup).2.1

/-- An order that is no longer there was hit once, by a hit that left nothing. -/
theorem OrderRun.Matched.gone (hm : r.Matched hits rest) (hwf : book.WellFormed)
    {x : BookSideOrderTree × LeafNode}
    (hx : x ∈ (book.bookside order.side.invertSide).leaves)
    (hgone : ∀ o, (x.1, o) ∈ (book'.bookside order.side.invertSide).leaves → o.key ≠ x.2.key) :
    (hits.map Hit.order).count x = 1 ∧ ∀ h ∈ hits, h.order = x → h.left = 0 := by
  constructor
  · apply count_eq_one_of_mem (hm.nodup hwf)
    rw [hm.before] at hx
    rcases Multiset.mem_add.mp hx with hrest | hhit
    · -- an order that was not hit is still there
      refine absurd rfl (hgone x.2 ?_)
      rw [hm.after_eq]
      exact Multiset.mem_add.mpr (Or.inl hrest)
    · exact Multiset.mem_coe.mp hhit
  · intro h hmem hx
    by_contra hleft
    subst hx
    exact hgone _ (hm.leftover_mem hmem hleft) rfl

/-- A fill is at the price of a valid resting order within the limit. -/
theorem OrderRun.Matched.fill (hm : r.Matched hits rest)
    (hpos : ∀ x ∈ (book.bookside order.side.invertSide).leaves, 0 < x.2.quantity)
    {h : Hit} (hmem : h ∈ hits) {lots : Int} (htaken : h.taken = some lots) :
    h.order ∈ (book.bookside order.side.invertSide).leaves ∧
      h.item.priceLots = restingPrice order.side.invertSide r.oraclePriceLots h.order ∧
      order.side.isPriceWithinLimit h.item.priceLots r.priceLots = true ∧
      restingValid order.side.invertSide nowTs r.oraclePriceLots h.order = true ∧
      0 < lots ∧ lots ≤ h.item.node.quantity := by
  have hallowed := hm.allowed h hmem
  unfold Allowed at hallowed
  rw [htaken] at hallowed
  have hitem := hm.items h hmem
  refine ⟨hm.order_mem hmem, ?_, hallowed.2, ?_, (hm.sound hpos).1 h hmem lots htaken⟩
  · rw [hitem, itemOf_price]
    rfl
  · rw [hitem, itemOf_isValid] at hallowed
    exact hallowed.1

/-- A successful `new_order` conserves lots, whatever its type, self-trade
    behavior and match limit. -/
theorem newOrder_conserves (hwf : book.WellFormed)
    (hpos : ∀ x ∈ (book.bookside order.side.invertSide).leaves, 0 < x.2.quantity)
    (hbase : 0 ≤ order.maxBaseLots) (hquote : 0 ≤ order.maxQuoteLots)
    (h : book.newOrder order market q oraclePrice account pk nowTs limit =
      .ok (posted, book', market', q', account')) :
    ∃ oraclePriceLots priceLots priceData st hits rest pushed,
      market.nativePriceToLot oraclePrice = .ok oraclePriceLots ∧
      order.price nowTs oraclePriceLots book = .ok (priceLots, priceData) ∧
      matchOrder (book.bookside order.side.invertSide) (.of order market pk nowTs priceLots)
        oraclePriceLots (.start order limit q) = .ok st ∧
      q'.events = q.events ++ pushed ∧
      Conserved book book' order (.of order market pk nowTs priceLots) oraclePriceLots limit
        q.seqNum posted st hits rest pushed := by
  obtain ⟨r⟩ := newOrder_run h
  obtain ⟨hits, rest, hm⟩ := r.matched hwf
  have hown : ((book.setBookside order.side.invertSide r.opposing).bookside
      order.side).WellFormed := by
    rw [bookside_setBookside_of_invert]
    exact (hwf order.side).1
  obtain ⟨outs, houts, hown_outs⟩ := r.remainder.events_eq hown
  have hevents := hm.progress.events
  have hsum_base : ((hitEvents (.of order market pk nowTs r.priceLots) q.seqNum hits ++ outs).map
      fillBase).sum = order.maxBaseLots - r.st.remainingBaseLots := by
    rw [sum_append_outs hown_outs fun _ _ => rfl, fillBase_hitEvents, hm.progress.base]
    show _ = order.maxBaseLots - (order.maxBaseLots - _)
    omega
  have hsum_quote : ((hitEvents (.of order market pk nowTs r.priceLots) q.seqNum hits ++ outs).map
      fillQuote).sum = order.maxQuoteLots - r.st.remainingQuoteLots := by
    rw [sum_append_outs hown_outs fun _ _ => rfl, fillQuote_hitEvents, hm.progress.quote]
    show _ = order.maxQuoteLots - (order.maxQuoteLots - _)
    omega
  obtain ⟨-, hkeep⟩ := hm.sound hpos
  obtain ⟨hbase', hquote'⟩ := hkeep hbase hquote
  refine ⟨r.oraclePriceLots, r.priceLots, r.priceData, r.st, hits, rest,
    hitEvents (.of order market pk nowTs r.priceLots) q.seqNum hits ++ outs,
    r.oracle_eq, r.price_eq, r.match_eq, ?_, ?_⟩
  · rw [houts, hevents, append_assoc]
    rfl
  · exact {
      events := ⟨outs, rfl, hown_outs⟩
      base_eq := hsum_base
      base_taken := by
        have hlots := totalLots_hits q.seqNum (.of order market pk nowTs r.priceLots) hits
        have hside : (MatchContext.of order market pk nowTs r.priceLots).side = order.side := rfl
        rw [hside] at hlots
        rw [sum_append_outs hown_outs fun _ _ => rfl, fillBase_hitEvents,
          sum_append_outs hown_outs fun o ho => if_neg (ho ▸ order.side.ne_invertSide),
          hm.before, hm.after_eq, totalLots_add, totalLots_add, hlots]
        omega
      quote_eq := hsum_quote
      quote_le := by
        omega
      posted_le := fun id hid => by
        obtain ⟨c, o, ho, hkey, rfl, htarget, hquantity, -⟩ := r.remainder.leaf hown hid
        have hone := (Order.price_spec r.price_eq).1
        refine ⟨c, o, ho, hkey, ?_, ?_, ?_⟩
        · exact Order.restingPrice_eq r.price_eq (hm.progress.postTarget c htarget)
            (priceData_of_newNodeKey hkey) order.side
        · omega
        · -- the quantity is at most what the quote budget pays for at the limit price
          have hmul : r.st.remainingQuoteLots.tdiv r.priceLots * r.priceLots ≤
              r.st.remainingQuoteLots := by
            rw [Int.tdiv_eq_ediv_of_nonneg hquote']
            exact Int.ediv_mul_le _ (by omega)
          have hle : o.quantity * r.priceLots ≤
              r.st.remainingQuoteLots.tdiv r.priceLots * r.priceLots :=
            Int.mul_le_mul_of_nonneg_right (by omega) (by omega)
          show _ + o.quantity * r.priceLots ≤ _
          omega
      fills := fun f hf => by
        rcases mem_append.mp hf with hf | hf
        · obtain ⟨hit, hmem, htaken, hmaker, hid, hprice⟩ := fill_mem_hitEvents hf
          obtain ⟨hin, hrest, hwithin, hvalid, hlots⟩ := hm.fill hpos hmem htaken
          rw [hprice]
          exact ⟨hit.order, hin, hmaker, hid, hrest, hwithin, hvalid, hlots⟩
        · obtain ⟨o, heq, -⟩ := hown_outs _ hf
          cases heq
      fills_le := by
        have hzero : outs.countP isFill = 0 := by
          apply countP_eq_zero.mpr
          intro e he
          obtain ⟨o, rfl, -⟩ := hown_outs e he
          exact Bool.false_ne_true
        have hlimit : r.st.limit + (hits.filterMap Hit.taken).length = limit := hm.progress.limit
        rw [countP_append, hzero, countP_hitEvents]
        omega
      nodup := hm.nodup hwf
      before := hm.before
      after := hm.after_eq
      gone := fun x hx hgone => by
        obtain ⟨hcount, hleft⟩ := hm.gone hwf hx hgone
        refine ⟨hcount, fun h hmem hx n => ?_⟩
        have htakes : TakesOff order.side.invertSide h.item.node
            (h.event (.of order market pk nowTs r.priceLots) n) := Hit.takesOff (hleft h hmem hx) n
        subst hx
        exact htakes }

end Run

/-- One ask of 5 lots at 20. -/
def oneAskBook : Orderbook where
  bids := .zeroed .bids
  asks := run BookSide.exec (.zeroed .asks) [.insertLeaf .fixed (.plain .ask 20 5 1 1)]

theorem oneAskBook_wellFormed : oneAskBook.WellFormed := by
  intro side
  cases side with
  | bid => exact ⟨BookSide.wellFormed_zeroed .bids, rfl⟩
  | ask => exact ⟨(BookSide.run_keeps_wellFormed .asks _).1, rfl⟩

/-- A bid for 8 lots at 20; it fills the ask and posts 3 lots. -/
def bidEight : Order := .plain .bid ⟨20, twenty_fits⟩ 8 1000

theorem oneAskBook_conserves : ∃ posted book' market' q' account',
    oneAskBook.newOrder bidEight (.plain 0) .zeroed (.ofSmall 20) (.plain 0) 2 0 10 =
      .ok (posted, book', market', q', account') ∧
    ∃ oraclePriceLots priceLots priceData st hits rest pushed,
      (PerpMarket.plain 0).nativePriceToLot (.ofSmall 20) = .ok oraclePriceLots ∧
      bidEight.price 0 oraclePriceLots oneAskBook = .ok (priceLots, priceData) ∧
      matchOrder oneAskBook.asks (.of bidEight (.plain 0) 2 0 priceLots) oraclePriceLots
        (.start bidEight 10 .zeroed) = .ok st ∧
      q'.events = EventQueue.zeroed.events ++ pushed ∧
      Conserved oneAskBook book' bidEight (.of bidEight (.plain 0) 2 0 priceLots) oraclePriceLots
        10 0 posted st hits rest pushed := by
  have hok : (oneAskBook.newOrder bidEight (.plain 0) .zeroed (.ofSmall 20) (.plain 0) 2 0
      10).toOption.any (fun r => r.1.isSome) = true := by decide +kernel
  obtain ⟨⟨posted, book', market', q', account'⟩, h, -⟩ := exists_of_any hok
  exact ⟨posted, book', market', q', account', h,
    newOrder_conserves oneAskBook_wellFormed (by decide +kernel) (by decide) (by decide) h⟩

end MangoV4
