/-
  MangoV4.Orderbook.PostOnly

  Orders that must not take.

  A post-only order passes over the orders that are not valid and stops at the
  first one that is, whatever its price; so it fills nothing.  It is dropped if
  that order is within its limit.  A `PostOnlySlide` order has looked up the
  price of the same order before, on the same book and with the same iterator
  (`best_price`), and its limit is just short of it.  Nothing here depends on
  the order in which the iterator yields the book.
-/

import MangoV4.Orderbook.Crossing

namespace MangoV4

open Lib Lib.Exec List BookSide Orderbook

/-- Orders that leave the book, and no fills. -/
def OutOnly (events : List AnyEvent) : Prop := ∀ e ∈ events, ∃ out, e = .out out

/-- The events that a call adds are of orders that leave the book. -/
def EventQueue.Outs (q q' : EventQueue) : Prop :=
  ∃ outs, q'.events = q.events ++ outs ∧ OutOnly outs

namespace EventQueue.Outs

variable {q q' q'' : EventQueue}

theorem refl (q : EventQueue) : q.Outs q :=
  ⟨[], (append_nil _).symm, fun _ he => absurd he not_mem_nil⟩

theorem trans (h : q.Outs q') (h' : q'.Outs q'') : q.Outs q'' := by
  obtain ⟨outs, hq, houts⟩ := h
  obtain ⟨outs', hq', houts'⟩ := h'
  refine ⟨outs ++ outs', by rw [hq', hq, append_assoc], fun e he => ?_⟩
  rcases mem_append.mp he with he | he
  · exact houts e he
  · exact houts' e he

theorem pushBack {out : OutEvent} (h : q.pushBack (.out out) = .ok q') : q.Outs q' :=
  ⟨[.out out], (EventQueue.events_pushBack h).1, fun _ he => ⟨out, mem_singleton.mp he⟩⟩

end EventQueue.Outs

/-! ## The matching loop -/

/-- Nothing was taken. -/
structure MatchState.Untaken (st st' : MatchState) : Prop where
  base : st'.remainingBaseLots = st.remainingBaseLots
  quote : st'.remainingQuoteLots = st.remainingQuoteLots
  outs : st.eventQueue.Outs st'.eventQueue

theorem MatchState.Untaken.refl (st : MatchState) : st.Untaken st := ⟨rfl, rfl, .refl _⟩

section Loop

variable {ctx : MatchContext} {st st' : MatchState} {item : BookSideIterItem}

theorem MatchState.dropBest_untaken (h : st.dropBest ctx item = .ok st') :
    st.Untaken st' ∧ st'.postTarget = st.postTarget := by
  obtain ⟨q, hpush, h⟩ := of_bind h
  obtain rfl := ok_inj h
  exact ⟨⟨rfl, rfl, .pushBack hpush⟩, rfl⟩

/-- A post-only order goes on only past orders that are not valid, and it is
    dropped only at one that is valid and within its limit. -/
theorem matchStep_postOnly (hpost : ctx.postOnly = true) {r : ForInStep MatchState}
    (h : matchStep ctx st item = .ok r) :
    (∃ st', r = .yield st' ∧ item.isValid = false ∧ st.Untaken st' ∧
      st'.postTarget = st.postTarget) ∨
    ∃ st', r = .done st' ∧ st.Untaken st' ∧ (st'.postTarget = st.postTarget ∨
      item.isValid = true ∧ ctx.side.isPriceWithinLimit item.priceLots ctx.priceLots = true) := by
  unfold matchStep at h
  split at h
  · obtain rfl := ok_inj h
    exact .inr ⟨st, rfl, .refl st, .inl rfl⟩
  · split at h
    · rename_i hinvalid
      have hinvalid : item.isValid = false := by simpa using hinvalid
      split at h
      · obtain ⟨st₁, hdrop, h⟩ := of_bind h
        obtain rfl := ok_inj h
        obtain ⟨huntaken, htarget⟩ := MatchState.dropBest_untaken hdrop
        exact .inl ⟨st₁, rfl, hinvalid, ⟨huntaken.base, huntaken.quote, huntaken.outs⟩, htarget⟩
      · obtain rfl := ok_inj h
        exact .inl ⟨st, rfl, hinvalid, .refl st, rfl⟩
    · rename_i hvalid
      have hvalid : item.isValid = true := by simpa using hvalid
      split at h
      · obtain rfl := ok_inj h
        exact .inr ⟨st, rfl, .refl st, .inl rfl⟩
      · rename_i hwithin
        obtain rfl := ok_inj h
        exact .inr ⟨_, rfl, ⟨rfl, rfl, .refl _⟩, .inr ⟨hvalid, by simpa using hwithin⟩⟩

/-- The loop of a post-only order takes nothing.  It drops the order only if the
    first valid order of the other side is within its limit. -/
theorem matchLoop_postOnly (hpost : ctx.postOnly = true) {t : OrderTreeNodes} {fuel : Nat}
    {it : BookSideIter} (h : matchLoop t ctx fuel it st = .ok st') :
    st.Untaken st' ∧ (st'.postTarget = st.postTarget ∨
      ∃ best, firstValid t fuel it = .ok (some best) ∧
        ctx.side.isPriceWithinLimit best.priceLots ctx.priceLots = true) := by
  induction fuel generalizing it st with
  | zero => cases h
  | succ fuel ih =>
    obtain ⟨⟨yielded, it'⟩, hnext, h⟩ := of_bind h
    cases yielded with
    | none =>
      obtain rfl := ok_inj h
      exact ⟨.refl _, .inl rfl⟩
    | some item =>
      obtain ⟨r, hstep, h⟩ := of_bind h
      -- the search for the first valid order makes the same call of `next`
      have hfirst : firstValid t (fuel + 1) it =
          if item.isValid then .ok (some item) else firstValid t fuel it' := by
        rw [firstValid, hnext]
        rfl
      rcases matchStep_postOnly hpost hstep with
        ⟨st₁, rfl, hinvalid, huntaken, htarget⟩ | ⟨st₁, rfl, huntaken, htarget⟩
      · obtain ⟨hrest, hcases⟩ := ih h
        refine ⟨⟨hrest.base.trans huntaken.base, hrest.quote.trans huntaken.quote,
          huntaken.outs.trans hrest.outs⟩, ?_⟩
        rw [hfirst, hinvalid, ← htarget]
        exact hcases
      · obtain rfl := ok_inj h
        refine ⟨huntaken, htarget.imp_right fun ⟨hvalid, hwithin⟩ => ⟨item, ?_, hwithin⟩⟩
        rw [hfirst, if_pos hvalid]

end Loop

/-! ## The slide -/

namespace Order

/-- A `PostOnlySlide` order, fixed or oracle pegged. -/
def slides (order : Order) : Bool :=
  match order.params with
  | .fixed _ orderType | .oraclePegged _ orderType _ => decide (orderType = .postOnlySlide)
  | _ => false

variable {order : Order} {nowTs : Nat} {oracle priceLots : Int} {book : Orderbook}
  {priceData : BitVec 64}

theorem slides_params (h : order.slides = true) :
    (∃ limit, order.params = .fixed limit .postOnlySlide) ∨
      ∃ offset pegLimit, order.params = .oraclePegged offset .postOnlySlide pegLimit := by
  unfold slides at h
  split at h
  · next hparams => exact .inl ⟨_, of_decide_eq_true h ▸ hparams⟩
  · next hparams => exact .inr ⟨_, _, of_decide_eq_true h ▸ hparams⟩
  · cases h

theorem postTarget_of_slides (h : order.slides = true) : order.postTarget.isSome = true := by
  unfold postTarget
  rcases slides_params h with ⟨_, hparams⟩ | ⟨_, _, hparams⟩
  · rw [hparams]; rfl
  · rw [hparams]; rfl

theorem postOnlySlideLimit_beyond {side : Side} {best limit p : Int}
    (h : postOnlySlideLimit side best limit = .ok p) : side.isPriceWithinLimit best p = false := by
  cases side with
  | bid =>
    obtain ⟨-, h⟩ := of_checkI64 h
    obtain rfl := ok_inj h
    exact decide_eq_false (by omega)
  | ask =>
    obtain ⟨-, h⟩ := of_checkI64 h
    obtain rfl := ok_inj h
    exact decide_eq_false (by omega)

theorem priceForOrderType_beyond {limit best : Int}
    (hbest : (book.bookside order.side.invertSide).bestPrice nowTs oracle = .ok (some best))
    (h : order.priceForOrderType nowTs oracle limit .postOnlySlide book = .ok priceLots) :
    order.side.isPriceWithinLimit best priceLots = false := by
  unfold priceForOrderType at h
  rw [if_pos rfl, hbest] at h
  exact postOnlySlideLimit_beyond h

/-- The limit of a slide order does not reach the best price of the other side. -/
theorem price_beyond_of_slides {best : Int} (hslides : order.slides = true)
    (hbest : (book.bookside order.side.invertSide).bestPrice nowTs oracle = .ok (some best))
    (h : order.price nowTs oracle book = .ok (priceLots, priceData)) :
    order.side.isPriceWithinLimit best priceLots = false := by
  obtain ⟨p, hp, h⟩ := of_bind h
  obtain ⟨d, -, h⟩ := of_bind h
  obtain ⟨_, -, h⟩ := of_bind h
  obtain ⟨rfl, -⟩ := ok_inj₂ h
  unfold limitPrice at hp
  rcases slides_params hslides with ⟨limit, hparams⟩ | ⟨offset, pegLimit, hparams⟩
  · rw [hparams] at hp
    exact priceForOrderType_beyond hbest hp
  · rw [hparams] at hp
    obtain ⟨limit, -, hp⟩ := of_bind hp
    exact priceForOrderType_beyond hbest hp

end Order

/-! ## The whole call -/

section Call

variable {book book' : Orderbook} {order : Order} {market market' : PerpMarket}
  {q q' : EventQueue} {oraclePrice : I80F48} {account account' : MangoAccount} {pk : Pubkey}
  {nowTs limit : Nat} {posted : Option Key} {oracle priceLots : Int}
  {priceData : BitVec 64} {st : MatchState}

/-- What the matching loop of a post-only order leaves: nothing is taken, and a
    slide order keeps its place. -/
theorem matchOrder_postOnly (hpost : order.isPostOnly = true)
    (hprice : order.price nowTs oracle book = .ok (priceLots, priceData))
    (h : matchOrder (book.bookside order.side.invertSide) (.of order market pk nowTs priceLots)
      oracle (.start order limit q) = .ok st) :
    (MatchState.start order limit q).Untaken st ∧
      (order.slides = true → st.postTarget = order.postTarget) := by
  obtain ⟨it, hnew, h⟩ := of_bind h
  obtain ⟨huntaken, htarget⟩ := matchLoop_postOnly hpost h
  refine ⟨huntaken, fun hslides => ?_⟩
  rcases htarget with htarget | ⟨best, hfirst, hwithin⟩
  · exact htarget
  · have hbest : (book.bookside order.side.invertSide).bestPrice nowTs oracle =
        .ok (some best.priceLots) :=
      bind_eq_ok.mpr ⟨it, hnew, bind_eq_ok.mpr ⟨some best, hfirst, rfl⟩⟩
    have hbeyond := Order.price_beyond_of_slides hslides hbest hprice
    rw [show order.side.isPriceWithinLimit best.priceLots priceLots = true from hwithin] at hbeyond
    cases hbeyond

/-- Nothing to record for an order that took nothing. -/
theorem recordTaker_untaken (huntaken : (MatchState.start order limit q).Untaken st)
    (h : recordTaker order st market account = .ok (market', account')) :
    market' = market ∧ account' = account := by
  have hbase : st.remainingBaseLots = order.maxBaseLots := huntaken.base
  have hquote : st.remainingQuoteLots = order.maxQuoteLots := huntaken.quote
  obtain ⟨-, h⟩ := of_checkI64 h
  obtain ⟨-, h⟩ := of_checkI64 h
  obtain ⟨_, -, h⟩ := of_bind h
  obtain ⟨_, -, h⟩ := of_bind h
  rw [if_neg (by omega)] at h
  obtain ⟨rfl, rfl⟩ := ok_inj₂ h
  exact ⟨rfl, rfl⟩

theorem makeRoom_outs {b b' : BookSide} {side : Side} {target : BookSideOrderTree}
    (h : makeRoom b side target priceLots nowTs oracle q = .ok (b', q')) : q.Outs q' := by
  obtain ⟨⟨expired, b₁⟩, -, h⟩ := of_bind h
  obtain ⟨q₁, hpush, h⟩ := of_bind h
  have hfirst : q.Outs q₁ := by
    cases expired with
    | none =>
      obtain rfl := ok_inj hpush
      exact .refl _
    | some leaf => exact .pushBack hpush
  split at h
  · obtain ⟨⟨worst, b₂⟩, -, h⟩ := of_bind h
    obtain ⟨⟨o, price⟩, -, h⟩ := of_bind h
    obtain ⟨_, -, h⟩ := of_bind h
    obtain ⟨q₂, hpush₂, h⟩ := of_bind h
    obtain ⟨-, rfl⟩ := ok_inj₂ h
    exact hfirst.trans (.pushBack hpush₂)
  · obtain ⟨-, rfl⟩ := ok_inj₂ h
    exact hfirst

/-- The price limit of the market for orders on the side of the order. -/
def PerpMarket.allowsPosting (market : PerpMarket) (side : Side) (priceLots : Int)
    (oraclePrice : I80F48) : Exec Bool := do
  market.insidePriceLimit side (← market.lotToNativePrice priceLots) oraclePrice

theorem postingTarget_isSome {target : Option BookSideOrderTree} {quantity : Int}
    {r : Option BookSideOrderTree} (htarget : target.isSome = true)
    (h : postingTarget market order.side priceLots oraclePrice target quantity = .ok r) :
    r.isSome = true ↔
      0 < quantity ∧ market.allowsPosting order.side priceLots oraclePrice = .ok true := by
  unfold postingTarget at h
  split at h
  · rename_i hnone
    obtain rfl := ok_inj h
    simp only [Option.isSome_none, Bool.false_eq_true, false_iff, not_and]
    intro hpos
    omega
  · rename_i hsome
    cases target with
    | none => cases htarget
    | some tree =>
      obtain ⟨native, hnative, h⟩ := of_bind h
      obtain ⟨inside, hinside, h⟩ := of_bind h
      obtain rfl := ok_inj h
      have hallows : market.allowsPosting order.side priceLots oraclePrice = .ok inside :=
        bind_eq_ok.mpr ⟨native, hnative, hinside⟩
      rw [hallows]
      cases inside with
      | true => simpa using hsome
      | false => simp

/-- Posting is decided by the target; the queue only gets out events. -/
theorem postRemainder_posted {orderId : Key} (h : book.postRemainder order market st oraclePrice
      oracle priceLots orderId account pk nowTs = .ok (posted, book', q', account')) :
    st.eventQueue.Outs q' ∧ (st.postTarget.isSome = true → (posted.isSome = true ↔
      0 < min st.remainingBaseLots (st.remainingQuoteLots.tdiv priceLots) ∧
        market.allowsPosting order.side priceLots oraclePrice = .ok true)) := by
  obtain ⟨byQuote, hdiv, h⟩ := of_bind h
  obtain ⟨-, rfl⟩ := divI64_eq_ok hdiv
  obtain ⟨target, htarget, h⟩ := of_bind h
  cases target with
  | none =>
    obtain ⟨rfl, -, rfl, -⟩ := ok_inj₄ h
    exact ⟨.refl _, fun hsome => postingTarget_isSome hsome htarget⟩
  | some target =>
    obtain ⟨⟨room, q₁⟩, hroom, h⟩ := of_bind h
    obtain ⟨⟨side, account₁⟩, -, h⟩ := of_bind h
    obtain ⟨rfl, -, rfl, -⟩ := ok_inj₄ h
    exact ⟨makeRoom_outs hroom, fun hsome => postingTarget_isSome hsome htarget⟩

/-- An order id that is returned is on the book. -/
theorem postRemainder_on_book {orderId id : Key} (hwf : (book.bookside order.side).WellFormed)
    (h : book.postRemainder order market st oraclePrice oracle priceLots orderId account pk
      nowTs = .ok (some id, book', q', account')) :
    ∃ tree leaf, (tree, leaf) ∈ (book'.bookside order.side).leaves ∧ leaf.key = id := by
  generalize hposted : some id = posted at h
  cases (postRemainder_outcome h).1 with
  | unposted => cases hposted
  | @posted target room side q' slot account' _ _ hroom hleaf =>
    obtain rfl := Option.some.inj hposted
    obtain ⟨outs, -, hwf', -, -⟩ := makeRoom_spec hwf hroom
    obtain ⟨r, hinsert⟩ := hleaf.insert
    have hmem := (insertLeaf_spec hwf' hinsert).1
    rw [bookside_setBookside_self]
    exact ⟨target, _, hmem, rfl⟩

/-- A post-only order fills nothing.  A slide order that is accepted is posted
    whenever its quantity and the price limit of the market allow it; without a
    free slot or without space on the book it is not accepted. -/
theorem postOnly_posts (hpost : order.isPostOnly = true)
    (h : book.newOrder order market q oraclePrice account pk nowTs limit =
      .ok (posted, book', market', q', account')) :
    q.Outs q' ∧ ∃ oraclePriceLots priceLots priceData,
      market.nativePriceToLot oraclePrice = .ok oraclePriceLots ∧
      order.price nowTs oraclePriceLots book = .ok (priceLots, priceData) ∧
      (order.slides = true → (posted.isSome = true ↔
        0 < min order.maxBaseLots (order.maxQuoteLots.tdiv priceLots) ∧
          market.allowsPosting order.side priceLots oraclePrice = .ok true)) ∧
      (book.WellFormed → ∀ id, posted = some id →
        ∃ tree leaf, (tree, leaf) ∈ (book'.bookside order.side).leaves ∧ leaf.key = id) := by
  obtain ⟨oraclePriceLots, horacle, h⟩ := of_bind h
  obtain ⟨⟨priceLots, priceData⟩, hprice, h⟩ := of_bind h
  obtain ⟨⟨orderId, market₁⟩, hid, h⟩ := of_bind h
  obtain ⟨-, -, rfl⟩ := PerpMarket.genOrderId_eq_ok hid
  obtain ⟨⟨market₂, account₁⟩, hpenalty, h⟩ := of_bind h
  obtain ⟨-, -, h⟩ := of_bind h
  obtain ⟨st, hmatch, h⟩ := of_bind h
  obtain ⟨⟨market₃, account₂⟩, htaker, h⟩ := of_bind h
  obtain ⟨changed, -, h⟩ := of_bind h
  obtain ⟨opposing, -, h⟩ := of_bind h
  obtain ⟨⟨posted₁, book₁, q₁, account₃⟩, hremainder, h⟩ := of_bind h
  obtain ⟨rfl, rfl, rfl, rfl, rfl⟩ := h
  -- only immediate-or-cancel orders pay the penalty
  have hfree : order.needsPenaltyFee = false := by
    unfold Order.isPostOnly at hpost
    unfold Order.needsPenaltyFee
    split at hpost
    · next hparams => rw [hparams]
    · next hparams => rw [hparams]
    · cases hpost
  rw [hfree] at hpenalty
  obtain ⟨rfl, rfl⟩ := ok_inj₂ hpenalty
  obtain ⟨huntaken, htarget⟩ := matchOrder_postOnly hpost hprice hmatch
  obtain ⟨rfl, rfl⟩ := recordTaker_untaken huntaken htaker
  obtain ⟨houts, hposted⟩ := postRemainder_posted hremainder
  refine ⟨huntaken.outs.trans houts, oraclePriceLots, priceLots, priceData, horacle, hprice,
    fun hslides => ?_, fun hwf id hid => ?_⟩
  · have hsome : st.postTarget.isSome = true := by
      rw [htarget hslides]
      exact Order.postTarget_of_slides hslides
    have hiff := hposted hsome
    rw [huntaken.base, huntaken.quote] at hiff
    exact hiff
  · rw [hid] at hremainder
    refine postRemainder_on_book ?_ hremainder
    rw [bookside_setBookside_of_invert]
    exact (hwf order.side).1

end Call

/-- An ask of 1 lot at 10 that slides. -/
def slidingAsk : Order :=
  { Order.plain .ask ⟨10, ten_fits⟩ 1 100 with params := .fixed ⟨10, ten_fits⟩ .postOnlySlide }

/-- Against a bid at 20, the ask is posted at 21. -/
theorem postOnly_posts_slidingAsk : ∃ id book' market' q' account',
    oneBidBook.newOrder slidingAsk (.plain 0) .zeroed (.ofSmall 20) (.plain 0) 2 0 10 =
      .ok (some id, book', market', q', account') ∧ EventQueue.zeroed.Outs q' ∧
    ∃ priceData, slidingAsk.price 0 20 oneBidBook = .ok (21, priceData) := by
  have hrun : (oneBidBook.newOrder slidingAsk (.plain 0) .zeroed (.ofSmall 20) (.plain 0) 2 0
      10).toOption.any (fun r => r.1.isSome) = true := by decide +kernel
  obtain ⟨⟨posted, book', market', q', account'⟩, h, hposted⟩ := exists_of_any hrun
  obtain ⟨id, rfl⟩ := Option.isSome_iff_exists.mp hposted
  have houts := (postOnly_posts (show slidingAsk.isPostOnly = true from rfl) h).1
  have hprice : (slidingAsk.price 0 20 oneBidBook).toOption.any (fun r => decide (r.1 = 21)) = true := by
    decide +kernel
  obtain ⟨⟨price, priceData⟩, hprice, hvalue⟩ := exists_of_any hprice
  obtain rfl := of_decide_eq_true hvalue
  exact ⟨id, book', market', q', account', h, houts, priceData, hprice⟩

end MangoV4
