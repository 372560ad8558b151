/-
  MangoV4.Exchange.QuoteTotal

  Trading conserves quote.

  `quoteTotal` adds up what all accounts are worth in quote and the fees of the
  market, and takes off the maker fees that queued fills still have to charge.
  An order moves its taker fees from one account to the market and books the
  maker fees twice: as fees of the market, and as fees of the fills that it
  queues.  Processing a fill moves the quote amount between its two parties,
  and the maker pays what was booked.
-/

import MangoV4.Exchange.Funding
import MangoV4.Exchange.Run
import MangoV4.Lib.Arith
import Mathlib.Algebra.BigOperators.Group.Finset.Basic

namespace MangoV4

open Lib Lib.Exec List MangoAccount Orderbook Option Hit

/-! ## The total -/

/-- Maker fees that processing the event will charge. -/
def AnyEvent.makerFees (market : PerpMarket) : AnyEvent → ℚ
  | .fill f => f.makerFees market
  | .out _ => 0
  | .liquidate => 0

/-- Maker fees that the events of a list will charge. -/
def pendingFees (market : PerpMarket) (events : List AnyEvent) : ℚ :=
  (events.map (AnyEvent.makerFees market)).sum

/-- The position of an account; without one, all its counters are zero. -/
def Accounts.positionOf (accounts : Accounts) (m : PerpMarketIndex) (a : Pubkey) : PerpPosition :=
  ((accounts a).bind fun account => account.perpPosition m).getD .default

/-- What all accounts are worth in quote. -/
def Accounts.equity (accounts : Accounts) (market : PerpMarket) : ℚ :=
  ∑ a, (accounts.positionOf market.perpMarketIndex a).equity market

/-- The quote of all accounts and of the market.  The maker fees of queued fills
    are counted as collected already, so they are taken off. -/
def Market.quoteTotal (market : Market) (accounts : Accounts) : ℚ :=
  accounts.equity market.perpMarket + market.perpMarket.feesAccrued.toRat -
    pendingFees market.perpMarket market.eventQueue.events

def Exchange.quoteTotal (s : Exchange) (m : PerpMarketIndex) : ℚ :=
  (s.markets m).elim 0 fun market => market.quoteTotal s.accounts

/-- `market'` differs from `market` only in what trading changes. -/
def PerpMarket.TradedInto (market market' : PerpMarket) : Prop :=
  ∃ seqNum openInterest feesAccrued, market' = { market with seqNum, openInterest, feesAccrued }

section Total

variable {market market' market₁ : PerpMarket} {accounts : Accounts} {pk : Pubkey}
  {account account' : MangoAccount}

theorem pendingFees_append (market : PerpMarket) (es es' : List AnyEvent) :
    pendingFees market (es ++ es') = pendingFees market es + pendingFees market es' := by
  rw [pendingFees, map_append, sum_append, pendingFees, pendingFees]

/-- Only fills charge fees. -/
theorem pendingFees_outs {outs : List AnyEvent} (h : ∀ e ∈ outs, ∃ o, e = .out o) :
    pendingFees market outs = 0 := by
  apply sum_eq_zero
  intro x hx
  obtain ⟨e, he, rfl⟩ := mem_map.mp hx
  obtain ⟨o, rfl⟩ := h e he
  rfl

namespace PerpMarket.TradedInto

theorem refl (market : PerpMarket) : market.TradedInto market := ⟨_, _, _, rfl⟩

theorem trans (h : market.TradedInto market₁) (h' : market₁.TradedInto market') :
    market.TradedInto market' := by
  obtain ⟨_, _, _, rfl⟩ := h
  obtain ⟨_, _, _, rfl⟩ := h'
  exact ⟨_, _, _, rfl⟩

theorem index_eq (h : market.TradedInto market') :
    market'.perpMarketIndex = market.perpMarketIndex := by
  obtain ⟨_, _, _, rfl⟩ := h
  rfl

theorem terms_eq (h : market.TradedInto market') :
    market'.quoteLotSize = market.quoteLotSize ∧ market'.makerFee = market.makerFee := by
  obtain ⟨_, _, _, rfl⟩ := h
  exact ⟨rfl, rfl⟩

theorem equity_eq (h : market.TradedInto market') (p : PerpPosition) :
    p.equity market' = p.equity market := by
  obtain ⟨_, _, _, rfl⟩ := h
  rfl

theorem quoteFor_eq (h : market.TradedInto market') (fill : FillEvent) (side : Side) :
    fill.quoteFor market' side = fill.quoteFor market side := by
  obtain ⟨_, _, _, rfl⟩ := h
  rfl

theorem pendingFees_eq (h : market.TradedInto market') (events : List AnyEvent) :
    pendingFees market' events = pendingFees market events := by
  obtain ⟨_, _, _, rfl⟩ := h
  refine congrArg sum (map_congr_left fun e _ => ?_)
  cases e <;> rfl

end PerpMarket.TradedInto

/-- The worth of one account moves by `x`, and so does the worth of all. -/
theorem Accounts.equity_store {x : ℚ} (hpk : accounts pk = some account)
    (hmarket : market.TradedInto market')
    (hx : account'.equityIn market' = account.equityIn market + x) :
    (accounts.store pk account').equity market' = accounts.equity market + x := by
  have hself : ((accounts.store pk account').positionOf market'.perpMarketIndex pk).equity market' =
      (accounts.positionOf market.perpMarketIndex pk).equity market + x := by
    rw [positionOf, positionOf, store, Function.update_self, hpk]
    exact hx
  have hother : ∀ a, a ≠ pk →
      ((accounts.store pk account').positionOf market'.perpMarketIndex a).equity market' =
        (accounts.positionOf market.perpMarketIndex a).equity market := by
    intro a ha
    rw [positionOf, positionOf, store, Function.update_of_ne ha, hmarket.index_eq,
      hmarket.equity_eq]
  have hdiff : ∑ a, (((accounts.store pk account').positionOf market'.perpMarketIndex a).equity market' -
      (accounts.positionOf market.perpMarketIndex a).equity market) = x := by
    rw [Finset.sum_eq_single pk]
    · rw [hself, add_sub_cancel_left]
    · intro a _ ha
      rw [hother a ha, sub_self]
    · intro hmem
      exact absurd (Finset.mem_univ pk) hmem
  rw [Finset.sum_sub_distrib] at hdiff
  unfold equity
  linarith

end Total

/-! ## Orders -/

section Orders

variable {market : PerpMarket} {ctx : MatchContext}

/-- What a fill moves, if nothing in it is negative. -/
theorem FillEvent.abs_quoteFor {fill : FillEvent} (hlots : 0 ≤ market.quoteLotSize)
    (hprice : 0 ≤ fill.price) (hquantity : 0 ≤ fill.quantity) (side : Side) :
    |fill.quoteFor market side| = market.quoteLotSize * (fill.price * fill.quantity : Int) := by
  have hnonneg : (0 : ℚ) ≤ market.quoteLotSize * (fill.price * fill.quantity : Int) := by
    have hint : 0 ≤ market.quoteLotSize * (fill.price * fill.quantity) :=
      Int.mul_nonneg hlots (Int.mul_nonneg hprice hquantity)
    exact_mod_cast hint
  cases side with
  | bid =>
    rw [← abs_of_nonneg hnonneg, ← abs_neg, FillEvent.quoteFor, FillEvent.change]
    push_cast
    rw [mul_neg, neg_neg]
  | ask =>
    rw [← abs_of_nonneg hnonneg, FillEvent.quoteFor, FillEvent.change]

/-- The maker fee of a fill is the one that the market has collected for it. -/
theorem Hit.makerFees_event {h : Hit} (seqNum : Nat) (hctx : ctx.makerFee = market.makerFee)
    (hlots : 0 ≤ market.quoteLotSize) (hfee : Float.Fits 24 market.makerFee) (hsound : h.Sound)
    (hprice : 0 ≤ h.item.priceLots) :
    (h.event ctx seqNum).makerFees market =
      market.quoteLotSize * (h.quote - h.selfQuote ctx : Int) * market.makerFee.toRat := by
  obtain ⟨item, _ | lots⟩ := h
  · -- a dropped order trades nothing
    simp [event, AnyEvent.makerFees, selfQuote, quote, base]
  · have hpos := (hsound lots rfl).1
    show |FillEvent.quoteFor _ market _| * Float.toRat (.ofFixed (fee ctx _ ctx.makerFee)) = _
    rw [FillEvent.abs_quoteFor hlots hprice (Int.le_of_lt hpos), hctx]
    unfold fee selfQuote
    split
    · -- no fee is collected and none is stored
      rw [Float.toRat_ofFixed Float.fits_zero, Fixed.toRat_zero, Int.sub_self]
      simp
    · rw [Float.toRat_ofFixed hfee, Int.sub_zero]
      have hquote : item.priceLots * lots = quote ⟨item, some lots⟩ := Int.mul_comm ..
      rw [← hquote]
      rfl

theorem pendingFees_hitEvents (ctx : MatchContext) {hits : List Hit} (seqNum : Nat)
    (hctx : ctx.makerFee = market.makerFee) (hlots : 0 ≤ market.quoteLotSize)
    (hfee : Float.Fits 24 market.makerFee) (hsound : ∀ h ∈ hits, h.Sound)
    (hprice : ∀ h ∈ hits, 0 ≤ h.item.priceLots) :
    pendingFees market (hitEvents ctx seqNum hits) = market.quoteLotSize *
      ((hits.map quote).sum - (hits.map (selfQuote ctx)).sum : Int) *
      market.makerFee.toRat := by
  have hmap : (hitEvents ctx seqNum hits).map (AnyEvent.makerFees market) = hits.map fun h =>
      market.quoteLotSize * (h.quote - h.selfQuote ctx : Int) * market.makerFee.toRat :=
    map_mapIdx_of_forall hits fun i h hmem =>
      makerFees_event _ hctx hlots hfee (hsound h hmem) (hprice h hmem)
  rw [pendingFees, hmap]
  clear hmap hsound hprice
  induction hits with
  | nil => simp
  | cons h hits ih =>
    simp only [map_cons, sum_cons, ih]
    push_cast
    ring

/-- Without any quote traded, none is traded with itself. -/
theorem sum_selfQuote_eq_zero {hits : List Hit} (hsound : ∀ h ∈ hits, h.Sound)
    (hprice : ∀ h ∈ hits, 0 ≤ h.item.priceLots) (hzero : (hits.map quote).sum = 0) :
    (hits.map (selfQuote ctx)).sum = 0 := by
  have hquote : ∀ h ∈ hits, 0 ≤ h.quote := by
    intro h hmem
    refine Int.mul_nonneg ?_ (hprice h hmem)
    unfold base
    cases htaken : h.taken with
    | none => exact Int.le_refl 0
    | some lots => exact Int.le_of_lt (hsound h hmem lots htaken).1
  have hself : ∀ h ∈ hits, 0 ≤ h.selfQuote ctx ∧ h.selfQuote ctx ≤ h.quote := by
    intro h hmem
    have hnonneg := hquote h hmem
    unfold selfQuote
    split
    · exact ⟨hnonneg, Int.le_refl _⟩
    · exact ⟨Int.le_refl _, hnonneg⟩
  have hle : (hits.map (selfQuote ctx)).sum ≤ (hits.map quote).sum :=
    sum_le_sum fun h hmem => (hself h hmem).2
  have hge : 0 ≤ (hits.map (selfQuote ctx)).sum := by
    apply sum_nonneg
    intro x hx
    obtain ⟨h, hmem, rfl⟩ := mem_map.mp hx
    exact (hself h hmem).1
  omega

end Orders

/-- An order conserves quote. -/
theorem newOrder_quoteTotal {market : Market} {accounts : Accounts} {pk : Pubkey} {order : Order}
    {oraclePrice : I80F48} {account account' : MangoAccount} {nowTs limit : Nat}
    {posted : Option Key} {book' : Orderbook} {perpMarket' : PerpMarket} {q' : EventQueue}
    (hpk : accounts pk = some account) (hwf : market.book.WellFormed)
    (hpos : ∀ x ∈ (market.book.bookside order.side.invertSide).leaves, 0 < x.2.quantity)
    (hlots : 0 ≤ market.perpMarket.quoteLotSize)
    (hfee : Float.Fits 24 market.perpMarket.makerFee)
    (h : market.book.newOrder order market.perpMarket market.eventQueue oraclePrice account pk nowTs
      limit = .ok (posted, book', perpMarket', q', account')) :
    market.perpMarket.TradedInto perpMarket' ∧
    Market.quoteTotal ⟨perpMarket', book', q'⟩ (accounts.store pk account') =
      market.quoteTotal accounts := by
  obtain ⟨r⟩ := newOrder_run h
  obtain ⟨hits, rest, hm⟩ := r.matched hwf
  have hprice : ∀ h ∈ hits, 0 ≤ h.item.priceLots := by
    intro h hmem
    rw [hm.items h hmem]
    exact itemOf_price_nonneg ..
  have hsound := (hm.sound hpos).1
  have htraded : market.perpMarket.TradedInto perpMarket' := by
    obtain ⟨feesAccrued, hmarket⟩ := r.market_eq
    exact ⟨_, _, _, hmarket⟩
  -- what was traded, and what of it with itself
  have hquote : order.maxQuoteLots - r.st.remainingQuoteLots = (hits.map quote).sum := by
    have heq : r.st.remainingQuoteLots = order.maxQuoteLots - (hits.map quote).sum :=
      hm.progress.quote
    omega
  have hself : r.st.decrementedQuoteLots =
      (hits.map (selfQuote (.of order market.perpMarket pk nowTs r.priceLots))).sum :=
    hm.progress.selfTraded.trans (Int.zero_add _)
  have hbooked := r.booked fun hzero => by
    rw [hself]
    exact sum_selfQuote_eq_zero hsound hprice (hquote ▸ hzero)
  rw [hquote, hself] at hbooked
  -- the new events
  have hpending : pendingFees market.perpMarket q'.events =
      pendingFees market.perpMarket market.eventQueue.events + market.perpMarket.quoteLotSize *
        ((hits.map quote).sum -
          (hits.map (selfQuote (.of order market.perpMarket pk nowTs r.priceLots))).sum : Int) *
        market.perpMarket.makerFee.toRat := by
    obtain ⟨outs, hevents, houts⟩ := r.remainder.events_eq (by
      rw [bookside_setBookside_of_invert]
      exact (hwf order.side).1)
    have hnew := pendingFees_hitEvents (.of order market.perpMarket pk nowTs r.priceLots)
      market.eventQueue.seqNum rfl hlots hfee hsound hprice
    have hnone : pendingFees market.perpMarket outs = 0 := by
      apply pendingFees_outs
      intro e he
      obtain ⟨o, ho, -⟩ := houts e he
      exact ⟨o, ho⟩
    rw [hevents, hm.progress.events, pendingFees_append, pendingFees_append, hnone, add_zero]
    exact congrArg _ hnew
  have hstore := Accounts.equity_store (x := account'.equityIn perpMarket' -
    account.equityIn market.perpMarket) hpk htraded (by ring)
  refine ⟨htraded, ?_⟩
  unfold Market.quoteTotal
  rw [hstore, htraded.pendingFees_eq, hpending]
  unfold booked at hbooked
  linarith

/-! ## Cancelling -/

theorem cancelOrderBySlot_equityIn {market : PerpMarket} {account account' : MangoAccount}
    {pk : Pubkey} {book book' : Orderbook} {slot : Nat}
    (h : book.cancelOrderBySlot account pk slot market.perpMarketIndex = .ok (book', account')) :
    account'.equityIn market = account.equityIn market := by
  obtain ⟨oo, hoo, h⟩ := of_bind h
  obtain ⟨_, hactive, h⟩ := of_bind h
  obtain ⟨⟨leaf, b⟩, -, h⟩ := of_bind h
  obtain ⟨quantity, -, h⟩ := of_bind h
  obtain ⟨account₁, hremove, h⟩ := of_bind h
  obtain ⟨rfl, rfl⟩ := ok_inj₂ h
  have hmarket : oo.market = market.perpMarketIndex := of_require hactive
  exact (removePerpOrder_spec (perpOrderByRawIndex_eq_ok.mp hoo)
    hremove).2.2.2 market hmarket.symm

theorem cancelLoop_equityIn {market : PerpMarket} {pk : Pubkey} {sideToCancel : Option Side}
    {slots : List Nat} {book book' : Orderbook} {account account' : MangoAccount} {limit : Nat}
    (h : cancelLoop pk market.perpMarketIndex sideToCancel slots book account limit =
      .ok (book', account')) : account'.equityIn market = account.equityIn market :=
  cancelLoop_preserves (P := fun _ a => a.equityIn market = account.equityIn market)
    (fun hstart hcancel => (cancelOrderBySlot_equityIn hcancel).trans hstart)
    sideToCancel slots rfl h

/-- Cancelling moves no quote. -/
theorem cancel_quoteTotal {market : Market} {accounts : Accounts} {pk : Pubkey}
    {account account' : MangoAccount} (book' : Orderbook) (hpk : accounts pk = some account)
    (h : account'.equityIn market.perpMarket = account.equityIn market.perpMarket) :
    Market.quoteTotal { market with book := book' } (accounts.store pk account') =
      market.quoteTotal accounts := by
  have hstore := Accounts.equity_store hpk (.refl market.perpMarket) (h.trans (add_zero _).symm)
  unfold Market.quoteTotal
  rw [hstore, add_zero]

/-! ## Processing events -/

section Consume

variable {market market' : PerpMarket} {accounts accounts' : Accounts} {passed : List Pubkey}
  {nowTs interval : Nat}

variable {a a' : MangoAccount} {fill : FillEvent}

/-- Processing a fill changes nothing but the open interest of the market. -/
theorem executePerpMaker_tradedInto
    (h : a.executePerpMaker market fill nowTs interval = .ok (a', market')) :
    market.TradedInto market' ∧ market'.feesAccrued = market.feesAccrued := by
  obtain ⟨⟨l, l', -, -, rfl⟩, -⟩ := executePerpMaker_spec h
  exact ⟨⟨_, _, _, rfl⟩, rfl⟩

theorem executePerpTaker_tradedInto (h : a.executePerpTaker market fill = .ok (a', market')) :
    market.TradedInto market' ∧ market'.feesAccrued = market.feesAccrued := by
  obtain ⟨⟨l, l', -, -, rfl⟩, -⟩ := executePerpTaker_spec h
  exact ⟨⟨_, _, _, rfl⟩, rfl⟩

theorem executePerpMaker_equityIn
    (h : a.executePerpMaker market fill nowTs interval = .ok (a', market')) :
    a'.equityIn market' = a.equityIn market +
      (fill.quoteFor market fill.takerSide.invertSide - fill.makerFees market) := by
  obtain ⟨p, p', hp, hp', hequity⟩ := (executePerpMaker_spec h).2.2
  have hindex := (executePerpMaker_tradedInto h).1.index_eq
  rw [equityIn_of_position hp, equityIn, hindex, hp', getD_some,
    hequity]

theorem executePerpTaker_equityIn (h : a.executePerpTaker market fill = .ok (a', market')) :
    a'.equityIn market' = a.equityIn market + fill.quoteFor market fill.takerSide := by
  obtain ⟨p, p', hp, hp', hequity⟩ := (executePerpTaker_spec h).2.2
  have hindex := (executePerpTaker_tradedInto h).1.index_eq
  rw [equityIn_of_position hp, equityIn, hindex, hp', getD_some,
    hequity]

/-- A fill takes its maker fee from all accounts together, other events nothing. -/
theorem consumeEvent_equity {event : AnyEvent}
    (h : consumeEvent market accounts passed nowTs interval event =
      .ok (some (market', accounts'))) :
    market.TradedInto market' ∧ market'.feesAccrued = market.feesAccrued ∧
    accounts'.equity market' = accounts.equity market - event.makerFees market := by
  cases event with
  | fill f =>
    obtain ⟨maker, maker', market₁, taker, taker', hload, hmaker, hload', htaker, rfl⟩ :=
      Exchange.consumeEvent_fill h
    obtain ⟨hinto₁, hfees₁⟩ := executePerpMaker_tradedInto hmaker
    obtain ⟨hinto₂, hfees₂⟩ := executePerpTaker_tradedInto htaker
    refine ⟨hinto₁.trans hinto₂, hfees₂.trans hfees₁, ?_⟩
    rw [Accounts.equity_store hload' hinto₂ (executePerpTaker_equityIn htaker),
      Accounts.equity_store hload hinto₁ (executePerpMaker_equityIn hmaker), hinto₁.quoteFor_eq,
      f.quoteFor_invert]
    show _ = accounts.equity market - f.makerFees market
    ring
  | out e =>
    obtain ⟨o, hload, h⟩ := of_bind h
    cases o with
    | none => cases h
    | some owner =>
      obtain ⟨owner', hout, h⟩ := of_bind h
      obtain ⟨rfl, rfl⟩ := Prod.mk.inj (some.inj (ok_inj h))
      have hstore := Accounts.equity_store (Exchange.loadPassed_eq_some hload)
        (.refl market) (((executePerpOutEvent_spec hout).2.2 market rfl).trans
          (add_zero _).symm)
      refine ⟨.refl market, rfl, ?_⟩
      rw [hstore]
      exact (add_zero _).trans (sub_zero _).symm
  | liquidate =>
    obtain ⟨rfl, rfl⟩ := Prod.mk.inj (some.inj (ok_inj h))
    exact ⟨.refl market, rfl, (sub_zero _).symm⟩

theorem consumeLoop_quoteTotal (passed : List Pubkey) (nowTs interval limit : Nat)
    {market market' : Market} {accounts accounts' : Accounts}
    (h : consumeLoop passed nowTs interval limit market accounts = .ok (market', accounts')) :
    market.perpMarket.TradedInto market'.perpMarket ∧
      market'.quoteTotal accounts' = market.quoteTotal accounts := by
  refine Exchange.consumeLoop_induction (J := fun market₁ accounts₁ =>
    market.perpMarket.TradedInto market₁.perpMarket ∧
      market₁.quoteTotal accounts₁ = market.quoteTotal accounts) ?_ limit ⟨.refl _, rfl⟩ h
  intro market₁ accounts₁ accounts₂ event es perpMarket₂ q₂ hfirst hevents hq hconsume
  obtain ⟨hinto, hfees, hequity⟩ := consumeEvent_equity hconsume
  refine ⟨hfirst.1.trans hinto, Eq.trans ?_ hfirst.2⟩
  -- the fees of the first event are charged and no longer pending
  have hpending : pendingFees market₁.perpMarket market₁.eventQueue.events =
      event.makerFees market₁.perpMarket + pendingFees market₁.perpMarket q₂.events := by
    rw [hevents, hq]
    exact sum_cons
  unfold Market.quoteTotal
  rw [hequity, hfees, hinto.pendingFees_eq, hpending]
  ring

end Consume

/-! ## Runs -/

namespace Exchange

/-- Orders, cancels and processing of events, without an update of funding. -/
def Op.trades : Op → Bool
  | .newOrder .. => true
  | .cancelOrderBySlot .. => true
  | .cancelAllOrders .. => true
  | .perpConsumeEvents .. => true
  | .perpPlaceOrder .. => false
  | .perpSettlePnl .. => false
  | .perpDeactivatePosition _ => false
  | .perpForceClosePosition .. => false
  | .perpLiqBaseOrPositivePnl .. => false

/-- One instruction conserves quote. -/
theorem execOp_quoteTotal {market market' : Market} {accounts accounts' : Accounts} {op : Op}
    (hop : op.trades = true) (hwf : market.book.WellFormed)
    (hpos : ∀ side, ∀ x ∈ (market.book.bookside side).leaves, 0 < x.2.quantity)
    (hlots : 0 ≤ market.perpMarket.quoteLotSize)
    (hfee : Float.Fits 24 market.perpMarket.makerFee)
    (h : execOp market accounts op = .ok (market', accounts')) :
    market.perpMarket.TradedInto market'.perpMarket ∧
      market'.quoteTotal accounts' = market.quoteTotal accounts := by
  cases op with
  | newOrder pk order oraclePrice nowTs limit =>
    obtain ⟨account, hload, h⟩ := of_bind h
    obtain ⟨⟨posted, book', perpMarket', q', account'⟩, horder, h⟩ := of_bind h
    obtain ⟨rfl, rfl⟩ := ok_inj₂ h
    exact newOrder_quoteTotal (load_eq_ok.mp hload) hwf (hpos _) hlots hfee horder
  | cancelOrderBySlot pk slot =>
    obtain ⟨account, hload, h⟩ := of_bind h
    obtain ⟨⟨book', account'⟩, hcancel, h⟩ := of_bind h
    obtain ⟨rfl, rfl⟩ := ok_inj₂ h
    exact ⟨.refl _, cancel_quoteTotal book' (load_eq_ok.mp hload)
      (cancelOrderBySlot_equityIn hcancel)⟩
  | cancelAllOrders pk limit sideToCancel =>
    obtain ⟨account, hload, h⟩ := of_bind h
    obtain ⟨⟨book', account'⟩, hcancel, h⟩ := of_bind h
    obtain ⟨rfl, rfl⟩ := ok_inj₂ h
    exact ⟨.refl _, cancel_quoteTotal book' (load_eq_ok.mp hload) (cancelLoop_equityIn hcancel)⟩
  | perpConsumeEvents passed limit nowTs interval =>
    exact consumeLoop_quoteTotal passed nowTs interval _ h
  | perpPlaceOrder _ _ _ _ _ _ _ => cases hop
  | perpSettlePnl _ _ _ _ _ => cases hop
  | perpDeactivatePosition _ => cases hop
  | perpForceClosePosition _ _ _ => cases hop
  | perpLiqBaseOrPositivePnl _ _ _ _ _ _ => cases hop

variable {s : Exchange} {m : PerpMarketIndex} {market : Market}

theorem quoteTotal_of_market (h : s.markets m = some market) :
    s.quoteTotal m = market.quoteTotal s.accounts := by
  unfold quoteTotal
  rw [h, elim_some]

/-- In every run of orders, cancels and event processing on a market, whatever
    funding its positions owe, quote is conserved.  Fees are set as `f32`
    numbers, so the fee that a fill stores is the fee of the market. -/
theorem quote_conserved (hs : s.Sound) (hmarket : s.markets m = some market)
    (hlots : 0 ≤ market.perpMarket.quoteLotSize)
    (hfee : Float.Fits 24 market.perpMarket.makerFee) {calls : List Call}
    (hcalls : ∀ call ∈ calls, call.market = m ∧ call.op.trades = true) :
    (run exec s calls).quoteTotal m = s.quoteTotal m := by
  -- the invariant: markets and books are sound, the terms of the market are the same
  have hrun : (run exec s calls).Sound ∧ ∃ market',
      (run exec s calls).markets m = some market' ∧
      market.perpMarket.TradedInto market'.perpMarket ∧
      market'.quoteTotal (run exec s calls).accounts = market.quoteTotal s.accounts := by
    refine run_preserves_of_guarded (P := fun s' => s'.Sound ∧ ∃ market',
        s'.markets m = some market' ∧ market.perpMarket.TradedInto market'.perpMarket ∧
        market'.quoteTotal s'.accounts = market.quoteTotal s.accounts)
      (C := fun call _ => call.market = m ∧ call.op.trades = true) ?_ calls s
      ⟨hs, market, hmarket, .refl _, rfl⟩
      (guarded_of_forall calls (fun call hcall _ => hcalls call hcall) s)
    rintro call s₁ r s₂ ⟨hsound, market₁, hmarket₁, hinto, htotal⟩ ⟨rfl, hop⟩ hexec
    refine ⟨exec_sound hsound hexec, ?_⟩
    obtain ⟨market₁', market₂, accounts₂, hload, hop', rfl⟩ := exec_ok hexec
    obtain rfl := some.inj (hload.symm.trans hmarket₁)
    obtain ⟨hlotsEq, hfeeEq⟩ := hinto.terms_eq
    have hpos : ∀ side, ∀ x ∈ (market₁'.book.bookside side).leaves, 0 < x.2.quantity := by
      have hpositive := hsound.positive call.market
      rw [clearing_of_market hmarket₁] at hpositive
      exact hpositive.leaves
    obtain ⟨hinto', htotal'⟩ := execOp_quoteTotal hop (hsound.book _ _ hmarket₁) hpos
      (hlotsEq ▸ hlots) (hfeeEq ▸ hfee) hop'
    exact ⟨market₂, markets_store_self .., hinto.trans hinto', htotal'.trans htotal⟩
  obtain ⟨-, market', hmarket', -, htotal⟩ := hrun
  exact (quoteTotal_of_market hmarket').trans (htotal.trans (quoteTotal_of_market hmarket).symm)

/-! ## Lots of a negative size -/

/-- No call creates an account. -/
theorem run_accounts_none {a : Pubkey} (hs : s.Sound) (h : s.accounts a = none)
    (calls : List Call) : (run exec s calls).accounts a = none := by
  have hrun : (run exec s calls).Sound ∧ (run exec s calls).accounts a = none := by
    refine run_preserves (P := fun s' : Exchange => s'.Sound ∧ s'.accounts a = none) ?_ calls
      ⟨hs, h⟩
    rintro call s₁ r s₂ ⟨hsound, hnone⟩ hexec
    refine ⟨exec_sound hsound hexec, ?_⟩
    obtain ⟨market₁, market₂, accounts₂, hload, hop, rfl⟩ := exec_ok hexec
    have hapart := (exec_refines (K := fun _ _ => True) hsound hload (fun _ _ => trivial) hop).apart a
    rw [hnone] at hapart
    show accounts₂ a = none
    cases hold : accounts₂ a with
    | none => rfl
    | some account =>
      rw [hold] at hapart
      cases hapart
  exact hrun.2

/-- A market that has just been created can replace another one. -/
theorem Fresh.store (perpMarket : PerpMarket) (h : s.Fresh)
    (hindex : perpMarket.perpMarketIndex = m)
    (hseq : perpMarket.seqNum = 0) (hinterest : perpMarket.openInterest = 0) :
    (s.store m ⟨perpMarket, ⟨.zeroed .bids, .zeroed .asks⟩, .zeroed⟩ s.accounts).Fresh where
  index := by
    intro m' market' hm'
    by_cases hne : m' = m
    · subst hne
      rw [markets_store_self] at hm'
      exact some.inj hm' ▸ hindex
    · rw [markets_store_of_ne hne] at hm'
      exact h.index m' market' hm'
  book := by
    intro m' market' hm'
    by_cases hne : m' = m
    · subst hne
      rw [markets_store_self] at hm'
      exact some.inj hm' ▸ ⟨rfl, rfl, hseq, hinterest⟩
    · rw [markets_store_of_ne hne] at hm'
      exact h.book m' market' hm'
  positions := h.positions
  count := h.count
  slots := h.slots

/-- A market with a maker fee of one half and quote lots of the given size. -/
def halfFeeMarket (quoteLotSize : Int) : PerpMarket :=
  { PerpMarket.plain 0 with quoteLotSize, makerFee := ⟨2 ^ 47, I80F48.half_inRange⟩ }

/-- Two traders on that market. -/
def halfFee (quoteLotSize : Int) : Exchange :=
  (twoTraders 0).store 0 ⟨halfFeeMarket quoteLotSize, ⟨.zeroed .bids, .zeroed .asks⟩, .zeroed⟩
    (twoTraders 0).accounts

theorem halfFee_sound (quoteLotSize : Int) : (halfFee quoteLotSize).Sound :=
  (Fresh.store (halfFeeMarket quoteLotSize) (twoTraders_fresh 0) rfl rfl rfl).sound

theorem halfFee_market (quoteLotSize : Int) : (halfFee quoteLotSize).markets 0 =
    some ⟨halfFeeMarket quoteLotSize, ⟨.zeroed .bids, .zeroed .asks⟩, .zeroed⟩ :=
  markets_store_self ..

/-- A bid for four lots, and an ask that takes two of them. -/
def halfTaken : List Call := [⟨0, .limitAt20 1 .bid 4⟩, ⟨0, .limitAt20 2 .ask 2⟩]

/-- With one position each and nobody else, only two accounts are worth anything. -/
theorem equity_eq_zero {accounts : Accounts} {market : PerpMarket}
    (hone : (accounts.positionOf market.perpMarketIndex 1).equity market = 0)
    (htwo : (accounts.positionOf market.perpMarketIndex 2).equity market = 0)
    (hnone : ∀ a, a ≠ 1 → a ≠ 2 → accounts a = none) : accounts.equity market = 0 := by
  apply Finset.sum_eq_zero
  intro a _
  by_cases h₁ : a = 1
  · rw [h₁, hone]
  · by_cases h₂ : a = 2
    · rw [h₂, htwo]
    · rw [Accounts.positionOf, hnone a h₁ h₂]
      simp [PerpPosition.equity, PerpPosition.fundingOwed, PerpPosition.default]

/-- What is left of the total if no position is worth anything. -/
theorem quoteTotal_of_worthless (hmarket : s.markets m = some market)
    (hindex : market.perpMarket.perpMarketIndex = m)
    (hone : (s.positionOf 1 m).equity market.perpMarket = 0)
    (htwo : (s.positionOf 2 m).equity market.perpMarket = 0)
    (hnone : ∀ a, a ≠ 1 → a ≠ 2 → s.accounts a = none) :
    s.quoteTotal m = market.perpMarket.feesAccrued.toRat -
      pendingFees market.perpMarket market.eventQueue.events := by
  subst hindex
  rw [quoteTotal_of_market hmarket, Market.quoteTotal, equity_eq_zero hone htwo hnone, zero_add]

/-- With negative quote lots, the market loses the maker fee that the maker will be charged. -/
theorem quote_not_conserved :
    (∀ call ∈ halfTaken, call.market = 0 ∧ call.op.trades = true) ∧ (halfFee (-1)).Sound ∧
      Float.Fits 24 (halfFeeMarket (-1)).makerFee ∧
      (run exec (halfFee (-1)) halfTaken).quoteTotal 0 ≠ (halfFee (-1)).quoteTotal 0 := by
  have hothers : ∀ calls a, a ≠ 1 → a ≠ 2 →
      (run exec (halfFee (-1)) calls).accounts a = none := by
    intro calls a h₁ h₂
    refine run_accounts_none (halfFee_sound _) ?_ calls
    show (if a = 1 ∨ a = 2 then _ else _) = none
    rw [if_neg (not_or.mpr ⟨h₁, h₂⟩)]
  have hstart : (halfFee (-1)).quoteTotal 0 = 0 := by
    rw [quoteTotal_of_worthless (halfFee_market _) rfl (by decide +kernel) (by decide +kernel)
      (hothers [])]
    decide +kernel
  have hend : ((run exec (halfFee (-1)) halfTaken).markets 0).any (fun market =>
      decide (market.perpMarket.perpMarketIndex = 0 ∧
        ((run exec (halfFee (-1)) halfTaken).positionOf 1 0).equity market.perpMarket = 0 ∧
        ((run exec (halfFee (-1)) halfTaken).positionOf 2 0).equity market.perpMarket = 0 ∧
        market.perpMarket.feesAccrued.toRat = -20 ∧
        pendingFees market.perpMarket market.eventQueue.events = 20)) = true := by
    decide +kernel
  have hothers := hothers halfTaken
  generalize run exec (halfFee (-1)) halfTaken = s at hend hothers
  refine ⟨by decide, halfFee_sound _, ⟨1, 47, by decide, by decide⟩, ?_⟩
  cases hmarket : s.markets 0 with
  | none =>
    rw [hmarket] at hend
    cases hend
  | some market =>
    rw [hmarket] at hend
    obtain ⟨hindex, hone, htwo, hfees, hpending⟩ := of_decide_eq_true hend
    rw [quoteTotal_of_worthless hmarket hindex hone htwo hothers, hstart, hfees, hpending]
    norm_num

/-- The same orders with lots of size one, and their event processed. -/
theorem halfTaken_conserved :
    (run exec (halfFee 1) (halfTaken ++ [⟨0, .perpConsumeEvents [1, 2] 8 0 0⟩])).quoteTotal 0 =
      (halfFee 1).quoteTotal 0 :=
  quote_conserved (halfFee_sound 1) (halfFee_market 1) (by decide)
    ⟨1, 47, by decide, by decide⟩ (by decide)

end Exchange

end MangoV4
