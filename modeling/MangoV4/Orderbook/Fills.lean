/-
  MangoV4.Orderbook.Fills

  The order of the fills of a new order.

  The matching loop looks at the items that the iterator produces, one after
  the other (`matchLoop_produced`), and pushes at most one event for each.  So
  the fills of a call have the order of the iteration: from the best price to
  the worst, and at one price from the oldest order to the newest.
-/

import MangoV4.Orderbook.IterationOrder
import MangoV4.Orderbook.PostOnly

namespace MangoV4

open Lib Lib.Exec List BookSide BookSideIter Orderbook

/-! ## The loop -/

section Loop

variable {ctx : MatchContext} {side : Side}

theorem matchLoop_produced {t : OrderTreeNodes} {fuel : Nat} {it : BookSideIter}
    {st st' : MatchState} (h : matchLoop t ctx fuel it st = .ok st') :
    matchItems ctx st (it.produced t fuel) = .ok st' := by
  induction fuel generalizing it st with
  | zero => cases h
  | succ fuel ih =>
    obtain ⟨⟨yielded, it'⟩, hnext, h⟩ := of_bind h
    rw [produced, hnext]
    cases yielded with
    | none => exact h
    | some item =>
      obtain ⟨r, hstep, h⟩ := of_bind h
      rw [matchItems, hstep, ok_bind]
      cases r with
      | done st₁ => exact h
      | yield st₁ => exact ih h

/-- The first item has priority, and both prices are within the range in which
    the rank is the priority. -/
def BookSideIterItem.Ranked (side : Side) (i j : BookSideIterItem) : Prop :=
  PriceInRank i ∧ PriceInRank j ∧ ranksBefore side i j = true

theorem produced_ranked {b : BookSide} (hwf : b.WellFormed) {nowTs : Nat} {oracle : Int}
    {it : BookSideIter} (hnew : b.iterAllIncludingInvalid nowTs oracle = .ok it) (n : Nat) :
    (it.produced b.nodes n).Pairwise (BookSideIterItem.Ranked b.side) := by
  obtain ⟨tree, free, hl⟩ := hwf
  obtain ⟨it', hnew', hit, -, -, hleft⟩ := iter_holds hl nowTs oracle
  obtain rfl := ok_unique hnew hnew'
  have hinit := produced_initial n hit hleft (sorted_cells hl .oraclePegged)
  have hrange : ∀ i ∈ it.produced b.nodes n, PriceInRank i :=
    fun i hi => priceInRank_of_mem_visible (hinit.subset hi)
  have hsorted := (visible_sorted it.nowTs it.oraclePriceLots
    (sorted_cells hl .fixed) (sorted_cells hl .oraclePegged)).sublist hinit.sublist
  exact hsorted.imp_of_mem fun hi hj hij => ⟨hrange _ hi, hrange _ hj, hij⟩

theorem Hit.event_fill {h : Hit} {n : Nat} {f : FillEvent} (hf : h.event ctx n = .fill f) :
    f.price = h.item.priceLots ∧ f.makerOrderId = h.item.node.key := by
  unfold Hit.event at hf
  split at hf
  · cases hf
  · cases hf
    exact ⟨rfl, rfl⟩

/-- The price of `f` is no worse for the taker, and at the same price the maker of
    `f` placed its order first.  `side` is that of the makers. -/
def FillEvent.Before (side : Side) (f f' : FillEvent) : Prop :=
  side.isPriceBetter f'.price f.price = false ∧ (f.price = f'.price → ∀ d d' n n',
    f.makerOrderId = newNodeKey side d n → f'.makerOrderId = newNodeKey side d' n' → n ≤ n')

def FillsInPriority (side : Side) (events : List AnyEvent) : Prop :=
  events.Pairwise fun e e' => ∀ f f', e = .fill f → e' = .fill f' → f.Before side f'

theorem Hit.event_before {h h' : Hit} {n n' : Nat} {f f' : FillEvent}
    (hrank : h.item.Ranked side h'.item) (hf : h.event ctx n = .fill f)
    (hf' : h'.event ctx n' = .fill f') : f.Before side f' := by
  obtain ⟨hi, hj, hij⟩ := hrank
  obtain ⟨hprice, hid⟩ := Hit.event_fill hf
  obtain ⟨hprice', hid'⟩ := Hit.event_fill hf'
  rw [FillEvent.Before, hprice, hprice', hid, hid']
  exact ⟨not_isPriceBetter_of_ranksBefore hi hj hij,
    fun heq _ _ _ _ => seqNum_le_of_ranksBefore hi hj hij heq⟩

end Loop

/-! ## The whole call -/

section Call

variable {book book' : Orderbook} {order : Order} {market market' : PerpMarket}
  {q q' : EventQueue} {oraclePrice : I80F48} {account account' : MangoAccount} {pk : Pubkey}
  {nowTs limit : Nat} {posted : Option Key}

/-- Posting the rest of the order pushes no fills. -/
theorem Remainder.outs {m : PerpMarketIndex} {st : MatchState} {oracle priceLots : Int}
    {orderId : Key} (h : Remainder book order m st oracle priceLots orderId account pk nowTs posted
      book' q' account') : st.eventQueue.Outs q' := by
  cases h with
  | unposted => exact .refl _
  | posted _ _ hroom _ => exact makeRoom_outs hroom

/-- The fills of a call come from the best price to the worst, and at the same
    price in the order in which the makers placed their orders. -/
theorem newOrder_best_first (hwf : book.WellFormed)
    (h : book.newOrder order market q oraclePrice account pk nowTs limit =
      .ok (posted, book', market', q', account')) :
    ∃ pushed, q'.events = q.events ++ pushed ∧ FillsInPriority order.side.invertSide pushed := by
  obtain ⟨r⟩ := newOrder_run h
  obtain ⟨outs, houts, honly⟩ := r.remainder.outs
  obtain ⟨it, hnew, hloop⟩ := of_bind r.match_eq
  obtain ⟨hits, hsub, hprog, -⟩ := matchItems_spec _ (matchLoop_produced hloop)
  -- the hits are in the order of the iteration
  have hsorted := (produced_ranked (hwf _).1 hnew _).sublist hsub
  rw [(hwf _).2, pairwise_map] at hsorted
  rw [houts, hprog.events, append_assoc]
  refine ⟨_, rfl, pairwise_append.mpr ⟨?_, ?_, ?_⟩⟩
  · refine pairwise_iff_getElem.mpr fun i j hi hj hij f f' hf hf' => ?_
    rw [getElem_mapIdx] at hf hf'
    rw [length_mapIdx] at hi hj
    exact Hit.event_before (pairwise_iff_getElem.mp hsorted i j hi hj hij) hf hf'
  · refine pairwise_of_forall_mem_list fun e he e' _ f f' hf _ => ?_
    obtain ⟨out, rfl⟩ := honly e he
    cases hf
  · intro e _ e' he' f f' _ hf'
    obtain ⟨out, rfl⟩ := honly e' he'
    cases hf'

end Call

def AnyEvent.price : AnyEvent → Int
  | .fill f => f.price
  | _ => 0

/-- Bids at 20 and at 30, the better one placed last. -/
def twoBidBook : Orderbook where
  bids := run BookSide.exec (.zeroed .bids)
    [.insertLeaf .fixed (.plain .bid 20 1 1 1), .insertLeaf .fixed (.plain .bid 30 1 1 2)]
  asks := .zeroed .asks

theorem twoBidBook_wellFormed : twoBidBook.WellFormed := by
  intro side
  cases side with
  | bid => exact ⟨(run_keeps_wellFormed .bids _).1, rfl⟩
  | ask => exact ⟨wellFormed_zeroed .asks, rfl⟩

theorem twoBids_best_first : ∃ posted book' market' q' account',
    twoBidBook.newOrder (.plain .ask ⟨10, by decide⟩ 2 100) (.plain 0) .zeroed (.ofSmall 20)
      (.plain 0) 2 0 10 = .ok (posted, book', market', q', account') ∧
    q'.events.map AnyEvent.price = [30, 20] ∧
    ∃ pushed, q'.events = EventQueue.zeroed.events ++ pushed ∧ FillsInPriority .bid pushed := by
  have hrun : (twoBidBook.newOrder (.plain .ask ⟨10, by decide⟩ 2 100) (.plain 0) .zeroed
      (.ofSmall 20) (.plain 0) 2 0 10).toOption.any
        (fun r => decide (r.2.2.2.1.events.map AnyEvent.price = [30, 20])) = true := by
    decide +kernel
  obtain ⟨⟨posted, book', market', q', account'⟩, h, hprices⟩ := exists_of_any hrun
  exact ⟨posted, book', market', q', account', h, of_decide_eq_true hprices,
    newOrder_best_first twoBidBook_wellFormed h⟩

end MangoV4
