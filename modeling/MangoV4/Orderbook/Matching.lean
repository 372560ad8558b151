/-
  MangoV4.Orderbook.Matching

  What a new order does to the opposing side of the book.

  The matching loop is first taken off the iterator: it handles a list of
  items, one step per item (`matchItems`), and the items are those of different
  leaves (`matchLoop_items`).  What a step can do is said once (`StepOutcome`);
  the whole loop then is a list of hits, each of which fills a resting order or
  drops it (`Progress`).  The changes and deletions that the loop collected
  turn the opposing orders into those the hits leave behind
  (`applyMatches_spec`).
-/

import MangoV4.Orderbook.Book

namespace MangoV4

open Lib Lib.Exec List BookSide BookSideIter

/-! ## The items of a loop -/

/-- The leaf an item stands for. -/
def BookSideIterItem.cell (item : BookSideIterItem) : BookSideOrderTree × LeafCell :=
  (item.handle.orderTree, item.handle.node, item.node)

@[simp] theorem cell_itemOf (side : Side) (nowTs : Nat) (oracle : Int)
    (x : BookSideOrderTree × LeafCell) : (itemOf side nowTs oracle x).cell = x := by
  obtain ⟨c, x⟩ := x
  cases c <;> rfl

theorem itemOf_price (side : Side) (nowTs : Nat) (oracle : Int)
    (x : BookSideOrderTree × LeafCell) :
    (itemOf side nowTs oracle x).priceLots =
      restingPrice side oracle (x.1, x.2.2) := by
  obtain ⟨c, x⟩ := x
  cases c <;> rfl

theorem itemOf_isValid (side : Side) (nowTs : Nat) (oracle : Int)
    (x : BookSideOrderTree × LeafCell) :
    (itemOf side nowTs oracle x).isValid =
      restingValid side nowTs oracle (x.1, x.2.2) := by
  obtain ⟨c, x⟩ := x
  cases c with
  | fixed =>
    show decide ((if x.2.expiredAt nowTs then OrderState.invalid else .valid) = .valid) = _
    rw [restingValid]
    cases x.2.expiredAt nowTs <;> rfl
  | oraclePegged =>
    show decide ((if x.2.expiredAt nowTs then OrderState.invalid
      else (oraclePeggedPrice oracle x.2 side).1) = .valid) = _
    rw [restingValid]
    cases x.2.expiredAt nowTs <;> simp

/-- Prices of resting orders are not negative. -/
theorem itemOf_price_nonneg (side : Side) (nowTs : Nat) (oracle : Int)
    (x : BookSideOrderTree × LeafCell) : 0 ≤ (itemOf side nowTs oracle x).priceLots := by
  obtain ⟨c, x⟩ := x
  cases c with
  | fixed => exact Int.natCast_nonneg _
  | oraclePegged =>
    have h := one_le_oraclePeggedPrice oracle x.2 side
    show 0 ≤ (oraclePeggedPrice oracle x.2 side).2
    omega

/-- The leaves an iterator has left. -/
def tagLists (fixed pegged : List LeafCell) : Multiset (BookSideOrderTree × LeafCell) :=
  (fixed : Multiset LeafCell).map (Prod.mk .fixed) +
    (pegged : Multiset LeafCell).map (Prod.mk .oraclePegged)

theorem tagLists_le {fixed fixed' pegged pegged' : List LeafCell} (hf : fixed'.Sublist fixed)
    (hp : pegged'.Sublist pegged) : tagLists fixed' pegged' ≤ tagLists fixed pegged :=
  add_le_add (Multiset.map_le_map (Multiset.coe_le.mpr hf.subperm))
    (Multiset.map_le_map (Multiset.coe_le.mpr hp.subperm))

theorem tagLists_fixed (f : LeafCell) (fixed pegged : List LeafCell) :
    tagLists (f :: fixed) pegged = (.fixed, f) ::ₘ tagLists fixed pegged := by
  unfold tagLists
  rw [← Multiset.cons_coe, Multiset.map_cons, Multiset.cons_add]

theorem tagLists_pegged (o : LeafCell) (fixed pegged : List LeafCell) :
    tagLists fixed (o :: pegged) = (.oraclePegged, o) ::ₘ tagLists fixed pegged := by
  unfold tagLists
  rw [← Multiset.cons_coe, Multiset.map_cons, Multiset.add_cons]

namespace BookSideIter

variable {side : Side} {nowTs : Nat} {oracle : Int}

/-- The skip loop only moves forward, and the order it ends with is not ahead
    of the order after the next one. -/
theorem skipList_sublist (oracle : Int) (side : Side) (pegged : List LeafCell) :
    (skipList oracle side pegged).2.Sublist pegged ∧
    ∀ o, (skipList oracle side pegged).1 = some o →
      (o :: (skipList oracle side pegged).2.tail).Sublist pegged := by
  cases pegged with
  | nil => exact ⟨Sublist.refl _, fun o ho => by cases ho⟩
  | cons a rest =>
    have hdrop : (rest.dropWhile (isSkipped oracle side)).Sublist (a :: rest) :=
      (dropWhile_suffix _).sublist.trans (sublist_cons_self ..)
    rw [skipList]
    split
    · refine ⟨(tail_sublist _).trans hdrop, fun o ho => ?_⟩
      have hcons := eq_cons_of_mem_head? ho
      refine Sublist.trans ?_ hdrop
      rw [hcons]
      exact (tail_sublist _).cons_cons o
    · refine ⟨Sublist.refl _, fun o ho => ?_⟩
      obtain rfl := Option.some.inj ho
      exact Sublist.refl _

/-- A call yields the item of one of the leaves left. -/
theorem nextList_item {fixed pegged fixed' pegged' : List LeafCell} {item : BookSideIterItem}
    (h : nextList side nowTs oracle fixed pegged = .ok (some item, fixed', pegged')) :
    ∃ x, item = itemOf side nowTs oracle x ∧
      x ::ₘ tagLists fixed' pegged' ≤ tagLists fixed pegged := by
  obtain ⟨hsub, hpeek⟩ := skipList_sublist oracle side pegged
  unfold nextList at h
  generalize skipList oracle side pegged = skipped at h hsub hpeek
  obtain ⟨oPeek, left⟩ := skipped
  obtain ⟨r, hrank, h⟩ := of_bind h
  have hout := rankOrders_outcome side fixed.head? oPeek false nowTs oracle
  rw [hrank] at hout
  generalize hr : (Except.ok r : Exec _) = out at hout
  cases hout with
  | none _ _ =>
    obtain rfl := ok_inj hr
    cases h
  | overflow _ _ => cases hr
  | price _ _ _ _ => cases hr
  | fixed hf _ _ _ =>
    obtain rfl := ok_inj hr
    obtain ⟨hitem, hpair⟩ := ok_inj₂ h
    obtain ⟨rfl, rfl⟩ := Prod.mk.inj hpair
    refine ⟨(.fixed, _), (Option.some.inj hitem).symm, ?_⟩
    rw [← tagLists_fixed, ← eq_cons_of_mem_head? hf]
    exact tagLists_le (Sublist.refl _) hsub
  | pegged ho _ _ =>
    obtain rfl := ok_inj hr
    obtain ⟨hitem, hpair⟩ := ok_inj₂ h
    obtain ⟨rfl, rfl⟩ := Prod.mk.inj hpair
    refine ⟨(.oraclePegged, _), (Option.some.inj hitem).symm, ?_⟩
    rw [← tagLists_pegged]
    exact tagLists_le (Sublist.refl _) (hpeek _ ho)

end BookSideIter

/-- The matching loop on a list of items. -/
def matchItems (ctx : MatchContext) (st : MatchState) : List BookSideIterItem → Exec MatchState
  | [] => .ok st
  | item :: items => do
    match ← matchStep ctx st item with
    | .done st => return st
    | .yield st => matchItems ctx st items

section Loop

variable {ctx : MatchContext} {t : OrderTreeNodes}

/-- A loop that ends has handled items of different leaves. -/
theorem matchLoop_items {fuel : Nat} :
    ∀ {it : BookSideIter} {st st' : MatchState} {fixed pegged : List LeafCell},
      Holds t it fixed pegged → matchLoop t ctx fuel it st = .ok st' →
      ∃ xs : List (BookSideOrderTree × LeafCell), (xs : Multiset _) ≤ tagLists fixed pegged ∧
        matchItems ctx st (xs.map (itemOf it.fixedIter.side it.nowTs it.oraclePriceLots)) =
          .ok st' := by
  induction fuel with
  | zero =>
    intro it st st' fixed pegged _ h
    cases h
  | succ fuel ih =>
    intro it st st' fixed pegged hit h
    obtain ⟨⟨item, it'⟩, hnext, h⟩ := of_bind h
    rcases next_eq hit with ⟨f, hfail, -⟩ |
      ⟨item₁, it₁, fixed', pegged', hrun, hlist, hit', hleft, hnow, horacle⟩
    · rw [hfail] at hnext
      cases hnext
    · rw [hrun] at hnext
      obtain ⟨rfl, rfl⟩ := ok_inj₂ hnext
      cases item₁ with
      | none =>
        obtain rfl := ok_inj h
        exact ⟨[], Multiset.zero_le _, rfl⟩
      | some item =>
        obtain ⟨x, rfl, hx⟩ := nextList_item hlist
        obtain ⟨r, hstep, h⟩ := of_bind h
        cases r with
        | done st₁ =>
          obtain rfl := ok_inj h
          refine ⟨[x], le_trans (Multiset.cons_le_cons x (Multiset.zero_le _)) hx, ?_⟩
          simp only [map_cons, matchItems, hstep, ok_bind]
          rfl
        | yield st₁ =>
          obtain ⟨xs, hxs, hitems⟩ := ih hit' h
          refine ⟨x :: xs, le_trans (Multiset.cons_le_cons x hxs) hx, ?_⟩
          have hside : it₁.fixedIter.side = it.fixedIter.side := by
            unfold OrderTreeIter.side
            rw [hleft]
          rw [hside, hnow, horacle] at hitems
          simp only [map_cons, matchItems, hstep, ok_bind]
          exact hitems

/-- On a readable side the loop handles the visible items. -/
theorem matchLoop_visible {orderTreeType : OrderTreeType} {nowTs : Nat} {oracle : Int}
    (items : List BookSideIterItem) :
    ∀ (fuel : Nat) (it : BookSideIter) (st : MatchState),
      Yields t orderTreeType nowTs oracle it items →
      items.length < fuel → matchLoop t ctx fuel it st = matchItems ctx st items := by
  induction items with
  | nil =>
    intro fuel it st hit hfuel
    obtain ⟨fuel, rfl⟩ : ∃ m, fuel = m + 1 := Nat.exists_eq_add_of_le' hfuel
    obtain ⟨it', hrun, -⟩ := hit.next
    simp only [matchLoop, hrun, ok_bind, head?_nil]
    rfl
  | cons item items ih =>
    intro fuel it st hit hfuel
    obtain ⟨fuel, rfl⟩ : ∃ m, fuel = m + 1 :=
      Nat.exists_eq_add_of_le' (Nat.le_trans (Nat.succ_pos _) hfuel)
    obtain ⟨it', hrun, hit'⟩ := hit.next
    simp only [matchLoop, hrun, ok_bind, head?_cons, matchItems]
    cases matchStep ctx st item with
    | error f => rfl
    | ok r =>
      cases r with
      | done st' => rfl
      | yield st' => exact ih fuel it' st' hit' (Nat.lt_of_succ_lt_succ hfuel)

end Loop

/-! ## One step -/

theorem divI64_eq_ok {x y z : Int} (h : divI64 x y = .ok z) : y ≠ 0 ∧ z = x.tdiv y := by
  unfold divI64 at h
  split at h
  · cases h
  · next hy => exact ⟨hy, (checkI64_eq_ok.mp h).2⟩

/-- What matching does to one resting order: it takes lots of it, or drops it. -/
structure Hit where
  item : BookSideIterItem
  taken : Option Int

namespace Hit

/-- The order that is hit. -/
def order (h : Hit) : BookSideOrderTree × LeafNode := (h.item.handle.orderTree, h.item.node)

/-- Base lots taken. -/
def base (h : Hit) : Int := h.taken.getD 0

/-- Quote lots taken. -/
def quote (h : Hit) : Int := h.base * h.item.priceLots

/-- Lots that stay on the book. -/
def left (h : Hit) : Int :=
  match h.taken with
  | none => 0
  | some lots => h.item.node.quantity - lots

def change (h : Hit) : List (BookSideOrderHandle × Int) :=
  if h.left = 0 then [] else [(h.item.handle, h.left)]

def delete (h : Hit) : List (BookSideOrderTree × Key) :=
  if h.left = 0 then [(h.item.handle.orderTree, h.item.node.key)] else []

theorem mem_delete {h : Hit} {x : BookSideOrderTree × Key} :
    x ∈ h.delete ↔ h.left = 0 ∧ x = (h.item.handle.orderTree, h.item.node.key) := by
  unfold delete
  split
  · next hleft => simp [hleft]
  · next hleft => simp [hleft]

/-- What stays of the order on the book. -/
def leftover (h : Hit) : Option (BookSideOrderTree × LeafNode) :=
  if h.left = 0 then none
  else some (h.item.handle.orderTree, { h.item.node with quantity := h.left })

/-- No fees are charged on self-trades. -/
def fee (ctx : MatchContext) (h : Hit) (fee : I80F48) : I80F48 :=
  if ctx.accountPk = h.item.node.owner then .zero else fee

/-- Quote lots that the taker trades with itself. -/
def selfQuote (ctx : MatchContext) (h : Hit) : Int :=
  if ctx.accountPk = h.item.node.owner then h.quote else 0

/-- The event that tells the owner of the order. -/
def event (ctx : MatchContext) (seqNum : Nat) (h : Hit) : AnyEvent :=
  match h.taken with
  | none => .out (.fromLeafNode ctx.side.invertSide ctx.nowTs seqNum h.item.node)
  | some lots => .fill (.new ctx.side (decide (h.left = 0)) h.item.node.ownerSlot ctx.nowTs seqNum
      h.item.node.owner h.item.node.key h.item.node.clientOrderId (h.fee ctx ctx.makerFee)
      h.item.node.timestamp ctx.accountPk ctx.clientOrderId (h.fee ctx ctx.takerFee)
      h.item.priceLots lots)

end Hit

/-- The loop variables after a hit. -/
structure MatchState.HitBy (ctx : MatchContext) (st : MatchState) (h : Hit) (st' : MatchState) :
    Prop where
  events : st'.eventQueue.events = st.eventQueue.events ++ [h.event ctx st.eventQueue.seqNum]
  seqNum : st'.eventQueue.seqNum = st.eventQueue.seqNum + 1
  change : st'.ordersToChange = st.ordersToChange ++ h.change
  delete : st'.ordersToDelete = st.ordersToDelete ++ h.delete
  base : st'.remainingBaseLots = st.remainingBaseLots - h.base
  quote : st'.remainingQuoteLots = st.remainingQuoteLots - h.quote
  limit : st'.limit + h.taken.toList.length = st.limit
  postTarget : st'.postTarget = st.postTarget
  selfTraded : st'.decrementedQuoteLots = st.decrementedQuoteLots + h.selfQuote ctx

/-- Dropping an order moves no budget. -/
theorem MatchState.HitBy.base_none {ctx : MatchContext} {st st' : MatchState}
    {item : BookSideIterItem} (h : st.HitBy ctx ⟨item, none⟩ st') :
    st'.remainingBaseLots = st.remainingBaseLots := by
  rw [h.base]
  exact Int.sub_zero _

theorem MatchState.HitBy.quote_none {ctx : MatchContext} {st st' : MatchState}
    {item : BookSideIterItem} (h : st.HitBy ctx ⟨item, none⟩ st') :
    st'.remainingQuoteLots = st.remainingQuoteLots := by
  rw [h.quote, Hit.quote]
  simp [Hit.base]

theorem MatchState.dropBest_hitBy {ctx : MatchContext} {st st' : MatchState}
    {item : BookSideIterItem} (h : st.dropBest ctx item = .ok st') :
    st.HitBy ctx ⟨item, none⟩ st' := by
  obtain ⟨q, hpush, h⟩ := of_bind h
  obtain rfl := ok_inj h
  obtain ⟨hevents, hseq⟩ := EventQueue.events_pushBack hpush
  exact ⟨hevents, hseq, (append_nil _).symm, rfl, (Int.sub_zero _).symm,
    by simp [Hit.quote, Hit.base], rfl, rfl, by simp [Hit.selfQuote, Hit.quote, Hit.base]⟩

/-- A fill, after the lots that the taker trades with itself are counted. -/
theorem MatchState.fillBest_hitBy {ctx : MatchContext} {st st' : MatchState}
    {item : BookSideIterItem} {lots decrementedBaseLots decrementedQuoteLots : Int}
    {makerFee takerFee : I80F48}
    (hmaker : makerFee = Hit.fee ctx ⟨item, some lots⟩ ctx.makerFee)
    (htaker : takerFee = Hit.fee ctx ⟨item, some lots⟩ ctx.takerFee)
    (hself : decrementedQuoteLots = st.decrementedQuoteLots + Hit.selfQuote ctx ⟨item, some lots⟩)
    (h : { st with decrementedQuoteLots, decrementedBaseLots }.fillBest ctx item lots
      (lots * item.priceLots) makerFee takerFee = .ok st') :
    st.HitBy ctx ⟨item, some lots⟩ st' ∧ 0 ≤ st'.remainingQuoteLots := by
  obtain ⟨-, h⟩ := of_checkI64 h
  obtain ⟨-, h⟩ := of_checkI64 h
  obtain ⟨_, hassert, h⟩ := of_bind h
  obtain ⟨-, h⟩ := of_checkI64 h
  obtain ⟨q, hpush, h⟩ := of_bind h
  obtain ⟨limit, hlimit, h⟩ := of_bind h
  obtain ⟨hpos, rfl⟩ := subUnsigned_eq_ok.mp hlimit
  obtain rfl := ok_inj h
  obtain ⟨hevents, hseq⟩ := EventQueue.events_pushBack hpush
  refine ⟨⟨?_, hseq, ?_, ?_, rfl, rfl, Nat.sub_add_cancel hpos, rfl, hself⟩, of_assert hassert⟩
  · rw [hevents, hmaker, htaker]
    rfl
  · unfold Hit.change Hit.left
    by_cases hout : item.node.quantity - lots = 0 <;> simp [hout]
  · unfold Hit.delete Hit.left
    by_cases hout : item.node.quantity - lots = 0 <;> simp [hout]

/-- The taker's budget is used up. -/
def MatchState.Exhausted (st : MatchState) : Prop :=
  st.remainingBaseLots = 0 ∨ st.remainingQuoteLots = 0

/-- A valid order within the limit, met with something left to trade and
    enough quote lots for one lot of it. -/
structure Reached (ctx : MatchContext) (st : MatchState) (item : BookSideIterItem) : Prop where
  valid : item.isValid = true
  within : ctx.side.isPriceWithinLimit item.priceLots ctx.priceLots = true
  open_ : ¬ st.Exhausted
  price : item.priceLots ≠ 0
  quote : st.remainingQuoteLots.tdiv item.priceLots ≠ 0

/-- What a step of the loop can do. -/
inductive StepOutcome (ctx : MatchContext) (st : MatchState) (item : BookSideIterItem) :
    ForInStep MatchState → Prop
  | exhausted (h : st.Exhausted) : StepOutcome ctx st item (.done st)
  | ignored (hinvalid : item.isValid = false)
      (hdropped : DROP_EXPIRED_ORDER_LIMIT ≤ st.droppedExpired) :
      StepOutcome ctx st item (.yield st)
  | dropped {st' : MatchState} (hinvalid : item.isValid = false) (hopen : ¬ st.Exhausted)
      (hhit : st.HitBy ctx ⟨item, none⟩ st') : StepOutcome ctx st item (.yield st')
  | beyondLimit (hprice : ctx.side.isPriceWithinLimit item.priceLots ctx.priceLots = false) :
      StepOutcome ctx st item (.done st)
  /-- post-only, or the match limit is reached -/
  | unposted : StepOutcome ctx st item (.done { st with postTarget := none })
  | quoteSpent (hvalid : item.isValid = true)
      (hprice : ctx.side.isPriceWithinLimit item.priceLots ctx.priceLots = true)
      (hne : item.priceLots ≠ 0) (hspent : st.remainingQuoteLots.tdiv item.priceLots = 0) :
      StepOutcome ctx st item (.done st)
  | cancelled {st' : MatchState} (hreach : Reached ctx st item)
      (howner : ctx.accountPk = item.node.owner)
      (hself : ctx.selfTradeBehavior = .cancelProvide)
      (hhit : st.HitBy ctx ⟨item, none⟩ st') : StepOutcome ctx st item (.yield st')
  | filled {st' : MatchState} {lots : Int} (hreach : Reached ctx st item)
      (hself : ctx.accountPk = item.node.owner → ctx.selfTradeBehavior = .decrementTake)
      (hlots : lots = min (min st.remainingBaseLots item.node.quantity)
        (st.remainingQuoteLots.tdiv item.priceLots))
      (hhit : st.HitBy ctx ⟨item, some lots⟩ st') (hquote : 0 ≤ st'.remainingQuoteLots) :
      StepOutcome ctx st item (.yield st')

section Step

variable {ctx : MatchContext} {st : MatchState} {item : BookSideIterItem}

theorem matchValid_outcome {r : ForInStep MatchState} (hvalid : item.isValid = true)
    (hprice : ctx.side.isPriceWithinLimit item.priceLots ctx.priceLots = true)
    (hopen : ¬ st.Exhausted) (h : matchValid ctx st item = .ok r) : StepOutcome ctx st item r := by
  obtain ⟨byQuote, hdiv, h⟩ := of_bind h
  obtain ⟨hne, rfl⟩ := divI64_eq_ok hdiv
  split at h
  · rename_i hspent
    obtain rfl := ok_inj h
    exact .quoteSpent hvalid hprice hne hspent
  · rename_i hquote
    have hreach : Reached ctx st item := ⟨hvalid, hprice, hopen, hne, hquote⟩
    obtain ⟨-, h⟩ := of_checkI64 h
    split at h
    · rename_i howner
      split at h
      · rename_i hself
        obtain ⟨-, h⟩ := of_checkI64 h
        obtain ⟨db, -, h⟩ := of_bind h
        obtain ⟨st', hfill, h⟩ := of_bind h
        obtain rfl := ok_inj h
        obtain ⟨hhit, hnonneg⟩ := MatchState.fillBest_hitBy (if_pos howner).symm
          (if_pos howner).symm (congrArg _ (if_pos howner).symm) hfill
        exact .filled hreach (fun _ => hself) rfl hhit hnonneg
      · rename_i hself
        obtain ⟨st', hdrop, h⟩ := of_bind h
        obtain rfl := ok_inj h
        exact .cancelled hreach howner hself (MatchState.dropBest_hitBy hdrop)
      · cases h
    · rename_i howner
      obtain ⟨st', hfill, h⟩ := of_bind h
      obtain rfl := ok_inj h
      have hself : st.decrementedQuoteLots = st.decrementedQuoteLots +
          Hit.selfQuote ctx ⟨item, some (min (min st.remainingBaseLots item.node.quantity)
            (st.remainingQuoteLots.tdiv item.priceLots))⟩ := by
        rw [Hit.selfQuote, if_neg howner, Int.add_zero]
      obtain ⟨hhit, hnonneg⟩ := MatchState.fillBest_hitBy (if_neg howner).symm
        (if_neg howner).symm hself hfill
      exact .filled hreach (fun heq => absurd heq howner) rfl hhit hnonneg

theorem matchStep_outcome {r : ForInStep MatchState} (h : matchStep ctx st item = .ok r) :
    StepOutcome ctx st item r := by
  unfold matchStep at h
  split at h
  · rename_i hdone
    obtain rfl := ok_inj h
    exact .exhausted hdone
  · rename_i hopen
    split at h
    · rename_i hinvalid
      have hinvalid : item.isValid = false := by simpa using hinvalid
      split at h
      · obtain ⟨st', hdrop, h⟩ := of_bind h
        obtain rfl := ok_inj h
        have hhit := MatchState.dropBest_hitBy hdrop
        exact .dropped hinvalid hopen ⟨hhit.events, hhit.seqNum, hhit.change, hhit.delete,
          hhit.base, hhit.quote, hhit.limit, hhit.postTarget, hhit.selfTraded⟩
      · rename_i hdropped
        obtain rfl := ok_inj h
        exact .ignored hinvalid (Nat.le_of_not_lt hdropped)
    · rename_i hvalid
      have hvalid : item.isValid = true := by simpa using hvalid
      split at h
      · rename_i hprice
        obtain rfl := ok_inj h
        exact .beyondLimit (by simpa using hprice)
      · rename_i hprice
        split at h
        · obtain rfl := ok_inj h
          exact .unposted
        · split at h
          · obtain rfl := ok_inj h
            exact .unposted
          · exact matchValid_outcome hvalid (by simpa using hprice) hopen h

end Step

/-! ## The whole loop -/

/-- The loop variables after a list of hits. -/
structure Progress (ctx : MatchContext) (st : MatchState) (hits : List Hit) (st' : MatchState) :
    Prop where
  events : st'.eventQueue.events = st.eventQueue.events ++
    hits.mapIdx fun i h => h.event ctx (st.eventQueue.seqNum + i)
  seqNum : st'.eventQueue.seqNum = st.eventQueue.seqNum + hits.length
  change : st'.ordersToChange = st.ordersToChange ++ hits.flatMap Hit.change
  delete : st'.ordersToDelete = st.ordersToDelete ++ hits.flatMap Hit.delete
  base : st'.remainingBaseLots = st.remainingBaseLots - (hits.map Hit.base).sum
  quote : st'.remainingQuoteLots = st.remainingQuoteLots - (hits.map Hit.quote).sum
  limit : st'.limit + (hits.filterMap Hit.taken).length = st.limit
  postTarget : ∀ target, st'.postTarget = some target → st.postTarget = some target
  selfTraded : st'.decrementedQuoteLots =
    st.decrementedQuoteLots + (hits.map (Hit.selfQuote ctx)).sum

section Progress

variable {ctx : MatchContext} {st st₁ st' : MatchState}

theorem Progress.nil (ctx : MatchContext) (st : MatchState) : Progress ctx st [] st := by
  constructor <;> simp

/-- A change of the post target is none of the loop variables that hits move. -/
theorem Progress.unposted (ctx : MatchContext) (st : MatchState) :
    Progress ctx st [] { st with postTarget := none } := by
  constructor <;> simp

theorem Progress.cons {h : Hit} {hits : List Hit} (hhit : st.HitBy ctx h st₁)
    (hrest : Progress ctx st₁ hits st') : Progress ctx st (h :: hits) st' where
  events := by
    rw [hrest.events, hhit.events, hhit.seqNum, append_assoc, mapIdx_cons]
    simp only [singleton_append, Nat.add_zero, Nat.add_assoc, Nat.add_comm 1]
  seqNum := by
    rw [hrest.seqNum, hhit.seqNum, length_cons]
    omega
  change := by rw [hrest.change, hhit.change, append_assoc, flatMap_cons]
  delete := by rw [hrest.delete, hhit.delete, append_assoc, flatMap_cons]
  base := by
    rw [hrest.base, hhit.base, map_cons, sum_cons]
    omega
  quote := by
    rw [hrest.quote, hhit.quote, map_cons, sum_cons]
    omega
  limit := by
    have h₁ := hrest.limit
    have h₂ := hhit.limit
    cases htaken : h.taken with
    | none =>
      rw [htaken] at h₂
      rw [filterMap_cons_none htaken, h₁]
      exact h₂
    | some lots =>
      rw [htaken] at h₂
      simp only [Option.toList_some, length_singleton] at h₂
      rw [filterMap_cons_some htaken, length_cons]
      omega
  postTarget := fun target htarget => hhit.postTarget ▸ hrest.postTarget target htarget
  selfTraded := by
    rw [hrest.selfTraded, hhit.selfTraded, map_cons, sum_cons]
    omega

end Progress

/-- Fills are against valid orders within the limit; what is dropped is invalid
    or, on request, an order of the taker that would have been filled. -/
def Hit.Allowed (ctx : MatchContext) (h : Hit) : Prop :=
  match h.taken with
  | some _ => h.item.isValid = true ∧
      ctx.side.isPriceWithinLimit h.item.priceLots ctx.priceLots = true
  | none => h.item.isValid = false ∨
      (ctx.selfTradeBehavior = .cancelProvide ∧ ctx.accountPk = h.item.node.owner)

/-- A fill takes something and no more than there is. -/
def Hit.Sound (h : Hit) : Prop :=
  ∀ lots, h.taken = some lots → 0 < lots ∧ lots ≤ h.item.node.quantity

/-- A negative budget has been brought to zero, which only trades with negative
    quantities do. -/
def Overrun (st st' : MatchState) : Prop :=
  (st'.remainingBaseLots = 0 ∧ st.remainingBaseLots < 0) ∨
    (st'.remainingQuoteLots = 0 ∧ st.remainingQuoteLots < 0)

/-- With a budget that is not negative a fill is sound and leaves such a budget. -/
theorem fill_sound {base quote price quantity lots : Int} (hbase : 0 < base) (hquote : 0 < quote)
    (hprice : 0 < price) (hquantity : 0 < quantity) (hdiv : quote.tdiv price ≠ 0)
    (hlots : lots = min (min base quantity) (quote.tdiv price)) :
    (0 < lots ∧ lots ≤ quantity) ∧ 0 ≤ base - lots ∧ lots * price ≤ quote := by
  have hpos : 0 ≤ quote.tdiv price := Int.tdiv_nonneg (by omega) (by omega)
  have hmul : quote.tdiv price * price ≤ quote := by
    rw [Int.tdiv_eq_ediv_of_nonneg (by omega)]
    exact Int.ediv_mul_le quote (by omega)
  have hle : lots * price ≤ quote.tdiv price * price :=
    Int.mul_le_mul_of_nonneg_right (by omega) (by omega)
  exact ⟨by omega, by omega, by omega⟩

/-- With a negative budget a fill that leaves no negative quote budget is an
    overrun. -/
theorem fill_overrun {base quote price quantity lots : Int} (hneg : base < 0 ∨ quote < 0)
    (hbase : base ≠ 0) (hprice : 0 < price) (hquantity : 0 < quantity)
    (hdiv : quote.tdiv price ≠ 0)
    (hlots : lots = min (min base quantity) (quote.tdiv price)) (hnonneg : 0 ≤ quote - lots * price) :
    (base - lots = 0 ∧ base < 0) ∨ (quote - lots * price = 0 ∧ quote < 0) := by
  by_cases hq : quote < 0
  · have hneg : (-quote).tdiv price = -(quote.tdiv price) := Int.neg_tdiv ..
    have hpos : 0 ≤ (-quote).tdiv price := Int.tdiv_nonneg (by omega) (by omega)
    have hmul : (-quote).tdiv price * price ≤ -quote := by
      rw [Int.tdiv_eq_ediv_of_nonneg (by omega)]
      exact Int.ediv_mul_le _ (by omega)
    rw [hneg, Int.neg_mul] at hmul
    by_cases hl : lots = base
    · exact Or.inl ⟨by omega, by omega⟩
    · have hl : lots = quote.tdiv price := by omega
      subst hl
      exact Or.inr ⟨by omega, hq⟩
  · have hpos : 0 ≤ quote.tdiv price := Int.tdiv_nonneg (by omega) (by omega)
    exact Or.inl ⟨by omega, by omega⟩

/-- Prices are not negative and quantities are positive. -/
def Tradable (item : BookSideIterItem) : Prop := 0 ≤ item.priceLots ∧ 0 < item.node.quantity

/-- All fills are sound and budgets stay above zero, or a negative budget was overrun. -/
def Fair (st : MatchState) (hits : List Hit) (st' : MatchState) : Prop :=
  ((∀ h ∈ hits, h.Sound) ∧
    (0 ≤ st.remainingBaseLots → 0 ≤ st.remainingQuoteLots →
      0 ≤ st'.remainingBaseLots ∧ 0 ≤ st'.remainingQuoteLots)) ∨
  Overrun st st'

section Loop

variable {ctx : MatchContext}

theorem Fair.nil (st : MatchState) : Fair st [] st := by
  refine Or.inl ⟨?_, fun hb hq => ⟨hb, hq⟩⟩
  intro h hmem
  cases hmem

theorem Fair.drop {st st₁ st' : MatchState} {item : BookSideIterItem} {hits : List Hit}
    (hhit : st.HitBy ctx ⟨item, none⟩ st₁) (h : Fair st₁ hits st') :
    Fair st (⟨item, none⟩ :: hits) st' := by
  unfold Fair Overrun at *
  rw [hhit.base_none, hhit.quote_none] at h
  rcases h with ⟨hsound, hkeep⟩ | hover
  · refine Or.inl ⟨fun h hmem => ?_, hkeep⟩
    rcases mem_cons.mp hmem with rfl | hmem
    · intro lots hlots
      cases hlots
    · exact hsound h hmem
  · exact Or.inr hover

/-- A fill of a tradable order. -/
theorem Fair.fill {st st₁ st' : MatchState} {item : BookSideIterItem} {hits : List Hit}
    {lots : Int} (htrade : Tradable item) (hreach : Reached ctx st item)
    (hlots : lots = min (min st.remainingBaseLots item.node.quantity)
      (st.remainingQuoteLots.tdiv item.priceLots))
    (hhit : st.HitBy ctx ⟨item, some lots⟩ st₁) (hquote : 0 ≤ st₁.remainingQuoteLots)
    (hprog : Progress ctx st₁ hits st') (hstop : st₁.Exhausted → hits = [])
    (h : Fair st₁ hits st') : Fair st (⟨item, some lots⟩ :: hits) st' := by
  obtain ⟨hprice, hquantity⟩ := htrade
  have hprice : 0 < item.priceLots := by
    have hne := hreach.price
    omega
  have hne := hreach.open_
  unfold MatchState.Exhausted at hne
  have hbase₁ : st₁.remainingBaseLots = st.remainingBaseLots - lots := hhit.base
  have hquote₁ : st₁.remainingQuoteLots = st.remainingQuoteLots - lots * item.priceLots :=
    hhit.quote
  by_cases hneg : st.remainingBaseLots < 0 ∨ st.remainingQuoteLots < 0
  · -- the loop ends right after the overrun
    rw [hquote₁] at hquote
    have hover := fill_overrun hneg (by omega) hprice hquantity hreach.quote hlots hquote
    rw [← hbase₁, ← hquote₁] at hover
    obtain rfl : hits = [] := hstop (by unfold MatchState.Exhausted; omega)
    have hb := hprog.base
    have hq := hprog.quote
    simp only [map_nil, sum_nil, Int.sub_zero] at hb hq
    refine Or.inr ?_
    unfold Overrun
    rw [hb, hq]
    exact hover
  · have hsound := fill_sound (by omega) (by omega) hprice hquantity hreach.quote hlots
    rcases h with ⟨hrest, hkeep⟩ | hover
    · refine Or.inl ⟨fun h hmem => ?_, fun _ _ => hkeep (by omega) hquote⟩
      rcases mem_cons.mp hmem with rfl | hmem
      · intro lots' hlots'
        obtain rfl := Option.some.inj hlots'
        exact hsound.1
      · exact hrest h hmem
    · unfold Overrun at hover
      omega

/-- The loop is a list of hits of different items. -/
theorem matchItems_spec (items : List BookSideIterItem) :
    ∀ {st st' : MatchState}, matchItems ctx st items = .ok st' →
      ∃ hits, (hits.map Hit.item).Sublist items ∧ Progress ctx st hits st' ∧
        (∀ h ∈ hits, h.Allowed ctx) ∧ (st.Exhausted → hits = []) ∧
        ((∀ item ∈ items, Tradable item) → Fair st hits st') := by
  induction items with
  | nil =>
    intro st st' h
    obtain rfl := ok_inj h
    exact ⟨[], Sublist.refl _, .nil ctx st, by simp, fun _ => rfl, fun _ => .nil st⟩
  | cons item items ih =>
    intro st st' h
    obtain ⟨r, hstep, h⟩ := of_bind h
    have hstop : ∀ st₁, r = .done st₁ → Progress ctx st [] st₁ → Fair st [] st₁ →
        ∃ hits, (hits.map Hit.item).Sublist (item :: items) ∧ Progress ctx st hits st' ∧
          (∀ h ∈ hits, h.Allowed ctx) ∧ (st.Exhausted → hits = []) ∧
          ((∀ item' ∈ item :: items, Tradable item') → Fair st hits st') := by
      rintro st₁ rfl hprog hfair
      obtain rfl := ok_inj h
      exact ⟨[], nil_sublist _, hprog, by simp, fun _ => rfl, fun _ => hfair⟩
    -- the hits after the first item
    have hgo : ∀ st₁, r = .yield st₁ →
        ∃ hits, (hits.map Hit.item).Sublist items ∧ Progress ctx st₁ hits st' ∧
          (∀ h ∈ hits, h.Allowed ctx) ∧ (st₁.Exhausted → hits = []) ∧
          ((∀ item ∈ items, Tradable item) → Fair st₁ hits st') := by
      rintro st₁ rfl
      exact ih h
    cases matchStep_outcome hstep with
    | exhausted _ => exact hstop st rfl (.nil ctx st) (.nil st)
    | beyondLimit _ => exact hstop st rfl (.nil ctx st) (.nil st)
    | quoteSpent _ _ _ _ => exact hstop st rfl (.nil ctx st) (.nil st)
    | unposted => exact hstop _ rfl (.unposted ctx st) (.nil st)
    | ignored _ _ =>
      obtain ⟨hits, hsub, hprog, hallowed, hex, hfair⟩ := hgo st rfl
      exact ⟨hits, hsub.cons _, hprog, hallowed, hex,
        fun htrade => hfair fun i hi => htrade i (mem_cons_of_mem _ hi)⟩
    | dropped hinvalid hopen hhit =>
      obtain ⟨hits, hsub, hprog, hallowed, -, hfair⟩ := hgo _ rfl
      refine ⟨⟨item, none⟩ :: hits, hsub.cons_cons _, hprog.cons hhit, ?_, ?_, fun htrade =>
        (hfair fun i hi => htrade i (mem_cons_of_mem _ hi)).drop hhit⟩
      · exact forall_mem_cons.mpr ⟨Or.inl hinvalid, hallowed⟩
      · exact fun hex => absurd hex hopen
    | cancelled hreach howner hself hhit =>
      obtain ⟨hits, hsub, hprog, hallowed, -, hfair⟩ := hgo _ rfl
      refine ⟨⟨item, none⟩ :: hits, hsub.cons_cons _, hprog.cons hhit, ?_, ?_, fun htrade =>
        (hfair fun i hi => htrade i (mem_cons_of_mem _ hi)).drop hhit⟩
      · exact forall_mem_cons.mpr ⟨Or.inr ⟨hself, howner⟩, hallowed⟩
      · exact fun hex => absurd hex hreach.open_
    | filled hreach hself hlots hhit hquote =>
      obtain ⟨hits, hsub, hprog, hallowed, hex, hfair⟩ := hgo _ rfl
      refine ⟨⟨item, some _⟩ :: hits, hsub.cons_cons _, hprog.cons hhit, ?_, ?_, fun htrade => ?_⟩
      · exact forall_mem_cons.mpr ⟨⟨hreach.valid, hreach.within⟩, hallowed⟩
      · exact fun hex => absurd hex hreach.open_
      · exact .fill (htrade item (mem_cons_self ..)) hreach hlots hhit hquote hprog hex
          (hfair fun i hi => htrade i (mem_cons_of_mem _ hi))

end Loop

/-! ## Applying the changes -/

/-- The order between the changes and the deletions. -/
def Hit.changed (h : Hit) : LeafNode :=
  if h.left = 0 then h.item.node else { h.item.node with quantity := h.left }

theorem applyChanges_spec (hits : List Hit) :
    ∀ {b b' : BookSide} {rest : Multiset (BookSideOrderTree × LeafCell)}, b.WellFormed →
      b.taggedCells = rest + (hits.map fun h => h.item.cell : List _) →
      applyChanges b (hits.flatMap Hit.change) = .ok b' →
      b'.WellFormed ∧ b'.nodes.orderTreeType = b.nodes.orderTreeType ∧
        b'.taggedCells = rest +
          (hits.map fun h => (h.item.handle.orderTree, h.item.handle.node, h.changed) : List _) := by
  induction hits with
  | nil =>
    intro b b' rest hwf hcells h
    obtain rfl := ok_inj h
    exact ⟨hwf, rfl, hcells⟩
  | cons hit hits ih =>
    intro b b' rest hwf hcells h
    rw [map_cons, ← Multiset.cons_coe, Multiset.add_cons] at hcells
    rw [flatMap_cons] at h
    by_cases hleft : hit.left = 0
    · rw [Hit.change, if_pos hleft, nil_append] at h
      rw [← Multiset.cons_add] at hcells
      obtain ⟨hwf', htype, hcells'⟩ := ih hwf hcells h
      refine ⟨hwf', htype, ?_⟩
      rw [hcells', map_cons, ← Multiset.cons_coe, Multiset.add_cons, Multiset.cons_add,
        Hit.changed, if_pos hleft]
      rfl
    · rw [Hit.change, if_neg hleft] at h
      obtain ⟨b₁, hset, h⟩ := of_bind h
      obtain ⟨b₂, hset₂, hwf₂, htype₂, hcells₂⟩ := setQuantity_spec hwf hcells hit.left
      obtain rfl : b₂ = b₁ := ok_unique hset₂ hset
      rw [← Multiset.cons_add] at hcells₂
      obtain ⟨hwf', htype, hcells'⟩ := ih hwf₂ hcells₂ h
      refine ⟨hwf', htype.trans htype₂, ?_⟩
      rw [hcells', map_cons, ← Multiset.cons_coe, Multiset.add_cons, Multiset.cons_add,
        Hit.changed, if_neg hleft]

theorem applyDeletes_spec (hits : List Hit) :
    ∀ {b b' : BookSide} {rest : Multiset (BookSideOrderTree × LeafNode)}, b.WellFormed →
      b.leaves = rest + (hits.map fun h => (h.item.handle.orderTree, h.changed) : List _) →
      applyDeletes b (hits.flatMap Hit.delete) = .ok b' →
      b.Becomes b' (rest + (hits.filterMap Hit.leftover : List _)) := by
  induction hits with
  | nil =>
    intro b b' rest hwf hleaves h
    obtain rfl := ok_inj h
    exact ⟨hwf, rfl, hleaves⟩
  | cons hit hits ih =>
    intro b b' rest hwf hleaves h
    rw [map_cons, ← Multiset.cons_coe, Multiset.add_cons] at hleaves
    rw [flatMap_cons] at h
    by_cases hleft : hit.left = 0
    · have hnone : hit.leftover = none := if_pos hleft
      rw [Hit.delete, if_pos hleft] at h
      rw [Hit.changed, if_pos hleft] at hleaves
      obtain ⟨⟨removed, b₁⟩, hremove, h⟩ := of_bind h
      obtain ⟨_, hunwrap, h⟩ := of_bind h
      rcases removeByKey_spec hwf hremove with
        ⟨rfl, -, -⟩ | ⟨o, rest', rfl, hkey, hrest', hb₁⟩
      · cases hunwrap
      · -- the order with this key is the one that was hit
        obtain rfl : o = hit.item.node := hwf.eq_of_key
          (hrest' ▸ Multiset.mem_cons_self _ _) (hleaves ▸ Multiset.mem_cons_self _ _) hkey
        rw [hleaves] at hrest'
        obtain rfl := (Multiset.cons_inj_right _).mp hrest'
        have hb' := ih hb₁.wf hb₁.leaves_eq h
        rw [filterMap_cons_none hnone]
        exact ⟨hb'.wf, hb'.type_eq.trans hb₁.type_eq, hb'.leaves_eq⟩
    · have hsome : hit.leftover = some (hit.item.handle.orderTree, hit.changed) := by
        rw [Hit.leftover, if_neg hleft, Hit.changed, if_neg hleft]
      rw [Hit.delete, if_neg hleft, nil_append] at h
      rw [← Multiset.cons_add] at hleaves
      have hb' := ih hwf hleaves h
      refine ⟨hb'.wf, hb'.type_eq, ?_⟩
      rw [hb'.leaves_eq, filterMap_cons_some hsome, ← Multiset.cons_coe, Multiset.add_cons,
        Multiset.cons_add]

/-- The orders that were hit turn into what the hits left of them; all other
    orders stay. -/
theorem applyMatches_spec {b b₁ b₂ : BookSide} {hits : List Hit} (hwf : b.WellFormed)
    (hcells : (hits.map fun h => h.item.cell : List _) ≤ b.taggedCells)
    (hchange : applyChanges b (hits.flatMap Hit.change) = .ok b₁)
    (hdelete : applyDeletes b₁ (hits.flatMap Hit.delete) = .ok b₂) :
    ∃ rest, b.leaves = rest + (hits.map Hit.order : List _) ∧
      b.Becomes b₂ (rest + (hits.filterMap Hit.leftover : List _)) := by
  obtain ⟨rest, hrest⟩ := Multiset.le_iff_exists_add.mp hcells
  rw [add_comm] at hrest
  obtain ⟨hwf₁, htype₁, hcells₁⟩ := applyChanges_spec hits hwf hrest hchange
  have hleaves₁ : b₁.leaves = rest.map (Prod.map id Prod.snd) +
      (hits.map fun h => (h.item.handle.orderTree, h.changed) : List _) := by
    rw [leaves, hcells₁, Multiset.map_add, Multiset.map_coe, map_map]
    rfl
  have hb₂ := applyDeletes_spec hits hwf₁ hleaves₁ hdelete
  refine ⟨rest.map (Prod.map id Prod.snd), ?_, hb₂.wf, hb₂.type_eq.trans htype₁, hb₂.leaves_eq⟩
  rw [leaves, hrest, Multiset.map_add, Multiset.map_coe, map_map]
  rfl

end MangoV4
