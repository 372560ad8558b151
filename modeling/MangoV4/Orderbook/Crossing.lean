/-
  MangoV4.Orderbook.Crossing

  When a posted order leaves the book crossed.

  The iterator yields the opposing orders by price, so the loop stops at the
  first one beyond the limit and everything before it has been considered.
  What can stay behind is an order the iterator lost, or one that the quote
  budget did not pay for: the budget is spent at the prices of the resting
  orders, but the remainder is posted at the limit price.  `newOrder_uncrossed_iff`
  says that these are the only ways, and `Affordable` is the exact condition on
  the budget.
-/

import MangoV4.Orderbook.Conservation

namespace MangoV4

open Lib Lib.Exec BookSideIter List BookSide OrderTreeIter BitVec Hit

namespace BookSideIter

variable {side : Side} {nowTs : Nat} {oracle : Int}

/-! ## Visible items are sorted by price -/

theorem ranksBefore_trans (side : Side) (a b c : BookSideIterItem)
    (hab : ranksBefore side a b = true) (hbc : ranksBefore side b c = true) :
    ranksBefore side a c = true := by
  unfold ranksBefore at *
  cases side with
  | bid =>
    simp only [isBetterKey, Bool.not_eq_true', decide_eq_false_iff_not, lt_def] at *
    omega
  | ask =>
    simp only [isBetterKey, Bool.not_eq_true', decide_eq_false_iff_not, lt_def] at *
    omega

theorem ranksBefore_total (side : Side) (a b : BookSideIterItem) :
    (ranksBefore side a b || ranksBefore side b a) = true := by
  unfold ranksBefore
  rw [Bool.or_eq_true]
  cases side with
  | bid =>
    simp only [isBetterKey, Bool.not_eq_true', decide_eq_false_iff_not, lt_def]
    omega
  | ask =>
    simp only [isBetterKey, Bool.not_eq_true', decide_eq_false_iff_not, lt_def]
    omega

theorem keptPegged_sublist (side : Side) (oracle : Int) (fixed pegged : List LeafCell) :
    (keptPegged side oracle fixed pegged).Sublist
      (representable oracle side pegged) := by
  unfold keptPegged
  split
  · exact nil_sublist _
  · split
    · split
      · exact nil_sublist _
      · rename_i b rest hrep
        rw [hrep]
        split
        · exact sublist_cons_self ..
        · exact (tail_sublist rest).cons_cons b
    · exact Sublist.refl _

variable {orderTreeType : OrderTreeType} {a : BookSideIterItem} {fixed pegged : List LeafCell}

/-- A strict order of keys is an order of ranks. -/
theorem ranksBefore_of_keyOrder {b : BookSideIterItem}
    (h : KeyOrder orderTreeType (rankKey a) (rankKey b)) :
    ranksBefore orderTreeType.side a b = true := by
  unfold ranksBefore
  rw [Bool.not_eq_true', Bool.eq_false_iff]
  cases orderTreeType with
  | bids =>
    have h : rankKey b < rankKey a := h
    intro hbetter
    have hbetter : rankKey a < rankKey b := of_decide_eq_true hbetter
    rw [lt_def] at *
    omega
  | asks =>
    have h : rankKey a < rankKey b := h
    intro hbetter
    have hbetter : rankKey b < rankKey a := of_decide_eq_true hbetter
    rw [lt_def] at *
    omega

theorem visible_sorted (nowTs : Nat) (oracle : Int)
    (hfixed : fixed.Pairwise fun x y => KeyOrder orderTreeType x.2.key y.2.key)
    (hpegged : pegged.Pairwise fun x y => KeyOrder orderTreeType x.2.key y.2.key) :
    (visible orderTreeType.side nowTs oracle fixed pegged).Pairwise fun a b =>
      ranksBefore orderTreeType.side a b = true := by
  apply pairwise_merge (ranksBefore_trans _) (ranksBefore_total _)
  · rw [pairwise_map]
    have hkept := (keptPegged_sublist orderTreeType.side oracle fixed pegged)
    have hsorted := (hpegged.sublist filter_sublist).sublist hkept
    have hrep : ∀ x ∈ keptPegged orderTreeType.side oracle fixed pegged,
        isSkipped oracle orderTreeType.side x = false := by
      intro x hx
      have hmem := mem_filter.mp (hkept.subset hx)
      simpa using hmem.2
    refine Pairwise.imp_of_mem ?_ hsorted
    intro x y hx hy hxy
    apply ranksBefore_of_keyOrder
    cases orderTreeType with
    | bids => exact rankKey_peggedItem_lt nowTs (hrep y hy) (hrep x hx) hxy
    | asks => exact rankKey_peggedItem_lt nowTs (hrep x hx) (hrep y hy) hxy
  · rw [pairwise_map]
    refine hfixed.imp ?_
    intro x y hxy
    apply ranksBefore_of_keyOrder
    rw [rankKey_fixedItem, rankKey_fixedItem]
    exact hxy

/-- The price of an item fits into its rank. -/
def PriceInRank (i : BookSideIterItem) : Prop := 0 ≤ i.priceLots ∧ i.priceLots < 2 ^ 64

/-- If an item is within a taker's limit, so are the items before it. -/
theorem within_of_ranksBefore {b : BookSideIterItem} (ha : PriceInRank a) (hb : PriceInRank b)
    (h : ranksBefore side a b = true) {limit : Int}
    (hwithin : side.invertSide.isPriceWithinLimit b.priceLots limit = true) :
    side.invertSide.isPriceWithinLimit a.priceLots limit = true := by
  have hpa := toNat_ofInt64 ha.1 ha.2
  have hpb := toNat_ofInt64 hb.1 hb.2
  have hka : (rankKey a).toNat = (BitVec.ofInt 64 a.priceLots).toNat * 2 ^ 64 +
      a.node.key.toNat % 2 ^ 64 := fixedPriceKey_toNat ..
  have hkb : (rankKey b).toNat = (BitVec.ofInt 64 b.priceLots).toNat * 2 ^ 64 +
      b.node.key.toNat % 2 ^ 64 := fixedPriceKey_toNat ..
  unfold ranksBefore at h
  cases side with
  | bid =>
    simp only [isBetterKey, Bool.not_eq_true', decide_eq_false_iff_not, lt_def] at h
    have hle : limit ≤ b.priceLots := of_decide_eq_true hwithin
    apply decide_eq_true
    omega
  | ask =>
    simp only [isBetterKey, Bool.not_eq_true', decide_eq_false_iff_not, lt_def] at h
    have hle : b.priceLots ≤ limit := of_decide_eq_true hwithin
    apply decide_eq_true
    omega

theorem priceInRank_of_mem_visible {i : BookSideIterItem}
    (hi : i ∈ visible side nowTs oracle fixed pegged) : PriceInRank i := by
  rcases mem_append.mp ((visible_perm side nowTs oracle fixed pegged).mem_iff.mp hi) with hi | hi
  · obtain ⟨x, hx, rfl⟩ := mem_map.mp hi
    have hlt := x.2.priceData.isLt
    refine ⟨Int.natCast_nonneg _, ?_⟩
    show ((x.2.priceData.toNat : Nat) : Int) < 2 ^ 64
    omega
  · obtain ⟨x, hx, rfl⟩ := mem_map.mp hi
    have hmem := mem_filter.mp ((keptPegged_sublist ..).subset hx)
    have hrep : isSkipped oracle side x = false := by simpa using hmem.2
    obtain ⟨-, hlo, hhi⟩ := oraclePeggedPrice_of_representable hrep
    unfold I64_MAX at hhi
    have hlt : (oraclePeggedPrice oracle x.2 side).2 < 2 ^ 64 := by omega
    exact ⟨Int.le_trans (by decide) hlo, hlt⟩

end BookSideIter

/-! ## The budget -/

/-- The order would be matched: it is valid and within the limit. -/
def crosses (ctx : MatchContext) (i : BookSideIterItem) : Bool :=
  i.isValid && ctx.side.isPriceWithinLimit i.priceLots ctx.priceLots

/-- The quote budget pays for the listed orders, one after the other.  An order
    of the taker that is cancelled instead costs nothing, but one lot of it has
    to be affordable. -/
def affordable (ctx : MatchContext) (quoteLots : Int) : List BookSideIterItem → Bool
  | [] => true
  | i :: is =>
    if ctx.selfTradeBehavior = .cancelProvide ∧ ctx.accountPk = i.node.owner then
      decide (i.priceLots ≤ quoteLots) && affordable ctx quoteLots is
    else
      decide (i.node.quantity * i.priceLots ≤ quoteLots) &&
        affordable ctx (quoteLots - i.node.quantity * i.priceLots) is

/-- What identifies an order of a book side. -/
def BookSideIterItem.id (i : BookSideIterItem) : BookSideOrderTree × Key :=
  (i.handle.orderTree, i.node.key)

/-- Items as the iterator yields them: by price, each order once, and none of
    them deleted yet. -/
structure Lineup (ctx : MatchContext) (st : MatchState) (items : List BookSideIterItem) :
    Prop where
  sorted : items.Pairwise fun a b =>
    ctx.side.isPriceWithinLimit b.priceLots ctx.priceLots = true →
      ctx.side.isPriceWithinLimit a.priceLots ctx.priceLots = true
  tradable : ∀ i ∈ items, Tradable i
  nodup : (items.map BookSideIterItem.id).Nodup
  fresh : ∀ i ∈ items, i.id ∉ st.ordersToDelete

section Budget

variable {ctx : MatchContext} {st st₁ st' : MatchState} {i : BookSideIterItem}
  {items : List BookSideIterItem}

theorem Lineup.skip (h : Lineup ctx st (i :: items)) : Lineup ctx st items where
  sorted := h.sorted.of_cons
  tradable := fun j hj => h.tradable j (mem_cons_of_mem _ hj)
  nodup := (nodup_cons.mp h.nodup).2
  fresh := fun j hj => h.fresh j (mem_cons_of_mem _ hj)

theorem Lineup.hit {taken : Option Int} (h : Lineup ctx st (i :: items))
    (hhit : st.HitBy ctx ⟨i, taken⟩ st₁) : Lineup ctx st₁ items := by
  refine ⟨h.skip.sorted, h.skip.tradable, h.skip.nodup, fun j hj hdel => ?_⟩
  rw [hhit.delete] at hdel
  rcases mem_append.mp hdel with hdel | hdel
  · exact h.skip.fresh j hj hdel
  · -- the order that was just hit is another one
    have hid : j.id = i.id := (mem_delete.mp hdel).2
    exact (nodup_cons.mp h.nodup).1 (hid ▸ mem_map_of_mem hj)

/-- The loop deletes what was to be deleted before and orders among the items. -/
theorem deletes_of_matchItems (h : matchItems ctx st items = .ok st') :
    (∀ x ∈ st.ordersToDelete, x ∈ st'.ordersToDelete) ∧
      ∀ x ∈ st'.ordersToDelete, x ∈ st.ordersToDelete ∨ x ∈ items.map BookSideIterItem.id := by
  obtain ⟨hits, hsub, hprog, -⟩ := matchItems_spec items h
  rw [hprog.delete]
  refine ⟨fun x hx => mem_append_left _ hx, fun x hx => ?_⟩
  rcases mem_append.mp hx with hx | hx
  · exact Or.inl hx
  · obtain ⟨hit, hmem, hdel⟩ := mem_flatMap.mp hx
    have hid : x = hit.item.id := (mem_delete.mp hdel).2
    exact Or.inr (hid ▸ mem_map_of_mem (hsub.subset (mem_map_of_mem hmem)))

/-- An exhausted budget stays exhausted. -/
theorem budget_of_exhausted (h : matchItems ctx st items = .ok st') (hex : st.Exhausted) :
    st'.Exhausted := by
  obtain ⟨hits, -, hprog, -, hnil, -⟩ := matchItems_spec items h
  obtain rfl := hnil hex
  have hbase := hprog.base
  have hquote := hprog.quote
  simp only [map_nil, sum_nil, Int.sub_zero] at hbase hquote
  unfold MatchState.Exhausted at *
  rw [hbase, hquote]
  exact hex

theorem tdiv_eq_zero_iff {x y : Int} (hx : 0 ≤ x) (hy : 0 < y) : x.tdiv y = 0 ↔ x < y := by
  rw [Int.tdiv_eq_ediv_of_nonneg hx]
  constructor
  · intro h
    by_contra hle
    have hone : 1 ≤ x / y := Int.le_ediv_of_mul_le hy (by omega)
    omega
  · exact Int.ediv_eq_zero_of_lt hx

variable {quote : Int}

theorem affordable_cancel (is : List BookSideIterItem)
    (hself : ctx.selfTradeBehavior = .cancelProvide) (howner : ctx.accountPk = i.node.owner)
    (hle : i.priceLots ≤ quote) : affordable ctx quote (i :: is) = affordable ctx quote is := by
  rw [affordable, if_pos ⟨hself, howner⟩, decide_eq_true hle, Bool.true_and]

/-- Orders that are not cancelled cost their full price. -/
theorem affordable_trade (is : List BookSideIterItem)
    (hself : ctx.accountPk = i.node.owner → ctx.selfTradeBehavior = .decrementTake) :
    affordable ctx quote (i :: is) = (decide (i.node.quantity * i.priceLots ≤ quote) &&
      affordable ctx (quote - i.node.quantity * i.priceLots) is) := by
  refine if_neg fun hcancel => ?_
  have hdec := hself hcancel.2
  rw [hcancel.1] at hdec
  cases hdec

theorem affordable_fill (is : List BookSideIterItem)
    (hself : ctx.accountPk = i.node.owner → ctx.selfTradeBehavior = .decrementTake)
    (hle : i.node.quantity * i.priceLots ≤ quote) :
    affordable ctx quote (i :: is) = affordable ctx (quote - i.node.quantity * i.priceLots) is := by
  rw [affordable_trade is hself, decide_eq_true hle, Bool.true_and]

theorem not_affordable_fill (is : List BookSideIterItem)
    (hself : ctx.accountPk = i.node.owner → ctx.selfTradeBehavior = .decrementTake)
    (hlt : quote < i.node.quantity * i.priceLots) : affordable ctx quote (i :: is) = false := by
  rw [affordable_trade is hself, decide_eq_false (by omega), Bool.false_and]

/-- Without the price of one lot nothing is affordable. -/
theorem not_affordable_of_lt (is : List BookSideIterItem) (hlt : quote < i.priceLots)
    (hprice : 0 < i.priceLots) (hquantity : 0 < i.node.quantity) :
    affordable ctx quote (i :: is) = false := by
  have hmul : 1 * i.priceLots ≤ i.node.quantity * i.priceLots :=
    Int.mul_le_mul_of_nonneg_right (by omega) (by omega)
  unfold affordable
  split
  · rw [decide_eq_false (by omega), Bool.false_and]
  · rw [decide_eq_false (by omega), Bool.false_and]

/-- A fill that leaves lots on the book used up one of the budgets. -/
theorem fill_partial {base price quantity : Int} (hquote : 0 ≤ quote) (hprice : 0 < price)
    (h : quantity - min (min base quantity) (quote.tdiv price) ≠ 0)
    (hopen : base - min (min base quantity) (quote.tdiv price) ≠ 0) :
    quote < quantity * price := by
  have hlt : quote.tdiv price < quantity := by omega
  rw [Int.tdiv_eq_ediv_of_nonneg hquote] at hlt
  have hquote := Int.lt_ediv_add_one_mul_self quote hprice
  have hmul : (quote / price + 1) * price ≤ quantity * price :=
    Int.mul_le_mul_of_nonneg_right (by omega) (by omega)
  omega

/-- If the loop leaves something to post, it has deleted every order it should
    have matched exactly when the budget pays for all of them. -/
theorem deleted_iff_affordable (items : List BookSideIterItem) :
    ∀ {st st' : MatchState}, matchItems ctx st items = .ok st' → Lineup ctx st items →
      0 ≤ st.remainingBaseLots → 0 ≤ st.remainingQuoteLots → st'.postTarget ≠ none →
      ¬ st'.Exhausted →
      ((∀ i ∈ items, crosses ctx i = true → i.id ∈ st'.ordersToDelete) ↔
        affordable ctx st.remainingQuoteLots (items.filter (crosses ctx)) = true) := by
  induction items with
  | nil =>
    intro st st' h _ _ _ _ _
    exact ⟨fun _ => rfl, fun _ i hi => by cases hi⟩
  | cons i items ih =>
    intro st st' h hline hbase hquote hpost hopen
    obtain ⟨hprice0, hquantity⟩ := hline.tradable i (mem_cons_self ..)
    obtain ⟨r, hstep, h⟩ := of_bind h
    have hout := matchStep_outcome hstep
    generalize hr : r = r' at hout
    cases hout with
    | exhausted hex =>
      subst hr
      obtain rfl := ok_inj h
      exact absurd hex hopen
    | unposted =>
      subst hr
      obtain rfl := ok_inj h
      exact absurd rfl hpost
    | ignored hinvalid _ =>
      subst hr
      have hcross : crosses ctx i = false := by simp [crosses, hinvalid]
      rw [filter_cons_of_neg (by simp [hcross]), forall_mem_cons,
        ih h hline.skip hbase hquote hpost hopen]
      simp [hcross]
    | dropped hinvalid _ hhit =>
      subst hr
      have hcross : crosses ctx i = false := by simp [crosses, hinvalid]
      rw [filter_cons_of_neg (by simp [hcross]), forall_mem_cons, ← hhit.quote_none,
        ih h (hline.hit hhit) (hhit.base_none ▸ hbase) (hhit.quote_none ▸ hquote) hpost hopen]
      simp [hcross]
    | beyondLimit hprice =>
      -- the later items are beyond the limit too
      have hnone : ∀ j ∈ i :: items, crosses ctx j = false := by
        intro j hj
        have hfar : ctx.side.isPriceWithinLimit j.priceLots ctx.priceLots = false := by
          rcases mem_cons.mp hj with rfl | hj
          · exact hprice
          · by_contra hnear
            have hi := (pairwise_cons.mp hline.sorted).1 j hj (by simpa using hnear)
            rw [hprice] at hi
            cases hi
        simp [crosses, hfar]
      have hfilter : (i :: items).filter (crosses ctx) = [] :=
        filter_eq_nil_iff.mpr fun j hj => by simp [hnone j hj]
      rw [hfilter]
      exact ⟨fun _ => rfl, fun _ j hj hcross => by rw [hnone j hj] at hcross; cases hcross⟩
    | quoteSpent hvalid hprice hne hspent =>
      subst hr
      obtain rfl := ok_inj h
      have hcross : crosses ctx i = true := by simp [crosses, hvalid, hprice]
      have hlt := (tdiv_eq_zero_iff hquote (by omega)).mp hspent
      rw [filter_cons_of_pos hcross]
      constructor
      · intro hall
        exact absurd (hall i (mem_cons_self ..) hcross)
          (hline.fresh i (mem_cons_self ..))
      · intro hafford
        rw [not_affordable_of_lt _ hlt (by omega) hquantity] at hafford
        cases hafford
    | cancelled hreach howner hself hhit =>
      subst hr
      have hcross : crosses ctx i = true := by simp [crosses, hreach.valid, hreach.within]
      have hle : i.priceLots ≤ st.remainingQuoteLots := by
        have hiff := tdiv_eq_zero_iff hquote (show 0 < i.priceLots by
          have hne := hreach.price
          omega)
        by_contra hlt
        exact hreach.quote (hiff.mpr (by omega))
      have hdeleted := (deletes_of_matchItems h).1 i.id (by
        rw [hhit.delete]
        exact mem_append_right _ (mem_singleton.mpr rfl))
      rw [filter_cons_of_pos hcross, affordable_cancel _ hself howner hle,
        forall_mem_cons, ← hhit.quote_none,
        ih h (hline.hit hhit) (hhit.base_none ▸ hbase) (hhit.quote_none ▸ hquote) hpost hopen]
      exact and_iff_right fun _ => hdeleted
    | @filled st₁ lots hreach hself hlots hhit hquote' =>
      subst hr
      have hcross : crosses ctx i = true := by simp [crosses, hreach.valid, hreach.within]
      have hprice : 0 < i.priceLots := by
        have hne := hreach.price
        omega
      have hne := hreach.open_
      unfold MatchState.Exhausted at hne
      obtain ⟨-, hbase₁, -⟩ := fill_sound (show 0 < st.remainingBaseLots by omega)
        (show 0 < st.remainingQuoteLots by omega) hprice hquantity hreach.quote hlots
      have hrest := ih h (hline.hit hhit) (by rw [hhit.base]; exact hbase₁) hquote' hpost hopen
      have hquote₁ : st₁.remainingQuoteLots = st.remainingQuoteLots - lots * i.priceLots :=
        hhit.quote
      rw [filter_cons_of_pos hcross, forall_mem_cons, hrest]
      have hdelete : delete ⟨i, some lots⟩ =
          if i.node.quantity - lots = 0 then [i.id] else [] := rfl
      by_cases hleft : i.node.quantity - lots = 0
      · -- the whole order has been filled
        have hdeleted := (deletes_of_matchItems h).1 i.id (by
          rw [hhit.delete, hdelete, if_pos hleft]
          exact mem_append_right _ (mem_singleton.mpr rfl))
        have hall : lots = i.node.quantity := by omega
        rw [hquote₁, hall, affordable_fill _ hself (by rw [hquote₁, hall] at hquote'; omega)]
        exact and_iff_right fun _ => hdeleted
      · -- lots stay on the book
        have hopen₁ : ¬ st₁.Exhausted := fun hex => hopen (budget_of_exhausted h hex)
        unfold MatchState.Exhausted at hopen₁
        rw [hhit.base] at hopen₁
        have hopen₁ : st.remainingBaseLots - lots ≠ 0 := fun hzero => hopen₁ (Or.inl hzero)
        have hlt : st.remainingQuoteLots < i.node.quantity * i.priceLots := by
          rw [hlots] at hleft hopen₁
          exact fill_partial hquote hprice hleft hopen₁
        rw [not_affordable_fill _ hself hlt]
        refine iff_of_false (fun hall => ?_) (by simp)
        have hmem := hall.1 hcross
        rcases (deletes_of_matchItems h).2 i.id hmem with hold | hnew
        · rw [hhit.delete, hdelete, if_neg hleft, append_nil] at hold
          exact hline.fresh i (mem_cons_self ..) hold
        · exact (nodup_cons.mp hline.nodup).1 hnew

end Budget

/-! ## The items of a book side -/

/-- The order an item stands for. -/
def BookSideIterItem.order (i : BookSideIterItem) : BookSideOrderTree × LeafNode :=
  (i.handle.orderTree, i.node)

/-- The iterator yields items of different leaves. -/
theorem BookSideIter.cells_visible_le (side : Side) (nowTs : Nat) (oracle : Int)
    (fixed pegged : List LeafCell) :
    ((visible side nowTs oracle fixed pegged).map BookSideIterItem.cell : Multiset _) ≤
      tagLists fixed pegged := by
  have hperm := (visible_perm side nowTs oracle fixed pegged).map BookSideIterItem.cell
  have hcells : (fixed.map (fixedItem nowTs) ++ (keptPegged side oracle fixed pegged).map
      (peggedItem side nowTs oracle)).map BookSideIterItem.cell =
      fixed.map (Prod.mk .fixed) ++
        (keptPegged side oracle fixed pegged).map (Prod.mk .oraclePegged) := by
    rw [map_append, map_map, map_map]
    rfl
  rw [hcells] at hperm
  rw [Multiset.coe_eq_coe.mpr hperm, ← Multiset.coe_add]
  exact tagLists_le (Sublist.refl _)
    ((keptPegged_sublist ..).trans filter_sublist)

section Side

variable {b : BookSide} {tree : BookSideOrderTree → Option NodeTree} {free : List NodeHandle}
  {nowTs : Nat} {oracle : Int}

/-- A visible item is what its leaf looks like. -/
theorem BookSideIter.eq_itemOf_of_mem_visible {side : Side} {fixed pegged : List LeafCell}
    {i : BookSideIterItem} (hi : i ∈ visible side nowTs oracle fixed pegged) :
    i = itemOf side nowTs oracle i.cell := by
  rcases mem_append.mp ((visible_perm side nowTs oracle fixed pegged).mem_iff.mp hi)
    with hi | hi
  · obtain ⟨x, -, rfl⟩ := mem_map.mp hi
    rfl
  · obtain ⟨x, -, rfl⟩ := mem_map.mp hi
    rfl

/-- Different items are of different orders on the book. -/
theorem BookSide.orders_visible (h : Layout b tree free) (nowTs : Nat)
    (oracle : Int) :
    ((visible b.side nowTs oracle (b.cells tree .fixed)
      (b.cells tree .oraclePegged)).map BookSideIterItem.order : Multiset _) ≤ b.leaves := by
  have hle := cells_visible_le b.side nowTs oracle (b.cells tree .fixed)
    (b.cells tree .oraclePegged)
  rw [← taggedCells_eq h] at hle
  have hmap := Multiset.map_le_map (f := Prod.map id Prod.snd) hle
  rw [Multiset.map_coe, map_map] at hmap
  exact hmap

/-- No order is visible twice. -/
theorem BookSide.ids_visible_nodup (h : Layout b tree free) (nowTs : Nat)
    (oracle : Int) :
    ((visible b.side nowTs oracle (b.cells tree .fixed)
      (b.cells tree .oraclePegged)).map BookSideIterItem.id).Nodup := by
  have hle := orders_visible h nowTs oracle
  have hmem : ∀ i ∈ visible b.side nowTs oracle (b.cells tree .fixed)
      (b.cells tree .oraclePegged), i.order ∈ b.leaves :=
    fun i hi => Multiset.mem_of_le hle (Multiset.mem_coe.mpr (mem_map_of_mem hi))
  have hnodup : ((visible b.side nowTs oracle (b.cells tree .fixed)
      (b.cells tree .oraclePegged)).map BookSideIterItem.order).Nodup :=
    Multiset.coe_nodup.mp (Multiset.nodup_of_le hle (WellFormed.leaves_nodup ⟨_, _, h⟩))
  have hids := hnodup.map_on (f := fun x : BookSideOrderTree × LeafNode => (x.1, x.2.key)) (by
    intro x hx y hy hxy
    obtain ⟨i, hi, rfl⟩ := mem_map.mp hx
    obtain ⟨j, hj, rfl⟩ := mem_map.mp hy
    obtain ⟨htree, hkey⟩ := Prod.mk.inj hxy
    have hj' := hmem j hj
    rw [← Prod.mk.eta (p := j.order), ← htree] at hj'
    exact Prod.ext htree (WellFormed.eq_of_key ⟨_, _, h⟩ (hmem i hi) hj' hkey))
  rw [map_map] at hids
  exact hids

/-- The visible items of a side are lined up for a taker on the other side. -/
theorem BookSide.lineup_visible (h : Layout b tree free)
    (hpos : ∀ x ∈ b.leaves, 0 < x.2.quantity) (nowTs : Nat) (oracle : Int)
    {ctx : MatchContext} (hside : ctx.side.invertSide = b.side) {st : MatchState} (hst : st.ordersToDelete = []) :
    Lineup ctx st (visible b.side nowTs oracle (b.cells tree .fixed)
      (b.cells tree .oraclePegged)) := by
  have hle := orders_visible h nowTs oracle
  have hmem : ∀ i ∈ visible b.side nowTs oracle (b.cells tree .fixed)
      (b.cells tree .oraclePegged), i.order ∈ b.leaves :=
    fun i hi => Multiset.mem_of_le hle (Multiset.mem_coe.mpr (mem_map_of_mem hi))
  refine ⟨?_, ?_, ?_, ?_⟩
  · have hsorted := visible_sorted nowTs oracle
      (sorted_cells h .fixed) (sorted_cells h .oraclePegged)
    refine Pairwise.imp_of_mem ?_ hsorted
    intro x y hx hy hxy hwithin
    have hside' : ctx.side = b.side.invertSide := by rw [← hside, Side.invertSide_invertSide]
    rw [hside'] at hwithin ⊢
    exact within_of_ranksBefore (priceInRank_of_mem_visible hx)
      (priceInRank_of_mem_visible hy) hxy hwithin
  · intro i hi
    refine ⟨(priceInRank_of_mem_visible hi).1, hpos _ (hmem i hi)⟩
  · exact ids_visible_nodup h nowTs oracle
  · intro i _ hdel
    rw [hst] at hdel
    cases hdel

/-- On a readable side, matching handles the visible items. -/
theorem matchOrder_visible (h : Layout b tree free) (hread : b.Readable)
    (ctx : MatchContext) (oracle : Int) (st : MatchState) :
    matchOrder b ctx oracle st = matchItems ctx st (visible b.side ctx.nowTs
      oracle (b.cells tree .fixed) (b.cells tree .oraclePegged)) := by
  obtain ⟨it, hnew, hit⟩ := iter_yields h hread ctx.nowTs oracle
  unfold matchOrder
  rw [hnew, ok_bind]
  exact matchLoop_visible _ _ it st hit (length_visible_lt h ctx.nowTs oracle)

end Side

/-! ## Crossed books -/

/-- A resting order on the other side of a taker that is valid and within the
    taker's price. -/
def Crosses (side : Side) (nowTs : Nat) (oraclePriceLots priceLots : Int)
    (x : BookSideOrderTree × LeafNode) : Prop :=
  restingValid side.invertSide nowTs oraclePriceLots x = true ∧
    side.isPriceWithinLimit (restingPrice side.invertSide oraclePriceLots x) priceLots = true

/-- Whether an order crosses does not depend on its quantity. -/
theorem crosses_quantity {side : Side} {nowTs : Nat} {oracle priceLots : Int}
    (c : BookSideOrderTree) (o : LeafNode) (quantity : Int) :
    Crosses side nowTs oracle priceLots (c, { o with quantity }) ↔
      Crosses side nowTs oracle priceLots (c, o) := by
  cases c <;> rfl

/-- Of a leaf, its item crosses when its order does. -/
theorem crosses_itemOf (ctx : MatchContext) (oracle : Int)
    (x : BookSideOrderTree × LeafCell) :
    crosses ctx (itemOf ctx.side.invertSide ctx.nowTs oracle x) = true ↔
      Crosses ctx.side ctx.nowTs oracle ctx.priceLots (x.1, x.2.2) := by
  unfold crosses Crosses
  rw [Bool.and_eq_true, itemOf_isValid, itemOf_price]

/-- Matching that leaves something to post has deleted all crossing orders
    exactly when the iterator yields them and the budget pays for them. -/
theorem matchOrder_deletes_iff {b : BookSide} {ctx : MatchContext} {oracle : Int}
    {st st' : MatchState} (hwf : b.WellFormed) (hread : b.Readable)
    (hpos : ∀ x ∈ b.leaves, 0 < x.2.quantity) (hside : ctx.side.invertSide = b.side)
    (hst : st.ordersToDelete = []) (hbase : 0 ≤ st.remainingBaseLots)
    (hquote : 0 ≤ st.remainingQuoteLots) (h : matchOrder b ctx oracle st = .ok st')
    (hpost : st'.postTarget ≠ none) (hopen : ¬ st'.Exhausted) :
    ∃ items, b.iterAll ctx.nowTs oracle = .ok items ∧
      ((∀ x ∈ b.leaves, Crosses ctx.side ctx.nowTs oracle ctx.priceLots x →
          (x.1, x.2.key) ∈ st'.ordersToDelete) ↔
        (∀ x ∈ b.leaves, Crosses ctx.side ctx.nowTs oracle ctx.priceLots x →
          x ∈ items.map BookSideIterItem.order) ∧
        affordable ctx st.remainingQuoteLots (items.filter (crosses ctx)) = true) := by
  obtain ⟨tree, free, hl⟩ := hwf
  refine ⟨_, iterAll_eq hl hread ctx.nowTs oracle, ?_⟩
  have hle := orders_visible hl ctx.nowTs oracle
  have hline := lineup_visible hl hpos ctx.nowTs oracle hside hst
  rw [matchOrder_visible hl hread] at h
  have hiff := deleted_iff_affordable _ h hline hbase hquote hpost hopen
  have hitem : ∀ i ∈ visible b.side ctx.nowTs oracle (b.cells tree .fixed)
      (b.cells tree .oraclePegged), i.order ∈ b.leaves ∧ (crosses ctx i = true ↔
        Crosses ctx.side ctx.nowTs oracle ctx.priceLots i.order) := by
    intro i hi
    refine ⟨Multiset.mem_of_le hle (Multiset.mem_coe.mpr (mem_map_of_mem hi)), ?_⟩
    have hcross := crosses_itemOf ctx oracle i.cell
    rw [hside, ← eq_itemOf_of_mem_visible hi] at hcross
    exact hcross
  rw [← hiff]
  constructor
  · intro hdel
    refine ⟨fun x hx hcross => ?_, fun i hi hcross => ?_⟩
    · rcases (deletes_of_matchItems h).2 _ (hdel x hx hcross) with hold | hnew
      · rw [hst] at hold
        cases hold
      · obtain ⟨i, hi, hid⟩ := mem_map.mp hnew
        obtain ⟨htree, hkey⟩ := Prod.mk.inj hid
        have hx' : (i.handle.orderTree, x.2) ∈ b.leaves := htree ▸ hx
        have hnode := WellFormed.eq_of_key ⟨_, _, hl⟩ (hitem i hi).1 hx' hkey
        exact mem_map.mpr ⟨i, hi, Prod.ext htree hnode⟩
    · exact hdel i.order (hitem i hi).1 ((hitem i hi).2.mp hcross)
  · rintro ⟨hyield, hdel⟩ x hx hcross
    obtain ⟨i, hi, rfl⟩ := mem_map.mp (hyield x hx hcross)
    exact hdel i hi ((hitem i hi).2.mpr hcross)

section Run

variable {book book' : Orderbook} {order : Order} {market market' : PerpMarket}
  {q q' : EventQueue} {oraclePrice : I80F48} {account account' : MangoAccount} {pk : Pubkey}
  {nowTs limit : Nat} {posted : Option Key}
  {r : OrderRun book book' order market market' q q' oraclePrice account account' pk nowTs
    limit posted} {hits : List Hit} {rest : Multiset (BookSideOrderTree × LeafNode)}

variable {h : Hit}

/-- A hit with the id of an order on the book is of that order. -/
theorem OrderRun.Matched.order_eq (hm : r.Matched hits rest) (hwf : book.WellFormed)
    (hmem : h ∈ hits) {x : BookSideOrderTree × LeafNode}
    (hx : x ∈ (book.bookside order.side.invertSide).leaves) (hid : (x.1, x.2.key) = h.item.id) :
    h.order = x := by
  obtain ⟨htree, hkey⟩ := Prod.mk.inj hid
  have hin : (x.1, h.item.node) ∈ (book.bookside order.side.invertSide).leaves := by
    rw [htree]
    exact hm.order_mem hmem
  exact (Prod.ext htree ((hwf order.side.invertSide).1.eq_of_key hx hin hkey)).symm

/-- A hit deletes its order exactly when it leaves nothing. -/
theorem OrderRun.Matched.deleted_iff (hm : r.Matched hits rest) (hwf : book.WellFormed) (hmem : h ∈ hits) :
    h.item.id ∈ r.st.ordersToDelete ↔ h.left = 0 := by
  have hdelete : r.st.ordersToDelete = hits.flatMap delete := hm.progress.delete
  rw [hdelete]
  constructor
  · intro hdel
    obtain ⟨h', hmem', hdel⟩ := mem_flatMap.mp hdel
    obtain ⟨hleft, hid⟩ := mem_delete.mp hdel
    -- hits of orders with the same id are the same
    have heq : h' = h := inj_on_of_nodup_map (hm.nodup hwf) hmem' hmem
      (hm.order_eq hwf hmem' (hm.order_mem hmem) hid)
    rw [← heq]
    exact hleft
  · intro hleft
    exact mem_flatMap.mpr ⟨h, hmem, mem_delete.mpr ⟨hleft, rfl⟩⟩

/-- The book is uncrossed afterwards exactly when all crossing orders have been deleted. -/
theorem OrderRun.Matched.uncrossed_iff (hm : r.Matched hits rest) (hwf : book.WellFormed) :
    (∀ x ∈ (book'.bookside order.side.invertSide).leaves,
      ¬ Crosses order.side nowTs r.oraclePriceLots r.priceLots x) ↔
    ∀ x ∈ (book.bookside order.side.invertSide).leaves,
      Crosses order.side nowTs r.oraclePriceLots r.priceLots x →
        (x.1, x.2.key) ∈ r.st.ordersToDelete := by
  constructor
  · intro hafter x hx hcross
    rw [hm.before] at hx
    rcases Multiset.mem_add.mp hx with hrest | hhit
    · refine absurd hcross (hafter x ?_)
      rw [hm.after_eq]
      exact Multiset.mem_add.mpr (Or.inl hrest)
    · obtain ⟨h, hmem, rfl⟩ := mem_map.mp (Multiset.mem_coe.mp hhit)
      refine (hm.deleted_iff hwf hmem).mpr ?_
      by_contra hleft
      exact hafter _ (hm.leftover_mem hmem hleft) ((crosses_quantity ..).mpr hcross)
  · intro hbefore x hx hcross
    rw [hm.after_eq] at hx
    rcases Multiset.mem_add.mp hx with hrest | hleft
    · -- an order that was not hit cannot have been deleted
      have hin : x ∈ (book.bookside order.side.invertSide).leaves := by
        rw [hm.before]
        exact Multiset.mem_add.mpr (Or.inl hrest)
      have hdel := hbefore x hin hcross
      rw [hm.progress.delete] at hdel
      obtain ⟨h, hmem, hdel⟩ := mem_flatMap.mp hdel
      have heq := hm.order_eq hwf hmem hin (mem_delete.mp hdel).2
      have hnodup := (hwf order.side.invertSide).1.leaves_nodup
      rw [hm.before] at hnodup
      refine Multiset.disjoint_left.mp (Multiset.nodup_add.mp hnodup).2.2 hrest ?_
      exact Multiset.mem_coe.mpr (mem_map.mpr ⟨h, hmem, heq⟩)
    · obtain ⟨h, hmem, hsome⟩ := mem_filterMap.mp (Multiset.mem_coe.mp hleft)
      unfold Hit.leftover at hsome
      split at hsome
      · cases hsome
      · rename_i hne
        obtain rfl := Option.some.inj hsome
        exact hne ((hm.deleted_iff hwf hmem).mp
          (hbefore h.order (hm.order_mem hmem) ((crosses_quantity ..).mp hcross)))

/-- A posted order leaves the book uncrossed exactly when the iterator yields
    all crossing orders and the quote budget pays for them. -/
theorem newOrder_uncrossed_iff {id : Key} (hwf : book.WellFormed)
    (hread : (book.bookside order.side.invertSide).Readable)
    (hpos : ∀ x ∈ (book.bookside order.side.invertSide).leaves, 0 < x.2.quantity)
    (h : book.newOrder order market q oraclePrice account pk nowTs limit =
      .ok (some id, book', market', q', account')) :
    ∃ oraclePriceLots priceLots priceData items,
      market.nativePriceToLot oraclePrice = .ok oraclePriceLots ∧
      order.price nowTs oraclePriceLots book = .ok (priceLots, priceData) ∧
      (book.bookside order.side.invertSide).iterAll nowTs oraclePriceLots = .ok items ∧
      (∃ x ∈ (book'.bookside order.side).leaves, x.2.key = id ∧
        restingPrice order.side oraclePriceLots x = priceLots) ∧
      ((∀ x ∈ (book'.bookside order.side.invertSide).leaves,
          ¬ Crosses order.side nowTs oraclePriceLots priceLots x) ↔
        (∀ x ∈ (book.bookside order.side.invertSide).leaves,
          Crosses order.side nowTs oraclePriceLots priceLots x →
            x ∈ items.map BookSideIterItem.order) ∧
        affordable (.of order market pk nowTs priceLots) order.maxQuoteLots
          (items.filter (crosses (.of order market pk nowTs priceLots))) = true) := by
  obtain ⟨r⟩ := Orderbook.newOrder_run h
  obtain ⟨hits, rest, hm⟩ := r.matched hwf
  obtain ⟨hwf', hside⟩ := hwf order.side.invertSide
  have hown : ((book.setBookside order.side.invertSide r.opposing).bookside
      order.side).WellFormed := by
    rw [Orderbook.bookside_setBookside_of_invert]
    exact (hwf order.side).1
  obtain ⟨c, o, ho, hkey, hid, htarget, hquantity, hopos⟩ := r.remainder.leaf hown rfl
  have hone := (Order.price_spec r.price_eq).1
  -- something is posted, so neither budget is used up
  have hquote : 0 < r.st.remainingQuoteLots := by
    by_contra hneg
    have hdiv : 0 ≤ (-r.st.remainingQuoteLots).tdiv r.priceLots :=
      Int.tdiv_nonneg (by omega) (by omega)
    rw [Int.neg_tdiv] at hdiv
    omega
  have hopen : ¬ r.st.Exhausted := by
    unfold MatchState.Exhausted
    omega
  have hbase_le := r.base_le
  have hquote_le := r.quote_le
  obtain ⟨items, hall, hiff⟩ := matchOrder_deletes_iff hwf' hread hpos hside.symm rfl
    (show 0 ≤ order.maxBaseLots by omega) (show 0 ≤ order.maxQuoteLots by omega) r.match_eq
    (by rw [htarget]; simp) hopen
  refine ⟨r.oraclePriceLots, r.priceLots, r.priceData, items, r.oracle_eq, r.price_eq, hall,
    ⟨(c, o), ho, hkey, ?_⟩, (hm.uncrossed_iff hwf).trans hiff⟩
  exact Order.restingPrice_eq r.price_eq (hm.progress.postTarget c htarget)
    (priceData_of_newNodeKey (hkey.trans hid)) order.side

end Run

/-- One bid of 1 lot at 20. -/
def oneBidBook : Orderbook where
  bids := run BookSide.exec (.zeroed .bids) [.insertLeaf .fixed (.plain .bid 20 1 1 1)]
  asks := .zeroed .asks

theorem oneBidBook_wellFormed : oneBidBook.WellFormed := by
  intro side
  cases side with
  | bid => exact ⟨(run_keeps_wellFormed .bids _).1, rfl⟩
  | ask => exact ⟨wellFormed_zeroed .asks, rfl⟩

theorem oneBidBook_readable : oneBidBook.bids.Readable := by
  have hall : ∀ x ∈ oneBidBook.bids.leaves, x.2.ExpiryFits ∧ (x.1 = .fixed → x.2.PriceFits) := by
    decide +kernel
  intro c o ho
  exact hall (c, o) (((oneBidBook_wellFormed .bid).1.isLeafOf_iff c o).mp ho)

/-- An ask of 1 lot at 10 that may receive at most 15 quote lots: one lot at 20
    is too much, one lot at 10 is not. -/
def askTen : Order := .plain .ask ⟨10, ten_fits⟩ 1 15

/-- The ask is posted at 10, below the bid at 20. -/
theorem askTen_crosses : ∃ id book' market' q' account',
    oneBidBook.newOrder askTen (.plain 0) .zeroed (.ofSmall 20) (.plain 0) 2 0 10 =
      .ok (some id, book', market', q', account') ∧
    (∃ x ∈ book'.asks.leaves, x.2.key = id ∧ restingPrice .ask 20 x = 10) ∧
    ∃ x ∈ book'.bids.leaves, restingValid .bid 0 20 x = true ∧ restingPrice .bid 20 x = 20 := by
  have hrun : (oneBidBook.newOrder askTen (.plain 0) .zeroed (.ofSmall 20) (.plain 0) 2 0
      10).toOption.any (fun r =>
        decide (r.1 = some (LeafNode.plain .ask 10 1 2 1).key) &&
        decide ((.fixed, .plain .ask 10 1 2 1) ∈ r.2.1.asks.leaves) &&
        decide ((.fixed, .plain .bid 20 1 1 1) ∈ r.2.1.bids.leaves)) = true := by decide +kernel
  obtain ⟨⟨posted, book', market', q', account'⟩, h, hcheck⟩ := exists_of_any hrun
  simp only [Bool.and_eq_true, decide_eq_true_eq] at hcheck
  obtain ⟨⟨rfl, hask⟩, hbid⟩ := hcheck
  exact ⟨_, book', market', q', account', h, ⟨_, hask, rfl, by decide +kernel⟩, _, hbid,
    by decide +kernel, by decide +kernel⟩

theorem askTen_uncrossed_iff : ∃ id book' market' q' account',
    oneBidBook.newOrder askTen (.plain 0) .zeroed (.ofSmall 20) (.plain 0) 2 0 10 =
      .ok (some id, book', market', q', account') ∧
    ∃ oraclePriceLots priceLots priceData items,
      (PerpMarket.plain 0).nativePriceToLot (.ofSmall 20) = .ok oraclePriceLots ∧
      askTen.price 0 oraclePriceLots oneBidBook = .ok (priceLots, priceData) ∧
      oneBidBook.bids.iterAll 0 oraclePriceLots = .ok items ∧
      (∃ x ∈ book'.asks.leaves, x.2.key = id ∧ restingPrice .ask oraclePriceLots x = priceLots) ∧
      ((∀ x ∈ book'.bids.leaves, ¬ Crosses .ask 0 oraclePriceLots priceLots x) ↔
        (∀ x ∈ oneBidBook.bids.leaves, Crosses .ask 0 oraclePriceLots priceLots x →
          x ∈ items.map BookSideIterItem.order) ∧
        affordable (.of askTen (.plain 0) 2 0 priceLots) 15
          (items.filter (crosses (.of askTen (.plain 0) 2 0 priceLots))) = true) := by
  have hrun : (oneBidBook.newOrder askTen (.plain 0) .zeroed (.ofSmall 20) (.plain 0) 2 0
      10).toOption.any (fun r => r.1.isSome) = true := by decide +kernel
  obtain ⟨⟨posted, book', market', q', account'⟩, h, hposted⟩ := exists_of_any hrun
  obtain ⟨id, rfl⟩ := Option.isSome_iff_exists.mp hposted
  exact ⟨id, book', market', q', account', h,
    newOrder_uncrossed_iff oneBidBook_wellFormed oneBidBook_readable (by decide +kernel) h⟩

end MangoV4
