/-
  MangoV4.Orderbook.Worst

  Which order `remove_worst` takes off a full book side.

  Within one tree the worst order is at an end, and prices follow the keys, also
  where the price of a pegged order is clamped.  Between the two trees the
  ranking decides, which compares prices first and ordering numbers then.
-/

import MangoV4.Orderbook.IterationOrder

namespace MangoV4

open Lib Lib.Exec Lib.CritBit List BookSideIter OrderTreeNodes

/-! ## Prices follow keys -/

theorem oraclePeggedPrice_eq (oraclePriceLots : Int) (n : LeafNode) (side : Side) :
    (oraclePeggedPrice oraclePriceLots n side).2 = max (pegPrice oraclePriceLots n) 1 := by
  unfold oraclePeggedPrice pegPrice
  simp only
  split
  · rename_i hrange
    have hprice := (max_eq_left hrange.1).symm
    split
    · exact hprice
    · exact hprice
  · rfl

/-- In one tree, orders with higher keys have higher prices. -/
theorem restingPrice_mono (side : Side) (oraclePriceLots : Int) (c : BookSideOrderTree)
    {x y : LeafNode} (h : x.key ≤ y.key) :
    restingPrice side oraclePriceLots (c, x) ≤ restingPrice side oraclePriceLots (c, y) := by
  cases c with
  | fixed =>
    show ((x.priceData.toNat : Nat) : Int) ≤ (y.priceData.toNat : Nat)
    rw [priceData_toNat, priceData_toNat]
    exact_mod_cast Nat.div_le_div_right h
  | oraclePegged =>
    show (oraclePeggedPrice oraclePriceLots x side).2 ≤ (oraclePeggedPrice oraclePriceLots y side).2
    rw [oraclePeggedPrice_eq, oraclePeggedPrice_eq]
    rcases (show x.key.toNat ≤ y.key.toNat from h).eq_or_lt with heq | hlt
    · have hdata : x.priceData = y.priceData := by
        apply BitVec.eq_of_toNat_eq
        rw [priceData_toNat, priceData_toNat, heq]
      unfold pegPrice
      rw [hdata]
    · exact max_le_max_right 1 (pegPrice_mono oraclePriceLots hlt)

theorem Side.isPriceBetter_trans {side : Side} {p q r : Int} (hpq : side.isPriceBetter p q = false)
    (hqr : side.isPriceBetter q r = false) : side.isPriceBetter p r = false := by
  cases side with
  | bid =>
    simp only [isPriceBetter, decide_eq_false_iff_not] at *
    omega
  | ask =>
    simp only [isPriceBetter, decide_eq_false_iff_not] at *
    omega

/-! ## The end of one tree -/

/-- All keys of a tree are on one side of the key at its end. -/
theorem endLeaf_bound {s : NodeTree} (hwf : s.WF nodeKeys) (findMax : Bool) {y : LeafCell}
    (hy : y ∈ s.leaves) : if findMax then y.2.key ≤ (endLeaf findMax s).2.key
      else (endLeaf findMax s).2.key ≤ y.2.key := by
  have hsorted : s.leaves.Pairwise fun x y => x.2.key < y.2.key :=
    pairwise_map.mp hwf.keys_pairwise
  have hend := endLeaf_eq findMax s
  cases findMax with
  | false =>
    obtain ⟨rest, hrest⟩ := head?_eq_some_iff.mp hend
    rw [hrest] at hsorted hy
    rcases mem_cons.mp hy with rfl | hy
    · exact BitVec.le_refl _
    · exact BitVec.le_of_lt (rel_of_pairwise_cons hsorted hy)
  | true =>
    obtain ⟨rest, hrest⟩ := getLast?_eq_some_iff.mp hend
    rw [hrest] at hsorted hy
    rcases mem_append.mp hy with hy | hy
    · exact BitVec.le_of_lt
        ((pairwise_append.mp hsorted).2.2 _ hy _ (mem_singleton_self _))
    · rw [mem_singleton.mp hy]
      exact BitVec.le_refl _

namespace BookSide

variable {b b' : BookSide} {tree : BookSideOrderTree → Option NodeTree} {free : List NodeHandle}
  {oraclePriceLots : Int}

/-- No order of a tree has a worse price than the one at its end. -/
theorem worstLeaf_price (h : Layout b tree free) {c : BookSideOrderTree} {x : LeafCell}
    (hx : (tree c).map b.worstLeaf = some x) {y : LeafNode} (hy : y ∈ optOrders (tree c)) :
    b.side.isPriceBetter (restingPrice b.side oraclePriceLots (c, x.2))
      (restingPrice b.side oraclePriceLots (c, y)) = false := by
  have hheld := h.held c
  obtain ⟨s, hs, rfl⟩ := Option.map_eq_some_iff.mp hx
  rw [hs] at hheld hy
  obtain ⟨y, hmem, rfl⟩ := mem_map.mp hy
  have hbound := endLeaf_bound hheld.2.2.2 (decide (b.nodes.orderTreeType = .asks)) hmem
  unfold worstLeaf BookSide.side
  cases htype : b.nodes.orderTreeType with
  | bids =>
    rw [htype] at hbound
    exact decide_eq_false (not_lt.mpr (restingPrice_mono _ _ c hbound))
  | asks =>
    rw [htype] at hbound
    exact decide_eq_false (not_lt.mpr (restingPrice_mono _ _ c hbound))

/-! ## Between the trees -/

theorem priceInRank_itemOf (side : Side) (nowTs : Nat) (oraclePriceLots : Int)
    (x : BookSideOrderTree × LeafCell) :
    PriceInRank (itemOf side nowTs oraclePriceLots x) := by
  obtain ⟨c, x⟩ := x
  refine ⟨itemOf_price_nonneg .., ?_⟩
  cases c with
  | fixed =>
    show ((x.2.priceData.toNat : Nat) : Int) < 2 ^ 64
    omega
  | oraclePegged =>
    show (oraclePeggedPrice oraclePriceLots x.2 side).2 < 2 ^ 64
    rw [oraclePeggedPrice_eq]
    unfold pegPrice saturatingAddI64 I64_MAX I64_MIN
    omega

/-- The order that is taken ranks behind the worst order of the other tree. -/
theorem ranksBefore_of_picksWorst (nowTs : Nat) {c : BookSideOrderTree} {x w : LeafCell}
    (hpick : PicksWorst b tree oraclePriceLots x c)
    (hw : (tree c.other).map b.worstLeaf = some w) :
    ranksBefore b.side (itemOf b.side nowTs oraclePriceLots (c.other, w))
      (itemOf b.side nowTs oraclePriceLots (c, x)) = true := by
  cases c with
  | fixed =>
    have hpick : picksFixed b.side oraclePriceLots true x.2
      ((tree .oraclePegged).map b.worstLeaf) = true := hpick
    rw [show (tree .oraclePegged).map b.worstLeaf = some w from hw, picksFixed, Bool.xor_true] at hpick
    show (!isBetterKey b.side (rankKey (fixedItem nowTs x)) _) = true
    rw [rankKey_fixedItem]
    exact hpick
  | oraclePegged =>
    have hpick := hpick w hw
    rw [picksFixed, Bool.xor_true, Bool.not_eq_false'] at hpick
    show (!isBetterKey b.side _ (rankKey (fixedItem nowTs w))) = true
    rw [rankKey_fixedItem, Bool.not_eq_true']
    -- the worst fixed order is strictly better, so the pegged one is not
    cases hside : b.side with
    | bid =>
      rw [hside] at hpick
      have hlt := of_decide_eq_true hpick
      exact decide_eq_false fun hlt' => absurd (BitVec.lt_trans hlt hlt') (BitVec.lt_irrefl _)
    | ask =>
      rw [hside] at hpick
      have hlt := of_decide_eq_true hpick
      exact decide_eq_false fun hlt' => absurd (BitVec.lt_trans hlt hlt') (BitVec.lt_irrefl _)

/-- `remove_worst` takes exactly one order if there is any.  The price it reports
    is the current price of that order, and no other order has a worse one.  If
    the worst order of the other tree is at the same price, it was not placed
    later. -/
theorem removeWorst_takes_worst (hwf : b.WellFormed) {nowTs : Nat}
    {r : Option (LeafNode × Int)} (h : b.removeWorst nowTs oraclePriceLots = .ok (r, b')) :
    (r = none ∧ b' = b ∧ b.leaves = 0) ∨
    ∃ c leaf price, r = some (leaf, price) ∧ b.leaves = (c, leaf) ::ₘ b'.leaves ∧
      price = restingPrice b.side oraclePriceLots (c, leaf) ∧
      (∀ y ∈ b'.leaves,
        b.side.isPriceBetter price (restingPrice b.side oraclePriceLots y) = false) ∧
      ∀ handle w, b.nodes.findWorst (b.roots c.other) = .ok (some (handle, w)) →
        restingPrice b.side oraclePriceLots (c.other, w) = price →
        ∀ dw dx sw sx, w.key = newNodeKey b.side dw sw → leaf.key = newNodeKey b.side dx sx →
          sw ≤ sx := by
  obtain ⟨tree, free, hl⟩ := hwf
  have hout := removeWorst_outcome hl nowTs oraclePriceLots
  rw [h] at hout
  generalize hr : (Except.ok (r, b') : Exec _) = out at hout
  cases hout with
  | overflow _ => cases hr
  | price _ _ _ _ => cases hr
  | empty hempty =>
    obtain ⟨rfl, rfl⟩ := ok_inj₂ hr
    refine .inl ⟨rfl, rfl, ?_⟩
    rw [leaves_eq hl]
    simp [tagBoth, hempty, optOrders]
  | @removed c x _ s' free' hx hpick hlayout htype hperm _ =>
    obtain ⟨rfl, rfl⟩ := ok_inj₂ hr
    obtain ⟨rest, hleaves, hb'⟩ := becomes_of_removed hl hlayout htype hperm
    rw [← hb'.leaves_eq] at hleaves
    have hprice := itemOf_price b.side nowTs oraclePriceLots (c, x)
    refine .inr ⟨c, x.2, _, rfl, hleaves, hprice, fun y hy => ?_, fun handle w hw htie => ?_⟩
    · have hmem : y ∈ b.leaves := hleaves ▸ Multiset.mem_cons_of_mem hy
      obtain ⟨c', y⟩ := y
      have hy := (mem_leaves hl c' y).mp hmem
      rw [hprice]
      by_cases hc : c' = c
      · subst hc
        exact worstLeaf_price hl hx hy
      · -- the worst order of the other tree is between the two
        obtain rfl := Layout.eq_other hc
        obtain ⟨w, hw⟩ : ∃ w, (tree c.other).map b.worstLeaf = some w := by
          cases htree : tree c.other with
          | none =>
            rw [htree] at hy
            cases hy
          | some s => exact ⟨_, rfl⟩
        have hbetween := not_isPriceBetter_of_ranksBefore
          (priceInRank_itemOf ..) (priceInRank_itemOf ..)
          (ranksBefore_of_picksWorst nowTs hpick hw)
        rw [itemOf_price, itemOf_price] at hbetween
        exact Side.isPriceBetter_trans hbetween (worstLeaf_price hl hw hy)
    · rw [findWorst_eq hl] at hw
      have hranks := ranksBefore_of_picksWorst nowTs hpick (ok_inj hw)
      rw [← itemOf_price b.side nowTs oraclePriceLots (c.other, handle, w)] at htie
      intro dw dx sw sx hkw hkx
      have hnode : ∀ y : BookSideOrderTree × LeafCell,
          (itemOf b.side nowTs oraclePriceLots y).node = y.2.2 := by
        rintro ⟨c', y⟩
        cases c' <;> rfl
      exact seqNum_le_of_ranksBefore (priceInRank_itemOf ..) (priceInRank_itemOf ..)
        hranks htie ((congrArg LeafNode.key (hnode _)).trans hkw)
        ((congrArg LeafNode.key (hnode _)).trans hkx)

/-- Of a pegged and a fixed ask at 50, the one placed later goes. -/
theorem removeWorst_takes_later_ask : ∃ leaf b',
    (run exec (zeroed .asks) (tiedAskOps.take 2)).removeWorst 0 50 = .ok (some (leaf, 50), b') ∧
      leaf.key = newNodeKey .ask 50 2 ∧
      (run exec (zeroed .asks) (tiedAskOps.take 2)).leaves = (.fixed, leaf) ::ₘ b'.leaves := by
  obtain ⟨⟨r, b'⟩, hrun, hvalue⟩ := exists_of_any
    (x := (run exec (zeroed .asks) (tiedAskOps.take 2)).removeWorst 0 50)
    (p := fun r => decide (r.1.map (fun w => (w.1.key, w.2)) = some (newNodeKey .ask 50 2, 50)))
    (by decide +kernel)
  have hvalue := of_decide_eq_true hvalue
  rcases removeWorst_takes_worst (run_keeps_wellFormed .asks (tiedAskOps.take 2)).1 hrun with
    ⟨rfl, -, -⟩ | ⟨c, leaf, price, rfl, hleaves, -⟩
  · cases hvalue
  · obtain ⟨hkey, rfl⟩ := Prod.mk.inj (Option.some.inj hvalue)
    have hmem : (c, leaf) ∈ (run exec (zeroed .asks) (tiedAskOps.take 2)).leaves :=
      hleaves ▸ Multiset.mem_cons_self ..
    have hfixed : ∀ x ∈ (run exec (zeroed .asks) (tiedAskOps.take 2)).leaves,
        x.2.key = newNodeKey .ask 50 2 → x.1 = .fixed := by decide +kernel
    obtain rfl : c = .fixed := hfixed _ hmem hkey
    exact ⟨leaf, b', hrun, hkey, hleaves⟩

end BookSide

end MangoV4
