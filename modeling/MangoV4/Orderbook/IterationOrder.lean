/-
  MangoV4.Orderbook.IterationOrder

  The order in which a book-side iterator produces the orders.

  Whatever calls of `next` have produced before the iterator ends or panics is
  an initial segment of the merged list of fixed and pegged items (`visible`),
  which is sorted by rank.  A rank is the current price followed by the
  ordering number of the key, so prices get worse along the iteration and
  equal prices come in order of placement.
-/

import MangoV4.Orderbook.Crossing

namespace MangoV4

open Lib Lib.Exec Lib.CritBit BookSideIter

namespace BookSideIter

variable {side : Side}

/-! ## What the calls of `next` produce -/

/-- The items that up to `n` calls of `next` produce; the calls stop at the end
    of the iteration or at a panic. -/
def produced (t : OrderTreeNodes) : Nat → BookSideIter → List BookSideIterItem
  | 0, _ => []
  | n + 1, it =>
    match it.next t with
    | .ok (some item, it) => item :: produced t n it
    | .ok (none, _) => []
    | .error _ => []

/-- Only visible items are produced, in their order. -/
theorem produced_initial {t : OrderTreeNodes} {orderTreeType : OrderTreeType} (n : Nat) :
    ∀ {it : BookSideIter} {fixed pegged : List LeafCell}, Holds t it fixed pegged →
      it.fixedIter.left = decide (orderTreeType = .bids) →
      (pegged.Pairwise fun x y => OrderTreeIter.KeyOrder orderTreeType x.2.key y.2.key) →
      produced t n it <+: visible orderTreeType.side it.nowTs it.oraclePriceLots fixed pegged := by
  induction n with
  | zero =>
    intro it fixed pegged _ _ _
    exact List.nil_prefix
  | succ n ih =>
    intro it fixed pegged hit hleft hsorted
    have hside : it.fixedIter.side = orderTreeType.side := by
      unfold OrderTreeIter.side
      rw [hleft]
      cases orderTreeType <;> rfl
    rw [produced]
    rcases next_eq hit with ⟨f, hrun, -⟩ |
      ⟨item, it', fixed', pegged', hrun, hlist, hit', hleft', hnow, horacle⟩
    · rw [hrun]
      exact List.nil_prefix
    -- the call returned, so it took the first visible item
    rw [hside] at hlist
    obtain ⟨fixed₁, pegged₁, hlist₁, htail, -, hsub⟩ := yieldsHead_of_ok rfl hsorted ⟨_, hlist⟩
    rw [hlist] at hlist₁
    obtain ⟨rfl, rfl, rfl⟩ := ok_inj₃ hlist₁
    rw [hrun]
    have hrest := ih hit' (hleft'.trans hleft) (hsorted.sublist hsub)
    rw [hnow, horacle, htail] at hrest
    cases hv : visible orderTreeType.side it.nowTs it.oraclePriceLots fixed pegged with
    | nil => exact List.nil_prefix
    | cons i items =>
      rw [hv] at hrest
      exact (List.prefix_cons_inj i).mpr hrest

/-! ## Ranks, prices and ordering numbers -/

/-- A rank is the price followed by the lower half of the key. -/
theorem rankKey_toNat {i : BookSideIterItem} (h : PriceInRank i) :
    ((rankKey i).toNat : Int) = i.priceLots * 2 ^ 64 + (i.node.key.toNat % 2 ^ 64 : Nat) := by
  have hprice := toNat_ofInt64 h.1 h.2
  have hkey : (rankKey i).toNat = (BitVec.ofInt 64 i.priceLots).toNat * 2 ^ 64 +
      i.node.key.toNat % 2 ^ 64 := fixedPriceKey_toNat ..
  rw [hkey]
  push_cast
  rw [hprice]

theorem ranksBefore_iff {a b : BookSideIterItem} :
    ranksBefore side a b = true ↔ match side with
      | .bid => (rankKey b).toNat ≤ (rankKey a).toNat
      | .ask => (rankKey a).toNat ≤ (rankKey b).toNat := by
  unfold ranksBefore
  cases side with
  | bid => simp [isBetterKey, BitVec.lt_def]
  | ask => simp [isBetterKey, BitVec.lt_def]

/-- An item that ranks later has no better price. -/
theorem not_isPriceBetter_of_ranksBefore {a b : BookSideIterItem} (ha : PriceInRank a)
    (hb : PriceInRank b) (h : ranksBefore side a b = true) :
    side.isPriceBetter b.priceLots a.priceLots = false := by
  have hka := rankKey_toNat ha
  have hkb := rankKey_toNat hb
  rw [ranksBefore_iff] at h
  cases side with
  | bid =>
    refine decide_eq_false fun hlt => ?_
    omega
  | ask =>
    refine decide_eq_false fun hlt => ?_
    omega

/-- Of two items at one price, the one that ranks later was not placed earlier. -/
theorem seqNum_le_of_ranksBefore {a b : BookSideIterItem} (ha : PriceInRank a)
    (hb : PriceInRank b) (h : ranksBefore side a b = true) (hprice : a.priceLots = b.priceLots)
    {da db sa sb : BitVec 64} (hka : a.node.key = newNodeKey side da sa)
    (hkb : b.node.key = newNodeKey side db sb) : sa ≤ sb := by
  have hra := rankKey_toNat ha
  have hrb := rankKey_toNat hb
  have hla := newNodeKey_low side da sa
  have hlb := newNodeKey_low side db sb
  rw [← hka] at hla
  rw [← hkb] at hlb
  rw [hla, hprice] at hra
  rw [hlb] at hrb
  rw [ranksBefore_iff] at h
  rw [BitVec.le_def]
  cases side with
  | bid =>
    simp only [seqPart] at h hra hrb
    omega
  | ask =>
    simp only [seqPart] at h hra hrb
    omega

end BookSideIter

namespace BookSide

/-- Along the items that an iterator produces, prices get worse from best to
    worst and equal prices come in order of placement, whichever tree the
    orders are in.  No order comes twice, and once a taker's limit price is
    passed no later item is matchable. -/
theorem iter_ordered {b : BookSide} (hwf : b.WellFormed) (nowTs : Nat) (oraclePriceLots : Int) :
    ∃ it, b.iterAllIncludingInvalid nowTs oraclePriceLots = .ok it ∧ ∀ n,
      ((it.produced b.nodes n).Pairwise fun i j =>
        b.side.isPriceBetter j.priceLots i.priceLots = false) ∧
      ((it.produced b.nodes n).Pairwise fun i j => i.priceLots = j.priceLots →
        ∀ di dj si sj, i.node.key = newNodeKey b.side di si →
          j.node.key = newNodeKey b.side dj sj → si ≤ sj) ∧
      ((it.produced b.nodes n).map BookSideIterItem.id).Nodup ∧
      ∀ ctx : MatchContext, ctx.side.invertSide = b.side →
        (it.produced b.nodes n).Pairwise fun i j =>
          ctx.side.isPriceWithinLimit i.priceLots ctx.priceLots = false →
            crosses ctx j = false := by
  obtain ⟨tree, free, h⟩ := hwf
  obtain ⟨it, hnew, hit, rfl, rfl, hleft⟩ := iter_holds h nowTs oraclePriceLots
  refine ⟨it, hnew, fun n => ?_⟩
  have hinit := produced_initial n hit hleft (sorted_cells h .oraclePegged)
  have hids := (ids_visible_nodup h it.nowTs it.oraclePriceLots).sublist
    (hinit.sublist.map BookSideIterItem.id)
  have hrange : ∀ i ∈ it.produced b.nodes n, PriceInRank i :=
    fun i hi => priceInRank_of_mem_visible (hinit.subset hi)
  have hsorted := (visible_sorted it.nowTs it.oraclePriceLots
    (sorted_cells h .fixed) (sorted_cells h .oraclePegged)).sublist hinit.sublist
  refine ⟨?_, ?_, hids, ?_⟩
  · refine hsorted.imp_of_mem fun hi hj hij => ?_
    exact not_isPriceBetter_of_ranksBefore (hrange _ hi) (hrange _ hj) hij
  · refine hsorted.imp_of_mem fun hi hj hij hprice di dj si sj hki hkj => ?_
    exact seqNum_le_of_ranksBefore (hrange _ hi) (hrange _ hj) hij hprice hki hkj
  · intro ctx hside
    refine hsorted.imp_of_mem fun {i j} hi hj hij hout => ?_
    have hctx : ctx.side = b.side.invertSide := by rw [← hside, Side.invertSide_invertSide]
    rw [crosses, Bool.and_eq_false_iff]
    refine Or.inr (Bool.eq_false_iff.mpr fun hwithin => ?_)
    rw [hctx] at hout hwithin
    -- a later item within the limit would put the earlier one within it too
    have hearlier := within_of_ranksBefore (hrange i hi) (hrange j hj) hij hwithin
    exact Bool.false_ne_true (hout.symm.trans hearlier)

/-- A pegged ask at the oracle price, a fixed ask at the price it has at an
    oracle price of 50, and a pegged ask one lot above. -/
def tiedAskOps : List Op :=
  [.insertLeaf .oraclePegged (peggedAsk 0 1),
   .insertLeaf .fixed { peggedAsk 0 2 with key := newNodeKey .ask 50 2 },
   .insertLeaf .oraclePegged (peggedAsk 1 3)]

theorem tiedAsks_ordered :
    ∃ it, (run exec (zeroed .asks) tiedAskOps).iterAllIncludingInvalid 0 50 = .ok it ∧
      (it.produced (run exec (zeroed .asks) tiedAskOps).nodes 3).Pairwise fun i j =>
        Side.isPriceBetter .ask j.priceLots i.priceLots = false := by
  obtain ⟨it, hnew, hall⟩ := iter_ordered (run_keeps_wellFormed .asks tiedAskOps).1 0 50
  exact ⟨it, hnew, (hall 3).1⟩

end BookSide

end MangoV4
