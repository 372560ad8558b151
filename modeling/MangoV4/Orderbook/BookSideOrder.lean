/-
  MangoV4.Orderbook.BookSideOrder

  Which orders a book-side iterator yields, and in which order.

  The pegged orders left to an iterator have increasing (asks) or decreasing
  (bids) prices, so those that can be represented form one block.  When orders
  have to be skipped in front of that block, the first `next` call consumes
  one order more than it accounts for, and a representable order can be lost
  (`keptPegged`).  Apart from that the iterator is a merge of two sorted lists
  (`visible`), one element per call (`nextList_eq`).
-/

import MangoV4.Orderbook.BookSideRun
import Mathlib.Data.List.TakeWhile

namespace MangoV4

open Lib Lib.Exec Lib.CritBit BookSideIter List

/-! ## Prices of pegged orders -/

theorem oraclePeggedPriceOffset_eq (priceData : BitVec 64) :
    oraclePeggedPriceOffset priceData = (priceData.toNat : Int) - 2 ^ 63 := by
  unfold oraclePeggedPriceOffset
  rw [BitVec.toInt_eq_toNat_cond]
  rw [BitVec.toNat_sub, BitVec.toNat_ofNat]
  split <;> omega

theorem priceData_toNat (n : LeafNode) : n.priceData.toNat = n.key.toNat / 2 ^ 64 := by
  unfold LeafNode.priceData
  rw [BitVec.truncate_eq_setWidth, BitVec.toNat_setWidth, BitVec.toNat_ushiftRight,
    Nat.shiftRight_eq_div_pow]
  exact Nat.mod_eq_of_lt (by omega)

/-- The price of a pegged order before it is clamped to `1..`. -/
def pegPrice (oraclePriceLots : Int) (n : LeafNode) : Int :=
  saturatingAddI64 oraclePriceLots (oraclePeggedPriceOffset n.priceData)

/-- Higher keys have higher prices. -/
theorem pegPrice_mono (oracle : Int) {x y : LeafNode} (h : x.key < y.key) :
    pegPrice oracle x ≤ pegPrice oracle y := by
  have hdata : x.priceData.toNat ≤ y.priceData.toNat := by
    rw [priceData_toNat, priceData_toNat]
    exact Nat.div_le_div_right (Nat.le_of_lt h)
  unfold pegPrice saturatingAddI64
  rw [oraclePeggedPriceOffset_eq, oraclePeggedPriceOffset_eq]
  omega

theorem isSkipped_iff (oracle : Int) (side : Side) (o : LeafCell) :
    isSkipped oracle side o = true ↔
      ¬ (1 ≤ pegPrice oracle o.2 ∧ pegPrice oracle o.2 < I64_MAX) := by
  unfold isSkipped oraclePeggedPrice pegPrice
  simp only [decide_eq_true_eq]
  split
  · rename_i h
    constructor
    · split <;> simp
    · intro hnot
      exact absurd h hnot
  · next h => simpa using h

/-- The upper and lower half of a key. -/
theorem toNat_join (a b : BitVec 64) :
    ((a.zeroExtend 128 <<< 64) ||| b.zeroExtend 128).toNat = a.toNat * 2 ^ 64 + b.toNat := by
  have hb := b.isLt
  have ha' : a.toNat % 2 ^ 128 = a.toNat := Nat.mod_eq_of_lt (by omega)
  have hb' : b.toNat % 2 ^ 128 = b.toNat := Nat.mod_eq_of_lt (by omega)
  have hshift : (a.toNat <<< 64) % 2 ^ 128 = a.toNat <<< 64 := by
    exact Nat.mod_eq_of_lt (by omega)
  rw [BitVec.toNat_or, BitVec.toNat_shiftLeft, BitVec.zeroExtend_eq_setWidth,
    BitVec.zeroExtend_eq_setWidth, BitVec.toNat_setWidth, BitVec.toNat_setWidth, ha', hb', hshift,
    ← Nat.shiftLeft_add_eq_or_of_lt hb, Nat.shiftLeft_eq]

theorem fixedPriceKey_toNat (key : Key) (priceLots : Int) :
    (fixedPriceKey key priceLots).toNat =
      (BitVec.ofInt 64 priceLots).toNat * 2 ^ 64 + key.toNat % 2 ^ 64 := by
  unfold fixedPriceKey
  rw [toNat_join, BitVec.truncate_eq_setWidth, BitVec.toNat_setWidth]

/-- A key holds its own price data. -/
theorem fixedPriceKey_self (n : LeafNode) : fixedPriceKey n.key n.priceData.toNat = n.key := by
  apply BitVec.eq_of_toNat_eq
  rw [fixedPriceKey_toNat, BitVec.ofInt_natCast, BitVec.toNat_ofNat]
  have hlt := n.priceData.isLt
  rw [Nat.mod_eq_of_lt hlt, priceData_toNat]
  omega

/-- The price of a representable order is the sum of oracle price and offset. -/
theorem oraclePeggedPrice_of_representable {oracle : Int} {side : Side} {o : LeafCell}
    (h : isSkipped oracle side o = false) :
    (oraclePeggedPrice oracle o.2 side).2 =
      oracle + ((o.2.priceData.toNat : Int) - 2 ^ 63) ∧
    1 ≤ (oraclePeggedPrice oracle o.2 side).2 ∧
    (oraclePeggedPrice oracle o.2 side).2 < I64_MAX := by
  rw [Bool.eq_false_iff, ne_eq, isSkipped_iff, not_not] at h
  have hprice : (oraclePeggedPrice oracle o.2 side).2 = pegPrice oracle o.2 := by
    unfold oraclePeggedPrice
    simp only
    split
    · split <;> rfl
    · next hnot => exact absurd h hnot
  rw [hprice]
  refine ⟨?_, h⟩
  unfold pegPrice saturatingAddI64 at h ⊢
  rw [oraclePeggedPriceOffset_eq] at h ⊢
  simp only [I64_MAX, I64_MIN] at h ⊢
  omega

theorem toNat_ofInt64 {p : Int} (h0 : 0 ≤ p) (hlt : p < 2 ^ 64) :
    ((BitVec.ofInt 64 p).toNat : Int) = p := by
  rw [BitVec.toNat_ofInt]
  omega

namespace BookSideIter

/-- Between two representable orders there is no skipped one. -/
def Convex (oraclePriceLots : Int) (side : Side) (pegged : List LeafCell) : Prop :=
  ∀ x y z, [x, y, z].Sublist pegged → isSkipped oraclePriceLots side x = false →
    isSkipped oraclePriceLots side z = false → isSkipped oraclePriceLots side y = false

variable {l fixed pegged rest : List LeafCell} {orderTreeType : OrderTreeType}

theorem Convex.sublist {oracle : Int} {side : Side} {l' : List LeafCell}
    (h : Convex oracle side l) (hsub : l'.Sublist l) : Convex oracle side l' :=
  fun x y z hxyz => h x y z (hxyz.trans hsub)

/-- Sorted orders are convex. -/
theorem convex_of_sorted (orderTreeType : OrderTreeType) (oracle : Int) (side : Side)
    (h : l.Pairwise fun x y => OrderTreeIter.KeyOrder orderTreeType x.2.key y.2.key) :
    Convex oracle side l := by
  intro x y z hxyz hx hz
  have hsorted := h.sublist hxyz
  simp only [pairwise_cons, mem_cons, not_mem_nil, or_false, forall_eq_or_imp, forall_eq] at hsorted
  obtain ⟨⟨hxy, -⟩, hyz, -⟩ := hsorted
  rw [Bool.eq_false_iff, ne_eq, isSkipped_iff, not_not] at hx hz ⊢
  cases orderTreeType with
  | bids =>
    have h₁ := pegPrice_mono oracle hxy
    have h₂ := pegPrice_mono oracle hyz
    omega
  | asks =>
    have h₁ := pegPrice_mono oracle hxy
    have h₂ := pegPrice_mono oracle hyz
    omega

/-- The pegged orders that can be represented. -/
def representable (oraclePriceLots : Int) (side : Side) (pegged : List LeafCell) :
    List LeafCell :=
  pegged.filter fun o => !isSkipped oraclePriceLots side o

/-- Once a representable order is in front, dropping it keeps the block together:
    either the next order is representable too, or none is left. -/
theorem Convex.tail_cases {oracle : Int} {side : Side} {o : LeafCell} (h : Convex oracle side (o :: l))
    (ho : isSkipped oracle side o = false) :
    (∃ y l', l = y :: l' ∧ isSkipped oracle side y = false) ∨
      representable oracle side l = [] := by
  cases l with
  | nil => exact Or.inr rfl
  | cons y l' =>
    by_cases hy : isSkipped oracle side y = false
    · exact Or.inl ⟨y, l', rfl, hy⟩
    · refine Or.inr (filter_eq_nil_iff.mpr ?_)
      intro z hz
      rcases mem_cons.mp hz with rfl | hz
      · simpa using hy
      · intro hkeep
        refine hy (h o y z ?_ ho (by simpa using hkeep))
        exact (((singleton_sublist.mpr hz).cons_cons y).cons_cons o)

/-! ## Ranks -/

/-- The key by which items of both trees are compared. -/
def rankKey (i : BookSideIterItem) : Key := fixedPriceKey i.node.key i.priceLots

theorem rankKey_fixedItem (nowTs : Nat) (f : LeafCell) : rankKey (fixedItem nowTs f) = f.2.key :=
  fixedPriceKey_self f.2

theorem isBetterKey_trans {side : Side} {a b c : Key} (hab : isBetterKey side a b = true)
    (hbc : isBetterKey side b c = true) : isBetterKey side a c = true := by
  cases side with
  | bid =>
    simp only [isBetterKey, decide_eq_true_eq, BitVec.lt_def] at *
    omega
  | ask =>
    simp only [isBetterKey, decide_eq_true_eq, BitVec.lt_def] at *
    omega

/-- Representable orders keep the order of their keys. -/
theorem rankKey_peggedItem_lt {oracle : Int} {side : Side} (nowTs : Nat)
    {x y : LeafCell} (hx : isSkipped oracle side x = false)
    (hy : isSkipped oracle side y = false) (h : x.2.key < y.2.key) :
    rankKey (peggedItem side nowTs oracle x) <
      rankKey (peggedItem side nowTs oracle y) := by
  obtain ⟨hpx, hx1, hxm⟩ := oraclePeggedPrice_of_representable hx
  obtain ⟨hpy, hy1, hym⟩ := oraclePeggedPrice_of_representable hy
  unfold rankKey peggedItem
  simp only
  rw [BitVec.lt_def, fixedPriceKey_toNat, fixedPriceKey_toNat]
  rw [BitVec.lt_def] at h
  simp only [I64_MAX] at hxm hym
  have htx := toNat_ofInt64 (p := (oraclePeggedPrice oracle x.2 side).2) (by omega)
    (by omega)
  have hty := toNat_ofInt64 (p := (oraclePeggedPrice oracle y.2 side).2) (by omega)
    (by omega)
  have hdx := priceData_toNat x.2
  have hdy := priceData_toNat y.2
  -- equal price data: the lower halves decide; otherwise the prices do
  omega

/-- `a` is yielded before `b`, or they tie. -/
def ranksBefore (side : Side) (a b : BookSideIterItem) : Bool :=
  !isBetterKey side (rankKey b) (rankKey a)

/-! ## One call of `next` -/

variable {side : Side} {nowTs : Nat} {oracle : Int}

/-- The best fixed order ranks before the pegged order. -/
def beatenByFixed (side : Side) (oraclePriceLots : Int) (fixed : List LeafCell) (o : LeafCell) :
    Bool :=
  match fixed with
  | [] => false
  | f :: _ => fixedFirst side oraclePriceLots f.2 o.2

/-- Expiry times and fixed prices of the orders fit their types. -/
def ReadableLists (fixed pegged : List LeafCell) : Prop :=
  (∀ x ∈ fixed, x.2.ExpiryFits ∧ x.2.PriceFits) ∧ ∀ x ∈ pegged, x.2.ExpiryFits

theorem ReadableLists.sublist {fixed' pegged' : List LeafCell}
    (h : ReadableLists fixed pegged) (hf : fixed'.Sublist fixed) (hp : pegged'.Sublist pegged) :
    ReadableLists fixed' pegged' :=
  ⟨fun x hx => h.1 x (hf.subset hx), fun x hx => h.2 x (hp.subset hx)⟩

/-- The pegged order ranks first. -/
theorem nextList_pegged {o : LeafCell}
    (hok : ∃ x, nextList side nowTs oracle fixed pegged = .ok x)
    (hskip : skipList oracle side pegged = (some o, l))
    (hbeaten : beatenByFixed side oracle fixed o = false) :
    nextList side nowTs oracle fixed pegged =
      .ok (some (peggedItem side nowTs oracle o), fixed, l.tail) := by
  have hrank : rankOrders side fixed.head? (some o) false nowTs oracle =
      some <$> oraclePeggedToResult o (oraclePeggedPrice oracle o.2 side).2
        (oraclePeggedPrice oracle o.2 side).1 nowTs := by
    rw [rankOrders_eq]
    cases fixed with
    | nil => rfl
    | cons f fixed =>
      have hpick : picksFixed side oracle false f.2 (some o) = false := by
        simpa [picksFixed, beatenByFixed] using hbeaten
      simp only [head?_cons, hpick, Bool.false_eq_true, if_false]
  obtain ⟨x, hx⟩ := hok
  unfold nextList at hx ⊢
  simp only [hskip, hrank] at hx ⊢
  rcases oraclePeggedToResult_cases side o nowTs oracle with ⟨-, hrun⟩ | ⟨-, hrun⟩
  · rw [hrun] at hx
    cases hx
  · rw [hrun]
    rfl

/-- The fixed order ranks first, or there is no pegged one. -/
theorem nextList_fixed {f : LeafCell} {o : Option LeafCell}
    (hok : ∃ x, nextList side nowTs oracle (f :: fixed) pegged = .ok x)
    (hskip : skipList oracle side pegged = (o, l))
    (hfirst : ∀ x, o = some x → fixedFirst side oracle f.2 x.2 = true) :
    nextList side nowTs oracle (f :: fixed) pegged =
      .ok (some (fixedItem nowTs f), fixed, l) := by
  have hrank : rankOrders side (some f) o false nowTs oracle =
      some <$> fixedToResult f nowTs := by
    rw [rankOrders_eq]
    cases o with
    | none => rfl
    | some o =>
      have hpick : picksFixed side oracle false f.2 (some o) = true := by
        simpa [picksFixed] using hfirst o rfl
      simp only [hpick, if_true]
  obtain ⟨x, hx⟩ := hok
  unfold nextList at hx ⊢
  simp only [hskip, head?_cons, hrank] at hx ⊢
  rcases fixedToResult_cases f nowTs with ⟨-, hrun⟩ | ⟨-, -, hrun⟩ | ⟨-, -, hrun⟩
  · rw [hrun] at hx
    cases hx
  · rw [hrun] at hx
    cases hx
  · rw [hrun]
    rfl

theorem nextList_nil (hskip : skipList oracle side pegged = (none, l)) :
    nextList side nowTs oracle [] pegged = .ok (none, [], l) := by
  have hrank : rankOrders side none none false nowTs oracle = .ok none := rfl
  unfold nextList
  simp only [hskip, head?_nil, hrank, ok_bind]
  rfl

/-- Skipping over a block of orders that are not representable. -/
theorem dropWhile_eq_cons {o : LeafCell} (h : representable oracle side l = o :: rest) :
    ∃ l', l.dropWhile (isSkipped oracle side) = o :: l' ∧ (o :: l').Sublist l ∧
      isSkipped oracle side o = false ∧ representable oracle side l' = rest := by
  induction l with
  | nil => cases h
  | cons x l ih =>
    by_cases hx : isSkipped oracle side x = true
    · rw [representable, filter_cons_of_neg (by simp [hx])] at h
      obtain ⟨l', hdrop, hsub, ho, hrest⟩ := ih h
      rw [dropWhile_cons_of_pos hx]
      exact ⟨l', hdrop, hsub.cons x, ho, hrest⟩
    · rw [representable, filter_cons_of_pos (by simp [hx])] at h
      obtain ⟨rfl, hrest⟩ := cons.inj h
      rw [dropWhile_cons_of_neg hx]
      exact ⟨l, rfl, Sublist.refl _, by simpa using hx, hrest⟩

theorem dropWhile_eq_nil (h : representable oracle side l = []) :
    l.dropWhile (isSkipped oracle side) = [] := by
  rw [dropWhile_eq_nil_iff]
  intro x hx
  simpa using filter_eq_nil_iff.mp h x hx

/-! ## The orders that are yielded -/

/-- The pegged orders that are yielded.  If the best one has to be skipped,
    the first representable order or the one after it is lost. -/
def keptPegged (side : Side) (oraclePriceLots : Int) (fixed pegged : List LeafCell) :
    List LeafCell :=
  match pegged with
  | [] => []
  | o :: _ =>
    if isSkipped oraclePriceLots side o then
      match representable oraclePriceLots side pegged with
      | [] => []
      | b :: rest =>
        if beatenByFixed side oraclePriceLots fixed b then rest else b :: rest.tail
    else representable oraclePriceLots side pegged

/-- The items that are yielded, best first. -/
def visible (side : Side) (nowTs : Nat) (oraclePriceLots : Int) (fixed pegged : List LeafCell) :
    List BookSideIterItem :=
  List.merge ((keptPegged side oraclePriceLots fixed pegged).map
      (peggedItem side nowTs oraclePriceLots))
    (fixed.map (fixedItem nowTs)) (ranksBefore side)

theorem visible_perm (side : Side) (nowTs : Nat) (oracle : Int)
    (fixed pegged : List LeafCell) :
    (visible side nowTs oracle fixed pegged).Perm
      (fixed.map (fixedItem nowTs) ++
        (keptPegged side oracle fixed pegged).map (peggedItem side nowTs oracle)) :=
  (merge_perm_append _).trans perm_append_comm

theorem keptPegged_of_front (fixed : List LeafCell)
    (h : (∃ o l, pegged = o :: l ∧ isSkipped oracle side o = false) ∨
      representable oracle side pegged = []) :
    keptPegged side oracle fixed pegged = representable oracle side pegged := by
  rcases h with ⟨o, l, rfl, ho⟩ | h
  · simp only [keptPegged, ho, Bool.false_eq_true, if_false]
  · unfold keptPegged
    rw [h]
    cases pegged with
    | nil => rfl
    | cons o l => simp

theorem ranksBefore_pegged_fixed (o f : LeafCell) :
    ranksBefore side (peggedItem side nowTs oracle o) (fixedItem nowTs f) =
      !fixedFirst side oracle f.2 o.2 := by
  unfold ranksBefore
  rw [rankKey_fixedItem]
  rfl

/-- Merging when the first pegged order is not beaten. -/
theorem merge_pegged {o : LeafCell} (rest : List LeafCell)
    (h : beatenByFixed side oracle fixed o = false) :
    merge ((o :: rest).map (peggedItem side nowTs oracle))
        (fixed.map (fixedItem nowTs)) (ranksBefore side) =
      peggedItem side nowTs oracle o ::
        merge (rest.map (peggedItem side nowTs oracle))
          (fixed.map (fixedItem nowTs)) (ranksBefore side) := by
  cases fixed with
  | nil => simp
  | cons f fixed =>
    have hle : ranksBefore side (peggedItem side nowTs oracle o) (fixedItem nowTs f) =
        true := by
      rw [ranksBefore_pegged_fixed]
      simpa [beatenByFixed] using h
    simp only [map_cons, cons_merge_cons, hle, if_true]

/-- Merging when the first fixed order ranks before all pegged ones. -/
theorem merge_fixed {f : LeafCell} (fixed : List LeafCell)
    (h : ∀ x ∈ rest.head?, fixedFirst side oracle f.2 x.2 = true) :
    merge (rest.map (peggedItem side nowTs oracle))
        ((f :: fixed).map (fixedItem nowTs)) (ranksBefore side) =
      fixedItem nowTs f ::
        merge (rest.map (peggedItem side nowTs oracle))
          (fixed.map (fixedItem nowTs)) (ranksBefore side) := by
  cases rest with
  | nil => simp
  | cons o rest =>
    have hle : ranksBefore side (peggedItem side nowTs oracle o) (fixedItem nowTs f) =
        false := by
      rw [ranksBefore_pegged_fixed, h o (by simp)]
      rfl
    simp only [map_cons, cons_merge_cons, hle, Bool.false_eq_true, if_false]

/-- A call yields the first visible item and leaves the others. -/
def YieldsHead (side : Side) (nowTs : Nat) (oraclePriceLots : Int)
    (fixed pegged : List LeafCell) : Prop :=
  ∃ fixed' pegged', nextList side nowTs oraclePriceLots fixed pegged =
      .ok ((visible side nowTs oraclePriceLots fixed pegged).head?, fixed', pegged') ∧
    visible side nowTs oraclePriceLots fixed' pegged' =
      (visible side nowTs oraclePriceLots fixed pegged).tail ∧
    fixed'.Sublist fixed ∧ pegged'.Sublist pegged

/-- No pegged order is representable. -/
theorem yieldsHead_of_none (hok : ∃ x, nextList side nowTs oracle fixed pegged = .ok x)
    (hnone : representable oracle side pegged = []) :
    YieldsHead side nowTs oracle fixed pegged := by
  have hskip : skipList oracle side pegged = (none, []) := by
    cases pegged with
    | nil => rfl
    | cons o l =>
      have ho : isSkipped oracle side o = true := by
        simpa using filter_eq_nil_iff.mp hnone o (mem_cons_self ..)
      have hdrop := dropWhile_eq_nil hnone
      rw [dropWhile_cons_of_pos ho] at hdrop
      simp only [skipList, if_pos ho, hdrop, head?_nil, tail_nil]
  have hvisible : visible side nowTs oracle fixed pegged =
      fixed.map (fixedItem nowTs) := by
    rw [visible, keptPegged_of_front fixed (Or.inr hnone), hnone, map_nil, nil_merge]
  rw [YieldsHead, hvisible]
  cases fixed with
  | nil =>
    refine ⟨[], [], nextList_nil hskip, ?_, Sublist.refl _, nil_sublist _⟩
    simp [visible, keptPegged]
  | cons f fixed =>
    refine ⟨fixed, [], nextList_fixed hok hskip (by simp), ?_, sublist_cons_self .., nil_sublist _⟩
    simp [visible, keptPegged]

/-- The best pegged order is representable. -/
theorem yieldsHead_of_front {o : LeafCell}
    (hok : ∃ x, nextList side nowTs oracle fixed (o :: l) = .ok x)
    (hconvex : Convex oracle side (o :: l))
    (ho : isSkipped oracle side o = false) :
    YieldsHead side nowTs oracle fixed (o :: l) := by
  have hskip : skipList oracle side (o :: l) = (some o, o :: l) := by
    simp only [skipList, ho, Bool.false_eq_true, if_false]
  have hkept : ∀ fixed, keptPegged side oracle fixed (o :: l) =
      o :: representable oracle side l := by
    intro fixed
    rw [keptPegged_of_front fixed (Or.inl ⟨o, l, rfl, ho⟩), representable,
      filter_cons_of_pos (by simp [ho]), representable]
  have hrest : ∀ fixed, keptPegged side oracle fixed l =
      representable oracle side l :=
    fun fixed => keptPegged_of_front fixed (hconvex.tail_cases ho)
  rw [YieldsHead, visible, hkept]
  by_cases hbeaten : beatenByFixed side oracle fixed o = true
  · cases fixed with
    | nil => cases hbeaten
    | cons f fixed =>
      have hfirst : fixedFirst side oracle f.2 o.2 = true := hbeaten
      rw [merge_fixed fixed (by simpa using hfirst)]
      refine ⟨fixed, o :: l, nextList_fixed hok hskip ?_, ?_, sublist_cons_self .., Sublist.refl _⟩
      · rintro x hx
        obtain rfl := Option.some.inj hx
        exact hfirst
      · rw [visible, hkept]
        rfl
  · have hbeaten : beatenByFixed side oracle fixed o = false := by simpa using hbeaten
    rw [merge_pegged _ hbeaten]
    refine ⟨fixed, l, nextList_pegged hok hskip hbeaten, ?_, Sublist.refl _, sublist_cons_self ..⟩
    rw [visible, hrest]
    rfl

/-- Of two representable pegged orders the first one ranks first, so a fixed
    order that ranks before the first ranks before the second. -/
theorem fixedFirst_of_sublist (hside : side = orderTreeType.side)
    (hsorted : pegged.Pairwise fun x y =>
      OrderTreeIter.KeyOrder orderTreeType x.2.key y.2.key)
    {x y : LeafCell} (hsub : [x, y].Sublist pegged)
    (hx : isSkipped oracle side x = false) (hy : isSkipped oracle side y = false)
    {f : LeafNode} (hfirst : fixedFirst side oracle f x.2 = true) :
    fixedFirst side oracle f y.2 = true := by
  have hpair := hsorted.sublist hsub
  simp only [pairwise_cons, mem_cons, not_mem_nil, or_false, forall_eq] at hpair
  refine isBetterKey_trans hfirst ?_
  cases orderTreeType with
  | bids =>
    have hlt := rankKey_peggedItem_lt 0 hy hx hpair.1
    subst hside
    exact decide_eq_true hlt
  | asks =>
    have hlt := rankKey_peggedItem_lt 0 hx hy hpair.1
    subst hside
    exact decide_eq_true hlt

/-- The best pegged order has to be skipped. -/
theorem yieldsHead_of_skipped {a b : LeafCell} (hside : side = orderTreeType.side)
    (hok : ∃ x, nextList side nowTs oracle fixed (a :: l) = .ok x)
    (hsorted : (a :: l).Pairwise fun x y =>
      OrderTreeIter.KeyOrder orderTreeType x.2.key y.2.key)
    (ha : isSkipped oracle side a = true)
    (hrep : representable oracle side (a :: l) = b :: rest) :
    YieldsHead side nowTs oracle fixed (a :: l) := by
  have hconvex := convex_of_sorted orderTreeType oracle side hsorted
  obtain ⟨l', hdrop, hsub, hb, hrest⟩ := dropWhile_eq_cons hrep
  have hsubl : l'.Sublist (a :: l) := (sublist_cons_self ..).trans hsub
  have hskip : skipList oracle side (a :: l) = (some b, l') := by
    rw [dropWhile_cons_of_pos ha] at hdrop
    simp only [skipList, if_pos ha, hdrop, head?_cons, tail_cons]
  have hkept : keptPegged side oracle fixed (a :: l) =
      if beatenByFixed side oracle fixed b then rest else b :: rest.tail := by
    simp only [keptPegged, if_pos ha, hrep]
  -- what is left behind `b` is in one block
  have hl' := (hconvex.sublist hsub).tail_cases hb
  rw [YieldsHead, visible, hkept]
  by_cases hbeaten : beatenByFixed side oracle fixed b = true
  · -- a fixed order ranks before `b`, and `b` is lost
    rw [if_pos hbeaten]
    cases fixed with
    | nil => cases hbeaten
    | cons f fixed =>
      have hfirst : fixedFirst side oracle f.2 b.2 = true := hbeaten
      have hhead : ∀ x ∈ rest.head?, fixedFirst side oracle f.2 x.2 = true := by
        intro x hx
        have hxmem : x ∈ representable oracle side l' := by
          rw [hrest]
          exact mem_of_head? hx
        rw [representable, mem_filter] at hxmem
        refine fixedFirst_of_sublist hside hsorted ?_ hb (by simpa using hxmem.2) hfirst
        exact ((singleton_sublist.mpr hxmem.1).cons_cons b).trans hsub
      rw [merge_fixed fixed hhead]
      refine ⟨fixed, l', nextList_fixed hok hskip ?_, ?_, sublist_cons_self .., hsubl⟩
      · rintro x hx
        obtain rfl := Option.some.inj hx
        exact hfirst
      · rw [visible, keptPegged_of_front fixed hl', hrest]
        rfl
  · -- `b` is yielded, and the order after it is lost
    rw [if_neg hbeaten]
    have hbeaten : beatenByFixed side oracle fixed b = false := by simpa using hbeaten
    rw [merge_pegged _ hbeaten]
    refine ⟨fixed, l'.tail, nextList_pegged hok hskip hbeaten, ?_,
      Sublist.refl _, (tail_sublist l').trans hsubl⟩
    have htail : keptPegged side oracle fixed l'.tail = rest.tail := by
      rcases hl' with ⟨y, l'', rfl, hy⟩ | hnone
      · have hrest' : rest.tail = representable oracle side l'' := by
          rw [← hrest, representable, filter_cons_of_pos (by simp [hy]), tail_cons]
          rfl
        rw [tail_cons, hrest']
        exact keptPegged_of_front fixed ((hconvex.sublist hsubl).tail_cases hy)
      · have hnone' : representable oracle side l'.tail = [] := by
          rw [representable, filter_eq_nil_iff] at hnone ⊢
          exact fun x hx => hnone x (mem_of_mem_tail hx)
        rw [keptPegged_of_front fixed (Or.inr hnone'), hnone', ← hrest, hnone]
        rfl
    rw [visible, htail]
    rfl

/-- A call that returns yields the first visible item. -/
theorem yieldsHead_of_ok (hside : side = orderTreeType.side) (hsorted : pegged.Pairwise fun x y =>
      OrderTreeIter.KeyOrder orderTreeType x.2.key y.2.key)
    (hok : ∃ x, nextList side nowTs oracle fixed pegged = .ok x) :
    YieldsHead side nowTs oracle fixed pegged := by
  cases hrep : representable oracle side pegged with
  | nil => exact yieldsHead_of_none hok hrep
  | cons b rest =>
    cases pegged with
    | nil => cases hrep
    | cons o l =>
      by_cases ho : isSkipped oracle side o = true
      · exact yieldsHead_of_skipped hside hok hsorted ho hrep
      · exact yieldsHead_of_front hok
          (convex_of_sorted orderTreeType oracle side hsorted) (by simpa using ho)

theorem mem_of_skipList {o : LeafCell}
    (h : (skipList oracle side pegged).1 = some o) : o ∈ pegged := by
  cases pegged with
  | nil => cases h
  | cons x rest =>
    rw [skipList] at h
    split at h
    · have hmem := mem_of_head? h
      exact mem_cons_of_mem _ ((dropWhile_suffix _).subset hmem)
    · obtain rfl := Option.some.inj h
      exact mem_cons_self ..

/-- Ranking readable orders does not panic. -/
theorem nextList_ok (hread : ReadableLists fixed pegged) :
    ∃ x, nextList side nowTs oracle fixed pegged = .ok x := by
  have hrank := rankOrders_outcome side fixed.head? (skipList oracle side pegged).1 false
    nowTs oracle
  unfold nextList
  generalize hr : rankOrders side fixed.head? (skipList oracle side pegged).1 false
    nowTs oracle = r at hrank
  simp only [hr]
  cases hrank with
  | none hf ho => exact ⟨_, rfl⟩
  | overflow hx hbad =>
    rcases hx with hx | hx
    · exact absurd (hread.1 _ (mem_of_head? hx)).1 hbad
    · exact absurd (hread.2 _ (mem_of_skipList hx)) hbad
  | price hf _ hbad _ => exact absurd (hread.1 _ (mem_of_head? hf)).2 hbad
  | fixed _ _ _ _ => exact ⟨_, rfl⟩
  | pegged _ _ _ => exact ⟨_, rfl⟩

/-- On readable orders, `next` yields the visible items one after the other. -/
theorem nextList_eq (hside : side = orderTreeType.side) (hread : ReadableLists fixed pegged)
    (hsorted : pegged.Pairwise fun x y =>
      OrderTreeIter.KeyOrder orderTreeType x.2.key y.2.key) :
    YieldsHead side nowTs oracle fixed pegged :=
  yieldsHead_of_ok hside hsorted (nextList_ok hread)

/-- The iterator has the items left to yield. -/
structure Yields (t : OrderTreeNodes) (orderTreeType : OrderTreeType) (nowTs : Nat)
    (oraclePriceLots : Int) (it : BookSideIter) (items : List BookSideIterItem) : Prop where
  nowTs_eq : it.nowTs = nowTs
  oracle_eq : it.oraclePriceLots = oraclePriceLots
  left_eq : it.fixedIter.left = decide (orderTreeType = .bids)
  holds : ∃ fixed pegged, Holds t it fixed pegged ∧ ReadableLists fixed pegged ∧
    pegged.Pairwise (fun x y => OrderTreeIter.KeyOrder orderTreeType x.2.key y.2.key) ∧
    items = visible orderTreeType.side nowTs oraclePriceLots fixed pegged

/-- `next` yields the first item left and keeps the others. -/
theorem Yields.next {t : OrderTreeNodes} {it : BookSideIter}
    {items : List BookSideIterItem} (h : Yields t orderTreeType nowTs oracle it items) :
    ∃ it', next t it = .ok (items.head?, it') ∧
      Yields t orderTreeType nowTs oracle it' items.tail := by
  obtain ⟨hnow, horacle, hleft, fixed, pegged, hit, hread, hsorted, rfl⟩ := h
  have hside : it.fixedIter.side = orderTreeType.side := by
    unfold OrderTreeIter.side
    rw [hleft]
    cases orderTreeType <;> rfl
  have hyield : YieldsHead orderTreeType.side nowTs oracle fixed pegged :=
    nextList_eq rfl hread hsorted
  obtain ⟨fixed', pegged', hlist, htail, hfsub, hpsub⟩ := hyield
  rcases next_eq hit with ⟨f, -, hfail⟩ |
    ⟨item, it', fixed₁, pegged₁, hrun, hlist₁, hit', hleft', hnow', horacle'⟩
  · rw [hside, hnow, horacle, hlist] at hfail
    cases hfail
  · rw [hside, hnow, horacle, hlist] at hlist₁
    obtain ⟨rfl, hpair⟩ := ok_inj₂ hlist₁
    obtain ⟨rfl, rfl⟩ := Prod.mk.inj hpair
    exact ⟨it', hrun, hnow'.trans hnow, horacle'.trans horacle, hleft'.trans hleft, fixed',
      pegged', hit', hread.sublist hfsub hpsub, hsorted.sublist hpsub, htail.symm⟩

/-! ## Iterating to the end -/

/-- All items that repeated calls of `next` yield. -/
def collect (t : OrderTreeNodes) : Nat → BookSideIter → Exec (List BookSideIterItem)
  | 0, _ => diverge
  | fuel + 1, it => do
    match ← it.next t with
    | (none, _) => return []
    | (some item, it) =>
      let rest ← collect t fuel it
      return item :: rest

theorem collect_eq {t : OrderTreeNodes} (items : List BookSideIterItem) :
    ∀ (fuel : Nat) (it : BookSideIter), Yields t orderTreeType nowTs oracle it items →
      items.length < fuel → collect t fuel it = .ok items := by
  induction items with
  | nil =>
    intro fuel it hit hfuel
    obtain ⟨fuel, rfl⟩ : ∃ m, fuel = m + 1 := Nat.exists_eq_add_of_le' hfuel
    obtain ⟨it', hrun, -⟩ := hit.next
    simp only [collect, hrun, ok_bind, head?_nil]
    rfl
  | cons item items ih =>
    intro fuel it hit hfuel
    obtain ⟨fuel, rfl⟩ : ∃ m, fuel = m + 1 :=
      Nat.exists_eq_add_of_le' (Nat.le_trans (Nat.succ_pos _) hfuel)
    obtain ⟨it', hrun, hit'⟩ := hit.next
    simp only [collect, hrun, ok_bind, head?_cons]
    rw [ih fuel it' hit' (Nat.lt_of_succ_lt_succ hfuel)]
    rfl

/-- Every representable pegged order is yielded: the best pegged order is
    representable, or none is, or exactly one is and no fixed order ranks
    before it. -/
def LosesNone (side : Side) (oraclePriceLots : Int) (fixed pegged : List LeafCell) : Prop :=
  (∃ o l, pegged = o :: l ∧ isSkipped oraclePriceLots side o = false) ∨
  representable oraclePriceLots side pegged = [] ∨
  ∃ o, representable oraclePriceLots side pegged = [o] ∧
    beatenByFixed side oraclePriceLots fixed o = false

theorem keptPegged_of_losesNone (h : LosesNone side oracle fixed pegged) :
    keptPegged side oracle fixed pegged = representable oracle side pegged := by
  rcases h with hfront | hnone | ⟨o, hone, hbeaten⟩
  · exact keptPegged_of_front fixed (Or.inl hfront)
  · exact keptPegged_of_front fixed (Or.inr hnone)
  · cases pegged with
    | nil => cases hone
    | cons a l =>
      simp only [keptPegged, hone, hbeaten, Bool.false_eq_true, if_false, tail_nil, ite_self]

/-- Otherwise exactly one representable order is lost. -/
theorem keptPegged_loses_one (h : ¬ LosesNone side oracle fixed pegged) :
    ∃ o ∈ representable oracle side pegged,
      (o :: keptPegged side oracle fixed pegged).Perm
        (representable oracle side pegged) := by
  simp only [LosesNone, not_or, not_exists, not_and] at h
  obtain ⟨hfront, hnone, hone⟩ := h
  cases pegged with
  | nil => exact absurd rfl hnone
  | cons a l =>
    have ha : isSkipped oracle side a = true := by
      simpa using hfront a l rfl
    cases hrep : representable oracle side (a :: l) with
    | nil => exact absurd hrep hnone
    | cons b rest =>
      simp only [keptPegged, if_pos ha, hrep]
      by_cases hbeaten : beatenByFixed side oracle fixed b = true
      · rw [if_pos hbeaten]
        exact ⟨b, mem_cons_self .., Perm.refl _⟩
      · rw [if_neg hbeaten]
        cases rest with
        | nil => exact absurd (by simpa using hbeaten) (hone b hrep)
        | cons c rest => exact ⟨c, by simp, Perm.swap ..⟩

theorem length_keptPegged_le (side : Side) (oracle : Int)
    (fixed pegged : List LeafCell) :
    (keptPegged side oracle fixed pegged).length ≤ pegged.length := by
  have hle : (representable oracle side pegged).length ≤ pegged.length :=
    length_filter_le ..
  by_cases h : LosesNone side oracle fixed pegged
  · rw [keptPegged_of_losesNone h]
    exact hle
  · obtain ⟨o, -, hperm⟩ := keptPegged_loses_one h
    have hlen := hperm.length_eq
    rw [length_cons] at hlen
    omega

end BookSideIter

namespace BookSide

/-- Expiry times of all orders and prices of fixed orders fit their types. -/
def Readable (b : BookSide) : Prop :=
  ∀ c o, IsLeafOf b c o → o.ExpiryFits ∧ (c = .fixed → o.PriceFits)

/-- All items that a `BookSideIter` yields. -/
def iterAll (b : BookSide) (nowTs : Nat) (oraclePriceLots : Int) :
    Exec (List BookSideIterItem) := do
  let it ← b.iterAllIncludingInvalid nowTs oraclePriceLots
  it.collect b.nodes (2 * MAX_ORDERTREE_NODES)

variable {b : BookSide} {tree : BookSideOrderTree → Option NodeTree} {free : List NodeHandle}

theorem readableLists_cells (h : Layout b tree free) (hread : b.Readable) :
    ReadableLists (b.cells tree .fixed) (b.cells tree .oraclePegged) := by
  refine ⟨fun x hx => ?_, fun x hx => ?_⟩
  · have hfits := hread .fixed x.2 ((mem_cells h _ _).mp (mem_map_of_mem hx))
    exact ⟨hfits.1, hfits.2 rfl⟩
  · exact (hread .oraclePegged x.2 ((mem_cells h _ _).mp (mem_map_of_mem hx))).1

/-- A new iterator has the leaves of both components left. -/
theorem iter_holds (h : Layout b tree free) (nowTs : Nat) (oracle : Int) :
    ∃ it, b.iterAllIncludingInvalid nowTs oracle = .ok it ∧
      Holds b.nodes it (b.cells tree .fixed) (b.cells tree .oraclePegged) ∧
      it.nowTs = nowTs ∧ it.oraclePriceLots = oracle ∧
      it.fixedIter.left = decide (b.nodes.orderTreeType = .bids) := by
  obtain ⟨fit, hfnew, hfleft, hfit⟩ := OrderTreeIter.new_eq (h.arena_of .fixed) (h.held .fixed)
  obtain ⟨pit, hpnew, hpleft, hpit⟩ :=
    OrderTreeIter.new_eq (h.arena_of .oraclePegged) (h.held .oraclePegged)
  rw [hfleft] at hfit
  rw [hpleft] at hpit
  refine ⟨{ fixedIter := fit, oraclePeggedIter := pit, nowTs, oraclePriceLots := oracle }, ?_,
    ⟨hfit, hpit, OrderTreeIter.length_rootInOrder_lt (h.arena_of .oraclePegged) _⟩, rfl, rfl,
    hfleft⟩
  unfold iterAllIncludingInvalid new
  rw [hfnew, ok_bind, hpnew, ok_bind]
  rfl

/-- On a readable book side, a new iterator yields the visible items. -/
theorem iter_yields (h : Layout b tree free) (hread : b.Readable) (nowTs : Nat)
    (oracle : Int) :
    ∃ it, b.iterAllIncludingInvalid nowTs oracle = .ok it ∧
      Yields b.nodes b.nodes.orderTreeType nowTs oracle it
        (visible b.side nowTs oracle (b.cells tree .fixed)
          (b.cells tree .oraclePegged)) := by
  obtain ⟨it, hnew, hit, hnow, horacle, hleft⟩ := iter_holds h nowTs oracle
  exact ⟨it, hnew, hnow, horacle, hleft, _, _, hit, readableLists_cells h hread,
    sorted_cells h .oraclePegged, rfl⟩

theorem length_visible_lt (h : Layout b tree free) (nowTs : Nat) (oracle : Int) :
    (visible b.side nowTs oracle (b.cells tree .fixed)
      (b.cells tree .oraclePegged)).length < 2 * MAX_ORDERTREE_NODES := by
  have hfixed := OrderTreeIter.length_rootInOrder_lt (h.arena_of .fixed)
    (decide (b.nodes.orderTreeType = .bids))
  have hpegged := OrderTreeIter.length_rootInOrder_lt (h.arena_of .oraclePegged)
    (decide (b.nodes.orderTreeType = .bids))
  have hkept := length_keptPegged_le b.side oracle (b.cells tree .fixed)
    (b.cells tree .oraclePegged)
  rw [(visible_perm ..).length_eq, length_append, length_map, length_map]
  unfold cells at *
  omega

theorem iterAll_eq (h : Layout b tree free) (hread : b.Readable) (nowTs : Nat)
    (oracle : Int) :
    b.iterAll nowTs oracle = .ok (visible b.side nowTs oracle
      (b.cells tree .fixed) (b.cells tree .oraclePegged)) := by
  obtain ⟨it, hnew, hit⟩ := iter_yields h hread nowTs oracle
  unfold iterAll
  rw [hnew, ok_bind]
  exact collect_eq _ _ it hit (length_visible_lt h nowTs oracle)

/-- The items of all fixed orders and of all representable pegged orders. -/
def allItems (b : BookSide) (nowTs : Nat) (oraclePriceLots : Int) (fixed pegged : List LeafCell) :
    List BookSideIterItem :=
  fixed.map (fixedItem nowTs) ++ (BookSideIter.representable oraclePriceLots b.side pegged).map
    (peggedItem b.side nowTs oraclePriceLots)

/-- The iterator yields all fixed and all representable pegged orders exactly
    when it loses none; otherwise it loses exactly one. -/
theorem iterAll_complete_iff {b : BookSide} (hwf : b.WellFormed) (hread : b.Readable)
    (nowTs : Nat) (oraclePriceLots : Int) :
    ∃ fixed pegged items, b.iterComponent .fixed = .ok fixed ∧
      b.iterComponent .oraclePegged = .ok pegged ∧
      b.iterAll nowTs oraclePriceLots = .ok items ∧
      (items.Perm (b.allItems nowTs oraclePriceLots fixed pegged) ↔
        BookSideIter.LosesNone b.side oraclePriceLots fixed pegged) ∧
      (¬ BookSideIter.LosesNone b.side oraclePriceLots fixed pegged →
        ∃ o ∈ BookSideIter.representable oraclePriceLots b.side pegged,
          (peggedItem b.side nowTs oraclePriceLots o :: items).Perm
            (b.allItems nowTs oraclePriceLots fixed pegged)) := by
  obtain ⟨tree, free, h⟩ := hwf
  refine ⟨_, _, _, iterComponent_eq h .fixed, iterComponent_eq h .oraclePegged,
    iterAll_eq h hread nowTs oraclePriceLots, ?_⟩
  generalize b.cells tree .fixed = fixed
  generalize b.cells tree .oraclePegged = pegged
  have hperm := visible_perm b.side nowTs oraclePriceLots fixed pegged
  have hlost : ¬ LosesNone b.side oraclePriceLots fixed pegged →
      ∃ o ∈ representable oraclePriceLots b.side pegged,
        (peggedItem b.side nowTs oraclePriceLots o ::
          visible b.side nowTs oraclePriceLots fixed pegged).Perm
          (b.allItems nowTs oraclePriceLots fixed pegged) := by
    intro hnot
    obtain ⟨o, ho, hkept⟩ := keptPegged_loses_one hnot
    refine ⟨o, ho, (List.Perm.cons _ hperm).trans ?_⟩
    refine List.perm_middle.symm.trans (List.Perm.append_left _ ?_)
    exact hkept.map (peggedItem b.side nowTs oraclePriceLots)
  refine ⟨⟨?_, ?_⟩, hlost⟩
  · intro hall
    by_contra hnot
    obtain ⟨o, -, hcons⟩ := hlost hnot
    have hlen := hcons.length_eq
    rw [List.length_cons, hall.length_eq] at hlen
    omega
  · intro hnone
    rw [keptPegged_of_losesNone hnone] at hperm
    exact hperm

/-- An ask at `offset` lots from the oracle price. -/
def peggedAsk (offset : Int) (seqNum : Nat) : LeafNode where
  ownerSlot := 0
  orderType := .limit
  timeInForce := 0
  key := newNodeKey .ask (oraclePeggedPriceData offset) (BitVec.ofNat 64 seqNum)
  owner := 0
  quantity := 1
  timestamp := 0
  pegLimit := -1
  clientOrderId := 0

/-- Three asks; with the oracle at 50 the first one has no price. -/
def skippedAskBook : BookSide :=
  run exec (zeroed .asks) [.insertLeaf .oraclePegged (peggedAsk (-100) 1),
    .insertLeaf .oraclePegged (peggedAsk (-10) 2), .insertLeaf .oraclePegged (peggedAsk 0 3)]

theorem skippedAskBook_cells :
    skippedAskBook.iterComponent .fixed = .ok [] ∧
    (skippedAskBook.iterComponent .oraclePegged).map (fun cells => cells.map Prod.snd) =
      .ok [peggedAsk (-100) 1, peggedAsk (-10) 2, peggedAsk 0 3] := ⟨rfl, rfl⟩

/-- The ask at 50 is on the book and valid, but the iterator ends after the one at 40. -/
theorem iterAll_loses_valid_ask :
    oraclePeggedPrice 50 (peggedAsk 0 3) skippedAskBook.side = (.valid, 50) ∧
    (skippedAskBook.iterComponent .oraclePegged).map (fun cells => cells.map Prod.snd) =
      .ok [peggedAsk (-100) 1, peggedAsk (-10) 2, peggedAsk 0 3] ∧
    (skippedAskBook.iterAll 0 50).map (fun items => items.map BookSideIterItem.node) =
      .ok [peggedAsk (-10) 2] := ⟨rfl, rfl, rfl⟩

theorem skippedAskBook_readable : skippedAskBook.Readable := by
  obtain ⟨tree, free, h⟩ := (run_keeps_wellFormed .asks [.insertLeaf .oraclePegged
    (peggedAsk (-100) 1), .insertLeaf .oraclePegged (peggedAsk (-10) 2),
    .insertLeaf .oraclePegged (peggedAsk 0 3)]).1
  change Layout skippedAskBook tree free at h
  intro c o ho
  rw [← mem_cells h c o] at ho
  obtain ⟨hfixed, hpegged⟩ := skippedAskBook_cells
  cases c with
  | fixed =>
    rw [iterComponent_eq h] at hfixed
    rw [ok_inj hfixed] at ho
    cases ho
  | oraclePegged =>
    rw [iterComponent_eq h] at hpegged
    have hcells : (skippedAskBook.cells tree .oraclePegged).map Prod.snd =
        [peggedAsk (-100) 1, peggedAsk (-10) 2, peggedAsk 0 3] := ok_inj hpegged
    rw [hcells] at ho
    refine ⟨?_, by simp⟩
    -- none of the three asks ever expires
    simp only [mem_cons, not_mem_nil, or_false] at ho
    rcases ho with rfl | rfl | rfl
    · exact Or.inl rfl
    · exact Or.inl rfl
    · exact Or.inl rfl

theorem skippedAskBook_incomplete :
    ∃ fixed pegged items, skippedAskBook.iterComponent .fixed = .ok fixed ∧
      skippedAskBook.iterComponent .oraclePegged = .ok pegged ∧
      skippedAskBook.iterAll 0 50 = .ok items ∧
      (items.Perm (skippedAskBook.allItems 0 50 fixed pegged) ↔
        BookSideIter.LosesNone skippedAskBook.side 50 fixed pegged) ∧
      (¬ BookSideIter.LosesNone skippedAskBook.side 50 fixed pegged →
        ∃ o ∈ BookSideIter.representable 50 skippedAskBook.side pegged,
          (peggedItem skippedAskBook.side 0 50 o :: items).Perm
            (skippedAskBook.allItems 0 50 fixed pegged)) :=
  iterAll_complete_iff (run_keeps_wellFormed .asks _).1 skippedAskBook_readable 0 50

end BookSide

end MangoV4
