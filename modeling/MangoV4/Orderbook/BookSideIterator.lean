/-
  MangoV4.Orderbook.BookSideIterator

  Walking the two order trees of a book side at the same time
  (`bookside_iterator.rs`).

  The iterator is first modelled on the array, one `next` call at a time.
  `next_eq` then says what a call does in terms of the two lists of leaves
  that are left: everything about the order of iteration can be proved about
  lists.
-/

import MangoV4.Orderbook.OrderTreeIterator

namespace MangoV4

open Lib Lib.Exec Lib.CritBit List OrderTreeIter

/-- Reference to a node in a book side component. -/
structure BookSideOrderHandle where
  node : NodeHandle
  orderTree : BookSideOrderTree
deriving DecidableEq, Repr

inductive OrderState where
  | valid
  | invalid
  | skipped
deriving DecidableEq, Repr

/-- One order as the iterator yields it, with its current price. -/
structure BookSideIterItem where
  handle : BookSideOrderHandle
  node : LeafNode
  priceLots : Int
  state : OrderState
deriving DecidableEq, Repr

def BookSideIterItem.isValid (it : BookSideIterItem) : Bool := decide (it.state = .valid)

/-- State and current price of an oracle pegged order.  A price outside of
    `1..i64::MAX` makes the order `skipped` and is clamped to that range. -/
def oraclePeggedPrice (oraclePriceLots : Int) (node : LeafNode) (side : Side) :
    OrderState × Int :=
  let priceOffset := oraclePeggedPriceOffset node.priceData
  let price := saturatingAddI64 oraclePriceLots priceOffset
  if 1 ≤ price ∧ price < I64_MAX then
    if node.pegLimit ≠ -1 ∧ side.isPriceBetter price node.pegLimit then (.invalid, price)
    else (.valid, price)
  else (.skipped, max price 1)

/-- Replace the price data in a tree key with that of a fixed order at `priceLots`. -/
def keyForFixedPrice (key : Key) (priceLots : Int) : Exec Key := do
  assert (decide (1 ≤ priceLots))
  let priceData ← unwrapResult (fixedPriceData priceLots)
  return (priceData.zeroExtend 128 <<< 64) ||| (key.truncate 64).zeroExtend 128

def fixedToResult (fixed : NodeHandle × LeafNode) (nowTs : Nat) : Exec BookSideIterItem := do
  let expired ← fixed.2.isExpired nowTs
  let priceLots ← fixedPriceLots fixed.2.priceData
  return { handle := { node := fixed.1, orderTree := .fixed }, node := fixed.2, priceLots,
           state := if expired then .invalid else .valid }

def oraclePeggedToResult (pegged : NodeHandle × LeafNode) (priceLots : Int) (state : OrderState)
    (nowTs : Nat) : Exec BookSideIterItem := do
  let expired ← pegged.2.isExpired nowTs
  return { handle := { node := pegged.1, orderTree := .oraclePegged }, node := pegged.2, priceLots,
           state := if expired then .invalid else state }

/-- Which of two keys matches first. -/
def isBetterKey : Side → Key → Key → Bool
  | .bid, a, b => decide (b < a)
  | .ask, a, b => decide (a < b)

/-- Compares the `fixed` and `oraclePegged` order and returns the one that
    would match first (or the worse one, if `returnWorse` is set). -/
def rankOrders (side : Side) (fixed oraclePegged : Option (NodeHandle × LeafNode))
    (returnWorse : Bool) (nowTs : Nat) (oraclePriceLots : Int) :
    Exec (Option BookSideIterItem) := do
  match fixed, oraclePegged with
  | some f, some o =>
    let (state, priceLots) := oraclePeggedPrice oraclePriceLots o.2 side
    let oKey ← keyForFixedPrice o.2.key priceLots
    if (isBetterKey side f.2.key oKey).xor returnWorse then
      return some (← fixedToResult f nowTs)
    else return some (← oraclePeggedToResult o priceLots state nowTs)
  | none, some o =>
    let (state, priceLots) := oraclePeggedPrice oraclePriceLots o.2 side
    return some (← oraclePeggedToResult o priceLots state nowTs)
  | some f, none => return some (← fixedToResult f nowTs)
  | none, none => return none

/-! ## Ranking two orders -/

/-- The order has expired at `nowTs`. -/
def LeafNode.expiredAt (n : LeafNode) (nowTs : Nat) : Bool :=
  decide (n.timeInForce ≠ 0 ∧ n.timestamp + n.timeInForce ≤ nowTs)

theorem isExpired_cases (n : LeafNode) (nowTs : Nat) :
    (n.ExpiryFits ∧ n.isExpired nowTs = .ok (n.expiredAt nowTs)) ∨
    (¬ n.ExpiryFits ∧ n.isExpired nowTs = panic .overflow) := by
  unfold LeafNode.isExpired LeafNode.ExpiryFits LeafNode.expiredAt
  by_cases h0 : n.timeInForce = 0
  · exact Or.inl ⟨Or.inl h0, by simp [h0]⟩
  · rw [if_neg h0]
    by_cases hlt : n.timestamp + n.timeInForce < 2 ^ 64
    · refine Or.inl ⟨Or.inr hlt, ?_⟩
      rw [checkU64_eq_ok.mpr ⟨hlt, rfl⟩]
      simp [h0]
    · refine Or.inr ⟨by omega, ?_⟩
      unfold checkU64 checkUnsigned
      rw [if_neg hlt]
      rfl

/-- A fixed order as the iterator yields it. -/
def fixedItem (nowTs : Nat) (x : NodeHandle × LeafNode) : BookSideIterItem where
  handle := { node := x.1, orderTree := .fixed }
  node := x.2
  priceLots := x.2.priceData.toNat
  state := if x.2.expiredAt nowTs then .invalid else .valid

/-- A pegged order as the iterator yields it. -/
def peggedItem (side : Side) (nowTs : Nat) (oraclePriceLots : Int) (x : NodeHandle × LeafNode) :
    BookSideIterItem where
  handle := { node := x.1, orderTree := .oraclePegged }
  node := x.2
  priceLots := (oraclePeggedPrice oraclePriceLots x.2 side).2
  state := if x.2.expiredAt nowTs then .invalid else (oraclePeggedPrice oraclePriceLots x.2 side).1

/-- A leaf of either tree as the iterator yields it. -/
def itemOf (side : Side) (nowTs : Nat) (oraclePriceLots : Int) :
    BookSideOrderTree × NodeHandle × LeafNode → BookSideIterItem
  | (.fixed, x) => fixedItem nowTs x
  | (.oraclePegged, x) => peggedItem side nowTs oraclePriceLots x

/-- The price data can be read as a fixed price. -/
def LeafNode.PriceFits (n : LeafNode) : Prop := (n.priceData.toNat : Int) ≤ I64_MAX

instance (n : LeafNode) : Decidable n.PriceFits := inferInstanceAs (Decidable (_ ≤ _))

/-- How turning a fixed order into an item can end. -/
theorem fixedToResult_cases (x : NodeHandle × LeafNode) (nowTs : Nat) :
    (¬ x.2.ExpiryFits ∧ fixedToResult x nowTs = panic .overflow) ∨
    (x.2.ExpiryFits ∧ ¬ x.2.PriceFits ∧ fixedToResult x nowTs = panic .assertion) ∨
    (x.2.ExpiryFits ∧ x.2.PriceFits ∧ fixedToResult x nowTs = .ok (fixedItem nowTs x)) := by
  unfold fixedToResult fixedPriceLots
  rcases isExpired_cases x.2 nowTs with ⟨hfits, hrun⟩ | ⟨hfits, hrun⟩
  · refine Or.inr ?_
    rw [hrun, ok_bind]
    by_cases hprice : x.2.PriceFits
    · have htrue : decide ((x.2.priceData.toNat : Int) ≤ I64_MAX) = true := decide_eq_true hprice
      refine Or.inr ⟨hfits, hprice, ?_⟩
      rw [htrue]
      rfl
    · refine Or.inl ⟨hfits, hprice, ?_⟩
      have hfalse : decide ((x.2.priceData.toNat : Int) ≤ I64_MAX) = false := decide_eq_false hprice
      rw [hfalse]
      rfl
  · refine Or.inl ⟨hfits, ?_⟩
    rw [hrun]
    rfl

theorem oraclePeggedToResult_cases (side : Side) (x : NodeHandle × LeafNode) (nowTs : Nat)
    (oracle : Int) :
    (¬ x.2.ExpiryFits ∧ oraclePeggedToResult x (oraclePeggedPrice oracle x.2 side).2
      (oraclePeggedPrice oracle x.2 side).1 nowTs = panic .overflow) ∨
    (x.2.ExpiryFits ∧ oraclePeggedToResult x (oraclePeggedPrice oracle x.2 side).2
      (oraclePeggedPrice oracle x.2 side).1 nowTs =
        .ok (peggedItem side nowTs oracle x)) := by
  unfold oraclePeggedToResult
  rcases isExpired_cases x.2 nowTs with ⟨hfits, hrun⟩ | ⟨hfits, hrun⟩
  · refine Or.inr ⟨hfits, ?_⟩
    rw [hrun]
    rfl
  · refine Or.inl ⟨hfits, ?_⟩
    rw [hrun]
    rfl

/-- The current price of a pegged order is at least 1. -/
theorem one_le_oraclePeggedPrice (oracle : Int) (node : LeafNode) (side : Side) :
    1 ≤ (oraclePeggedPrice oracle node side).2 := by
  unfold oraclePeggedPrice
  simp only
  split
  · rename_i h
    split
    · exact h.1
    · exact h.1
  · exact Int.le_max_right ..

/-- `key` with the price data of a fixed order at `priceLots`. -/
def fixedPriceKey (key : Key) (priceLots : Int) : Key :=
  ((BitVec.ofInt 64 priceLots).zeroExtend 128 <<< 64) ||| (key.truncate 64).zeroExtend 128

theorem keyForFixedPrice_eq (key : Key) {priceLots : Int} (h : 1 ≤ priceLots) :
    keyForFixedPrice key priceLots = .ok (fixedPriceKey key priceLots) := by
  unfold keyForFixedPrice fixedPriceData require
  rw [decide_eq_true h]
  rfl

/-- The fixed order matches before the pegged one. -/
def fixedFirst (side : Side) (oraclePriceLots : Int) (f o : LeafNode) : Bool :=
  isBetterKey side f.key (fixedPriceKey o.key (oraclePeggedPrice oraclePriceLots o side).2)

/-- `rankOrders` picks the fixed order. -/
def picksFixed (side : Side) (oraclePriceLots : Int) (returnWorse : Bool) (f : LeafNode) :
    Option (NodeHandle × LeafNode) → Bool
  | none => true
  | some o => (fixedFirst side oraclePriceLots f o.2).xor returnWorse

/-- `rankOrders` in one line per case, the key comparison replaced by what it is for. -/
theorem rankOrders_eq (side : Side) (fixed pegged : Option (NodeHandle × LeafNode))
    (returnWorse : Bool) (nowTs : Nat) (oracle : Int) :
    rankOrders side fixed pegged returnWorse nowTs oracle =
      match fixed, pegged with
      | none, none => .ok none
      | none, some o => some <$> oraclePeggedToResult o
          (oraclePeggedPrice oracle o.2 side).2
          (oraclePeggedPrice oracle o.2 side).1 nowTs
      | some f, none => some <$> fixedToResult f nowTs
      | some f, some o =>
        if picksFixed side oracle returnWorse f.2 (some o) then
          some <$> fixedToResult f nowTs
        else some <$> oraclePeggedToResult o (oraclePeggedPrice oracle o.2 side).2
          (oraclePeggedPrice oracle o.2 side).1 nowTs := by
  unfold rankOrders
  cases fixed with
  | none => cases pegged <;> rfl
  | some f =>
    cases pegged with
    | none => rfl
    | some o =>
      have hkey := keyForFixedPrice_eq o.2.key
        (one_le_oraclePeggedPrice oracle o.2 side)
      simp only [hkey, ok_bind]
      rfl

/-- How ranking can end. -/
inductive RankOutcome (side : Side) (fixed pegged : Option (NodeHandle × LeafNode))
    (returnWorse : Bool) (nowTs : Nat) (oraclePriceLots : Int) :
    Exec (Option BookSideIterItem) → Prop
  | none (hf : fixed = none) (ho : pegged = none) :
      RankOutcome side fixed pegged returnWorse nowTs oraclePriceLots (.ok none)
  | overflow {x : NodeHandle × LeafNode} (hx : fixed = some x ∨ pegged = some x)
      (hbad : ¬ x.2.ExpiryFits) :
      RankOutcome side fixed pegged returnWorse nowTs oraclePriceLots (panic .overflow)
  | price {f : NodeHandle × LeafNode} (hf : fixed = some f) (hfits : f.2.ExpiryFits)
      (hbad : ¬ f.2.PriceFits)
      (hpick : picksFixed side oraclePriceLots returnWorse f.2 pegged = true) :
      RankOutcome side fixed pegged returnWorse nowTs oraclePriceLots (panic .assertion)
  | fixed {f : NodeHandle × LeafNode} (hf : fixed = some f) (hfits : f.2.ExpiryFits)
      (hprice : f.2.PriceFits)
      (hpick : picksFixed side oraclePriceLots returnWorse f.2 pegged = true) :
      RankOutcome side fixed pegged returnWorse nowTs oraclePriceLots
        (.ok (some (fixedItem nowTs f)))
  | pegged {o : NodeHandle × LeafNode} (ho : pegged = some o) (hfits : o.2.ExpiryFits)
      (hpick : ∀ f, fixed = some f →
        picksFixed side oraclePriceLots returnWorse f.2 pegged = false) :
      RankOutcome side fixed pegged returnWorse nowTs oraclePriceLots
        (.ok (some (peggedItem side nowTs oraclePriceLots o)))

theorem rankOrders_outcome (side : Side) (fixed pegged : Option (NodeHandle × LeafNode))
    (returnWorse : Bool) (nowTs : Nat) (oracle : Int) :
    RankOutcome side fixed pegged returnWorse nowTs oracle
      (rankOrders side fixed pegged returnWorse nowTs oracle) := by
  have hfixed : ∀ f, fixed = some f →
      picksFixed side oracle returnWorse f.2 pegged = true →
      RankOutcome side fixed pegged returnWorse nowTs oracle
        (some <$> fixedToResult f nowTs) := by
    intro f hf hpick
    rcases fixedToResult_cases f nowTs with
      ⟨hbad, hrun⟩ | ⟨hfits, hbad, hrun⟩ | ⟨hfits, hprice, hrun⟩
    · rw [hrun]
      exact .overflow (Or.inl hf) hbad
    · rw [hrun]
      exact .price hf hfits hbad hpick
    · rw [hrun]
      exact .fixed hf hfits hprice hpick
  have hpegged : ∀ o, pegged = some o →
      (∀ f, fixed = some f → picksFixed side oracle returnWorse f.2 pegged = false) →
      RankOutcome side fixed pegged returnWorse nowTs oracle
        (some <$> oraclePeggedToResult o (oraclePeggedPrice oracle o.2 side).2
          (oraclePeggedPrice oracle o.2 side).1 nowTs) := by
    intro o ho hpick
    rcases oraclePeggedToResult_cases side o nowTs oracle with
      ⟨hbad, hrun⟩ | ⟨hfits, hrun⟩
    · rw [hrun]
      exact .overflow (Or.inr ho) hbad
    · rw [hrun]
      exact .pegged ho hfits hpick
  rw [rankOrders_eq]
  cases fixed with
  | none =>
    cases pegged with
    | none => exact .none rfl rfl
    | some o => exact hpegged o rfl (by simp)
  | some f =>
    cases pegged with
    | none => exact hfixed f rfl rfl
    | some o =>
      simp only
      split
      · next hpick => exact hfixed f rfl hpick
      · rename_i hpick
        refine hpegged o rfl ?_
        intro f' hf'
        obtain rfl := Option.some.inj hf'
        exact Bool.eq_false_iff.mpr hpick

/-- Iterates the fixed and the oracle pegged tree simultaneously. -/
structure BookSideIter where
  fixedIter : OrderTreeIter
  oraclePeggedIter : OrderTreeIter
  nowTs : Nat
  oraclePriceLots : Int

namespace BookSideIter

def new (t : OrderTreeNodes) (roots : BookSideOrderTree → OrderTreeRoot) (nowTs : Nat)
    (oraclePriceLots : Int) : Exec BookSideIter := do
  let fixedIter ← OrderTreeIter.new t (roots .fixed)
  let oraclePeggedIter ← OrderTreeIter.new t (roots .oraclePegged)
  return { fixedIter, oraclePeggedIter, nowTs, oraclePriceLots }

def isSkipped (oraclePriceLots : Int) (side : Side) (o : NodeHandle × LeafNode) : Bool :=
  decide ((oraclePeggedPrice oraclePriceLots o.2 side).1 = .skipped)

/-- The loop that skips the pegged orders that aren't representable with the
    current oracle price. -/
def skipLoop (t : OrderTreeNodes) (oraclePriceLots : Int) (side : Side) :
    Nat → Option (NodeHandle × LeafNode) → OrderTreeIter →
      Exec (Option (NodeHandle × LeafNode) × OrderTreeIter)
  | _, none, it => .ok (none, it)
  | 0, some _, _ => diverge
  | fuel + 1, some o, it =>
    if !isSkipped oraclePriceLots side o then .ok (some o, it)
    else do
      let (oPeek, it) ← it.next t
      skipLoop t oraclePriceLots side fuel oPeek it

def next (t : OrderTreeNodes) (it : BookSideIter) :
    Exec (Option BookSideIterItem × BookSideIter) := do
  let side := it.fixedIter.side
  let (oPeek, oraclePeggedIter) ← skipLoop t it.oraclePriceLots side MAX_ORDERTREE_NODES
    it.oraclePeggedIter.peek it.oraclePeggedIter
  let it := { it with oraclePeggedIter }
  match ← rankOrders side it.fixedIter.peek oPeek false it.nowTs it.oraclePriceLots with
  | none => return (none, it)
  | some better =>
    match better.handle.orderTree with
    | .fixed =>
      let (_, fixedIter) ← it.fixedIter.next t
      return (some better, { it with fixedIter })
    | .oraclePegged =>
      let (_, oraclePeggedIter) ← it.oraclePeggedIter.next t
      return (some better, { it with oraclePeggedIter })

/-! ## The iterator on lists -/

/-- The skip loop on the list of pegged orders left: the order it ends with,
    and what the iterator has left afterwards.  Once it has skipped an order,
    the order it ends with is no longer ahead of the iterator. -/
def skipList (oraclePriceLots : Int) (side : Side) (pegged : List LeafCell) :
    Option LeafCell × List LeafCell :=
  match pegged with
  | [] => (none, [])
  | o :: rest =>
    if isSkipped oraclePriceLots side o then
      let kept := rest.dropWhile (isSkipped oraclePriceLots side)
      (kept.head?, kept.tail)
    else (some o, o :: rest)

/-- `next` on the lists of fixed and pegged orders left. -/
def nextList (side : Side) (nowTs : Nat) (oraclePriceLots : Int) (fixed pegged : List LeafCell) :
    Exec (Option BookSideIterItem × List LeafCell × List LeafCell) := do
  let (oPeek, pegged) := skipList oraclePriceLots side pegged
  match ← rankOrders side fixed.head? oPeek false nowTs oraclePriceLots with
  | none => return (none, fixed, pegged)
  | some better =>
    match better.handle.orderTree with
    | .fixed => return (some better, fixed.tail, pegged)
    | .oraclePegged => return (some better, fixed, pegged.tail)

/-- The iterator has the listed orders left. -/
structure Holds (t : OrderTreeNodes) (it : BookSideIter) (fixed pegged : List LeafCell) :
    Prop where
  fixedLeft : OrderTreeIter.IterHolds t it.fixedIter fixed
  peggedLeft : OrderTreeIter.IterHolds t it.oraclePeggedIter pegged
  fuel : pegged.length < MAX_ORDERTREE_NODES

@[simp] theorem skipLoop_none (t : OrderTreeNodes) (oracle : Int) (side : Side)
    (fuel : Nat) (it : OrderTreeIter) :
    skipLoop t oracle side fuel none it = .ok (none, it) := by
  cases fuel <;> rfl

/-- Once an order has been skipped, the loop goes on with what `next` yields. -/
theorem skipLoop_of_skipped {t : OrderTreeNodes} (oracle : Int) (side : Side)
    (pegged : List LeafCell) :
    ∀ (fuel : Nat) (o : LeafCell) (it : OrderTreeIter),
      isSkipped oracle side o = true → IterHolds t it pegged →
      pegged.length < fuel →
      ∃ it', skipLoop t oracle side fuel (some o) it =
          .ok ((pegged.dropWhile (isSkipped oracle side)).head?, it') ∧
        IterHolds t it'
          (pegged.dropWhile (isSkipped oracle side)).tail ∧ it'.left = it.left := by
  induction pegged with
  | nil =>
    intro fuel o it ho hit hfuel
    obtain ⟨fuel, rfl⟩ : ∃ m, fuel = m + 1 := Nat.exists_eq_add_of_le' hfuel
    obtain ⟨it', hrun, hit', hleft⟩ := next_eq hit
    refine ⟨it', ?_, hit', hleft⟩
    simp only [skipLoop, ho, Bool.not_true, Bool.false_eq_true, if_false, hrun, ok_bind]
    exact skipLoop_none ..
  | cons b pegged ih =>
    intro fuel o it ho hit hfuel
    obtain ⟨fuel, rfl⟩ : ∃ m, fuel = m + 1 :=
      Nat.exists_eq_add_of_le' (Nat.le_trans (Nat.succ_pos _) hfuel)
    obtain ⟨it', hrun, hit', hleft⟩ := next_eq hit
    rw [length_cons] at hfuel
    simp only [skipLoop, ho, Bool.not_true, Bool.false_eq_true, if_false, hrun, ok_bind,
      head?_cons]
    by_cases hb : isSkipped oracle side b = true
    · rw [dropWhile_cons_of_pos hb, ← hleft]
      exact ih fuel b it' hb hit' (by omega)
    · obtain ⟨fuel, rfl⟩ : ∃ m, fuel = m + 1 :=
        Nat.exists_eq_add_of_le' (Nat.le_trans (Nat.succ_pos _) (Nat.lt_of_succ_lt_succ hfuel))
      rw [dropWhile_cons_of_neg hb]
      refine ⟨it', ?_, hit', hleft⟩
      simp [skipLoop, hb]

/-- The skip loop on the array does what it does on lists. -/
theorem skipLoop_eq {t : OrderTreeNodes} (oracle : Int) (side : Side)
    {pegged : List LeafCell} {it : OrderTreeIter} (hit : IterHolds t it pegged)
    (hfuel : pegged.length < MAX_ORDERTREE_NODES) :
    ∃ it', skipLoop t oracle side MAX_ORDERTREE_NODES it.peek it =
        .ok ((skipList oracle side pegged).1, it') ∧
      IterHolds t it' (skipList oracle side pegged).2 ∧
      it'.left = it.left := by
  rw [peek_eq hit]
  cases pegged with
  | nil => exact ⟨it, rfl, hit, rfl⟩
  | cons o rest =>
    rw [head?_cons, skipList]
    by_cases ho : isSkipped oracle side o = true
    · have hskip := skipLoop_of_skipped oracle side (o :: rest) MAX_ORDERTREE_NODES
        o it ho hit hfuel
      rw [dropWhile_cons_of_pos ho] at hskip
      rw [if_pos ho]
      exact hskip
    · refine ⟨it, ?_, ?_, rfl⟩
      · simp [skipLoop, MAX_ORDERTREE_NODES, ho]
      · rw [if_neg ho]
        exact hit

theorem skipList_length_le (oracle : Int) (side : Side) (pegged : List LeafCell) :
    (skipList oracle side pegged).2.length ≤ pegged.length := by
  cases pegged with
  | nil => exact Nat.le_refl _
  | cons o rest =>
    rw [skipList]
    split
    · have h := (dropWhile_suffix (isSkipped oracle side) (l := rest)).length_le
      simp only [length_tail, length_cons]
      omega
    · exact Nat.le_refl _

/-- `next` on the array does what `nextList` does on lists. -/
theorem next_eq {t : OrderTreeNodes} {it : BookSideIter} {fixed pegged : List LeafCell}
    (h : Holds t it fixed pegged) :
    (∃ f, next t it = .error f ∧
      nextList it.fixedIter.side it.nowTs it.oraclePriceLots fixed pegged = .error f) ∨
    (∃ item it' fixed' pegged', next t it = .ok (item, it') ∧
      nextList it.fixedIter.side it.nowTs it.oraclePriceLots fixed pegged =
        .ok (item, fixed', pegged') ∧
      Holds t it' fixed' pegged' ∧ it'.fixedIter.left = it.fixedIter.left ∧
      it'.nowTs = it.nowTs ∧ it'.oraclePriceLots = it.oraclePriceLots) := by
  obtain ⟨pit, hskip, hpit, -⟩ := skipLoop_eq it.oraclePriceLots it.fixedIter.side
    h.peggedLeft h.fuel
  have hfuel : (skipList it.oraclePriceLots it.fixedIter.side pegged).2.length <
      MAX_ORDERTREE_NODES := Nat.lt_of_le_of_lt (skipList_length_le ..) h.fuel
  unfold next nextList
  simp only [hskip, ok_bind, peek_eq h.fixedLeft]
  generalize rankOrders it.fixedIter.side fixed.head?
    (skipList it.oraclePriceLots it.fixedIter.side pegged).1 false it.nowTs
    it.oraclePriceLots = r
  rcases r with f | _ | better
  · exact Or.inl ⟨f, rfl, rfl⟩
  · exact Or.inr ⟨none, _, _, _, rfl, rfl, ⟨h.fixedLeft, hpit, hfuel⟩, rfl, rfl, rfl⟩
  · refine Or.inr ?_
    cases htree : better.handle.orderTree with
    | fixed =>
      obtain ⟨fit, hrun, hfit, hleft⟩ := OrderTreeIter.next_eq h.fixedLeft
      refine ⟨some better, { it with fixedIter := fit, oraclePeggedIter := pit }, _, _, ?_, ?_,
        ⟨hfit, hpit, hfuel⟩, hleft, rfl, rfl⟩
      · simp only [ok_bind, htree, hrun]
        rfl
      · simp only [ok_bind, htree]
        rfl
    | oraclePegged =>
      obtain ⟨pit', hrun, hpit', -⟩ := OrderTreeIter.next_eq hpit
      have hfuel' : (skipList it.oraclePriceLots it.fixedIter.side pegged).2.tail.length <
          MAX_ORDERTREE_NODES := by
        rw [length_tail]
        omega
      refine ⟨some better, { it with oraclePeggedIter := pit' }, _, _, ?_, ?_,
        ⟨h.fixedLeft, hpit', hfuel'⟩, rfl, rfl, rfl⟩
      · simp only [ok_bind, htree, hrun]
        rfl
      · simp only [ok_bind, htree]
        rfl

end BookSideIter

end MangoV4
