/-
  MangoV4.Exchange.Clearing

  The clearing of one perp market, as an abstract machine.

  A clearing is what the accounts count, what rests on the book and what waits
  on the event queue, without trees, rings and fixed-point numbers.  `Step`
  says everything that can happen to it.  The invariants of this file are
  proved for one step and hold along every sequence of steps; that the
  instructions of the exchange are such sequences is the subject of
  `MangoV4.Exchange.Refinement`.
-/

import MangoV4.Orderbook.Conservation
import MangoV4.Lib.Simulation
import Mathlib.Algebra.BigOperators.Group.Finset.Piecewise
import Mathlib.Algebra.Group.Prod
import Mathlib.Data.FinEnum

namespace MangoV4

open Lib Relation Ledger Function List AnyEvent

/-! ## Functions with one value replaced -/

section Update

variable {A B G : Type} [DecidableEq A] [AddCommGroup G]

theorem apply_update_eq_add (g : B → G) (f : A → B) (a : A) (b : B) (x : A) :
    g (update f a b x) = g (f x) + if x = a then g b - g (f a) else 0 := by
  by_cases hx : x = a
  · subst hx
    rw [update_self, if_pos rfl, add_sub_cancel]
  · rw [update_of_ne hx, if_neg hx, add_zero]

theorem sum_apply_update [Fintype A] (g : B → G) (f : A → B) (a : A) (b : B) :
    ∑ x, g (update f a b x) = ∑ x, g (f x) + (g b - g (f a)) := by
  simp only [apply_update_eq_add g f a b]
  rw [Finset.sum_add_distrib, Finset.sum_ite_eq' Finset.univ a, if_pos (Finset.mem_univ a)]

end Update

/-! ## Lots on the book and on the queue -/

/-- Lots of the orders of account `a`. -/
def ownLots (a : Pubkey) (ls : Multiset (BookSideOrderTree × LeafNode)) : Int :=
  (ls.map fun x => if x.2.owner = a then x.2.quantity else 0).sum

section OwnLots

variable (a : Pubkey) (ls ls' : Multiset (BookSideOrderTree × LeafNode))

@[simp] theorem ownLots_zero : ownLots a 0 = 0 := rfl

@[simp] theorem ownLots_cons (x : BookSideOrderTree × LeafNode) :
    ownLots a (x ::ₘ ls) = (if x.2.owner = a then x.2.quantity else 0) + ownLots a ls := by
  unfold ownLots
  rw [Multiset.map_cons, Multiset.sum_cons]

@[simp] theorem ownLots_add : ownLots a (ls + ls') = ownLots a ls + ownLots a ls' := by
  unfold ownLots
  rw [Multiset.map_add, Multiset.sum_add]

@[simp] theorem ownLots_singleton (x : BookSideOrderTree × LeafNode) :
    ownLots a {x} = if x.2.owner = a then x.2.quantity else 0 := by
  unfold ownLots
  rw [Multiset.map_singleton, Multiset.sum_singleton]

end OwnLots

namespace AnyEvent

/-- Lots the event will release from the open orders of account `a` on `side`. -/
def makerLots (a : Pubkey) (side : Side) : AnyEvent → Int
  | .fill f => if f.maker = a ∧ f.takerSide.invertSide = side then f.quantity else 0
  | .out o => if o.owner = a ∧ o.side = side then o.quantity else 0
  | .liquidate => 0

/-- Base and quote change the event holds for account `a` as the taker. -/
def takerLots (a : Pubkey) : AnyEvent → Int × Int
  | .fill f => if f.taker = a then f.change f.takerSide else 0
  | .out _ => 0
  | .liquidate => 0

/-- Events are about a positive number of lots. -/
def Positive : AnyEvent → Prop
  | .fill f => 0 < f.quantity
  | .out o => 0 < o.quantity
  | .liquidate => True

/-- The event refers to account `a`, as maker, taker or owner. -/
def Names (a : Pubkey) : AnyEvent → Prop
  | .fill f => f.maker = a ∨ f.taker = a
  | .out o => o.owner = a
  | .liquidate => False

instance (a : Pubkey) : DecidablePred (Names a)
  | .fill _ => inferInstanceAs (Decidable (_ ∨ _))
  | .out _ => inferInstanceAs (Decidable (_ = _))
  | .liquidate => inferInstanceAs (Decidable False)

end AnyEvent

/-- What one party of a fill gets, the other gives. -/
theorem FillEvent.change_invertSide (f : FillEvent) (side : Side) :
    f.change side.invertSide = -f.change side := by
  cases side with
  | bid => exact Prod.ext rfl (neg_neg _).symm
  | ask => exact Prod.ext (neg_neg _).symm rfl

/-- The fill event of a taker on `side` and a resting order. -/
structure IsFill (side : Side) (o : LeafNode) (f : FillEvent) : Prop where
  takerSide : f.takerSide = side
  maker : f.maker = o.owner
  makerSlot : f.makerSlot = o.ownerSlot
  makerOrderId : f.makerOrderId = o.key
  pos : 0 < f.quantity
  le : f.quantity ≤ o.quantity
  makerOut : f.makerOut = decide (f.quantity = o.quantity)

/-- The out event of a resting order on `side`. -/
structure IsOut (side : Side) (o : LeafNode) (e : OutEvent) : Prop where
  side : e.side = side
  owner : e.owner = o.owner
  ownerSlot : e.ownerSlot = o.ownerSlot
  orderId : e.orderId = o.key
  quantity : e.quantity = o.quantity

/-- What is left of a resting order after a fill. -/
def leftover (c : BookSideOrderTree) (o : LeafNode) (lots : Int) :
    Multiset (BookSideOrderTree × LeafNode) :=
  if lots = o.quantity then 0 else {(c, { o with quantity := o.quantity - lots })}

theorem ownLots_leftover (a : Pubkey) (c : BookSideOrderTree) (o : LeafNode) (lots : Int) :
    ownLots a (leftover c o lots) = if o.owner = a then o.quantity - lots else 0 := by
  unfold leftover
  by_cases hlots : lots = o.quantity
  · rw [if_pos hlots, ownLots_zero, hlots]
    simp
  · rw [if_neg hlots, ownLots_singleton]

/-- What is left has the key, the owner and the slot of the order. -/
theorem mem_leftover {c : BookSideOrderTree} {o : LeafNode} {lots : Int}
    {x : BookSideOrderTree × LeafNode} (h : x ∈ leftover c o lots) :
    lots ≠ o.quantity ∧ x = (c, { o with quantity := o.quantity - lots }) := by
  unfold leftover at h
  split at h
  · exact absurd h (Multiset.notMem_zero x)
  · next hlots => exact ⟨hlots, Multiset.mem_singleton.mp h⟩

/-! ## The machine -/

/-- The clearing of a market: orders, queued events, number of the last order,
    open interest, and for each account what its position counts (if it has
    one) and its open-order slots. -/
@[ext]
structure Clearing where
  leaves : Side → Multiset (BookSideOrderTree × LeafNode)
  events : List AnyEvent
  seqNum : Nat
  openInterest : Int
  ledger : Pubkey → Option Ledger
  slots : Pubkey → List PerpOpenOrder

namespace Clearing

/-- What an account counts; an account without a position counts nothing. -/
def position (s : Clearing) (a : Pubkey) : Ledger := (s.ledger a).getD .zero

@[simps]
def withLeaves (s : Clearing) (side : Side) (ls : Multiset (BookSideOrderTree × LeafNode)) :
    Clearing :=
  { s with leaves := Function.update s.leaves side ls }

@[simps]
def push (s : Clearing) (e : AnyEvent) : Clearing := { s with events := s.events ++ [e] }

@[simps]
def withEvents (s : Clearing) (es : List AnyEvent) : Clearing := { s with events := es }

@[simps]
def withSlots (s : Clearing) (a : Pubkey) (orders : List PerpOpenOrder) : Clearing :=
  { s with slots := Function.update s.slots a orders }

@[simps]
def countOrder (s : Clearing) : Clearing := { s with seqNum := s.seqNum + 1 }

/-- An account gets a position, or loses it. -/
@[simps]
def withLedger (s : Clearing) (a : Pubkey) (l : Option Ledger) : Clearing :=
  { s with ledger := Function.update s.ledger a l }

/-- An account counts `l'` instead of `l`. -/
@[simps]
def move (s : Clearing) (a : Pubkey) (l l' : Ledger) : Clearing :=
  { s with
    ledger := Function.update s.ledger a (some l')
    openInterest := s.openInterest + (|l'.base| - |l.base|) }

/-- What a maker counts after one of its orders has been filled. -/
def afterMaker (f : FillEvent) (l : Ledger) : Ledger :=
  (l.addBase (f.change f.takerSide.invertSide).1).addMaker f.takerSide.invertSide (-f.quantity)

/-- What a taker counts after a fill it waited for. -/
def afterTaker (f : FillEvent) (l : Ledger) : Ledger :=
  (l.addTaker (-f.change f.takerSide)).addBase (f.change f.takerSide).1

/-- What can happen to the clearing of market `m`.  `K` is a condition under
    which positions are closed. -/
inductive Step (m : PerpMarketIndex) (K : Clearing → Pubkey → Prop) (s : Clearing) : Clearing → Prop
  /-- an order that does not go on the book is done -/
  | count (hseq : s.seqNum + 1 < 2 ^ 64) : Step m K s s.countOrder
  /-- an order of a taker on `side` takes lots of a resting order -/
  | fill {side : Side} {c : BookSideOrderTree} {o : LeafNode}
      {rest : Multiset (BookSideOrderTree × LeafNode)} {f : FillEvent} {l : Ledger}
      (hleaf : s.leaves side.invertSide = (c, o) ::ₘ rest) (hfill : IsFill side o f)
      (hl : s.ledger f.taker = some l) :
      Step m K s (((s.withLeaves side.invertSide (leftover c o f.quantity + rest)).push
        (.fill f)).move f.taker l (l.addTaker (f.change f.takerSide)))
  /-- a resting order leaves the book unfilled -/
  | drop {side : Side} {c : BookSideOrderTree} {o : LeafNode}
      {rest : Multiset (BookSideOrderTree × LeafNode)} {e : OutEvent}
      (hleaf : s.leaves side = (c, o) ::ₘ rest) (hout : IsOut side o e) :
      Step m K s ((s.withLeaves side rest).push (.out e))
  /-- an order goes on the book and into a free slot -/
  | post {side : Side} {c : BookSideOrderTree} {o : LeafNode} {priceData : BitVec 64} {l : Ledger}
      {oo : PerpOpenOrder} (hseq : s.seqNum + 1 < 2 ^ 64)
      (hkey : o.key = newNodeKey side priceData (BitVec.ofNat 64 (s.seqNum + 1)))
      (hpos : 0 < o.quantity) (hl : s.ledger o.owner = some l)
      (hfree : (s.slots o.owner)[o.ownerSlot]? = some oo) (hmarket : oo.market = FREE_ORDER_SLOT) :
      Step m K s (((s.countOrder.withLeaves side ((c, o) ::ₘ s.leaves side)).move o.owner l
        (l.addMaker side o.quantity)).withSlots o.owner ((s.slots o.owner).set o.ownerSlot
          { market := m, sideAndTree := .new side c, id := o.key,
            clientId := o.clientOrderId, quantity := o.quantity }))
  /-- an order that is on the book is cancelled -/
  | cancel {a : Pubkey} {slot : Nat} {oo : PerpOpenOrder} {o : LeafNode}
      {rest : Multiset (BookSideOrderTree × LeafNode)} {l : Ledger}
      (hoo : (s.slots a)[slot]? = some oo) (hm : oo.market = m) (hfree : m ≠ FREE_ORDER_SLOT)
      (hleaf : s.leaves oo.sideAndTree.side = (oo.sideAndTree.orderTree, o) ::ₘ rest)
      (hid : o.key = oo.id) (howner : o.owner = a) (hslot : o.ownerSlot = slot)
      (hl : s.ledger a = some l) :
      Step m K s (((s.withLeaves oo.sideAndTree.side rest).move a l
        (l.addMaker oo.sideAndTree.side (-o.quantity))).withSlots a
          ((s.slots a).set slot .cleared))
  /-- an order that has left the book already is cancelled -/
  | forget {a : Pubkey} {slot : Nat} {oo : PerpOpenOrder} (hoo : (s.slots a)[slot]? = some oo)
      (hm : oo.market = m) (hfree : m ≠ FREE_ORDER_SLOT)
      (hgone : ∀ o, (oo.sideAndTree.orderTree, o) ∈ s.leaves oo.sideAndTree.side → o.key ≠ oo.id) :
      Step m K s (s.withSlots a ((s.slots a).set slot .cleared))
  /-- the first event is a fill, its maker and then its taker process it -/
  | settleFill {f : FillEvent} {es : List AnyEvent} {lm lt : Ledger} {orders : List PerpOpenOrder}
      (hevents : s.events = .fill f :: es) (hm : s.ledger f.maker = some lm)
      (ht : (s.move f.maker lm (afterMaker f lm)).ledger f.taker = some lt)
      (hslots : MangoAccount.SlotUpdate m f.makerSlot f.makerOrderId f.makerOut
        (s.slots f.maker) orders) :
      Step m K s ((((s.move f.maker lm (afterMaker f lm)).move f.taker lt
        (afterTaker f lt)).withSlots f.maker orders).withEvents es)
  /-- the first event is an out event, its owner processes it -/
  | settleOut {e : OutEvent} {es : List AnyEvent} {l : Ledger} {orders : List PerpOpenOrder}
      (hevents : s.events = .out e :: es) (hl : s.ledger e.owner = some l)
      (hslots : MangoAccount.SlotUpdate m e.ownerSlot e.orderId true (s.slots e.owner) orders) :
      Step m K s (((s.move e.owner l (l.addMaker e.side (-e.quantity))).withSlots e.owner
        orders).withEvents es)
  /-- the first event is for record keeping only -/
  | skip {es : List AnyEvent} (hevents : s.events = .liquidate :: es) : Step m K s (s.withEvents es)
  /-- base lots go from account `b` to account `a` -/
  | transfer {a b : Pubkey} {la lb : Ledger} (x : Int) (hab : a ≠ b) (ha : s.ledger a = some la)
      (hb : s.ledger b = some lb) :
      Step m K s ((s.move a la (la.addBase x)).move b lb (lb.addBase (-x)))
  /-- an account gets a position -/
  | opened {a : Pubkey} (ha : s.ledger a = none) : Step m K s (s.withLedger a (some .zero))
  /-- an account gives up a position that counts nothing -/
  | closed {a : Pubkey} (ha : s.ledger a = some .zero) (hK : K s a) : Step m K s (s.withLedger a none)
  /-- slots that do not belong to the market change -/
  | elsewhere {slots : Pubkey → List PerpOpenOrder}
      (h : m ≠ FREE_ORDER_SLOT → ∀ a, MangoAccount.SameSlots m (s.slots a) (slots a))
      (hcount : ∀ a, (slots a).length = (s.slots a).length) : Step m K s { s with slots }

/-! ## Positions after a step -/

section Position

variable {s : Clearing} {a : Pubkey} {l l' : Ledger}

theorem position_eq (h : s.ledger a = some l) : s.position a = l := by
  rw [position, h, Option.getD_some]

theorem position_of_ledger_eq {s' : Clearing} (h : s'.ledger = s.ledger) :
    s'.position = s.position := by
  unfold position
  rw [h]

@[simp] theorem position_move : (s.move a l l').position = update s.position a l' := by
  funext b
  exact apply_update (fun _ (o : Option Ledger) => o.getD .zero) s.ledger a (some l') b

/-- Opening and closing a position does not change what the account counts. -/
theorem position_withLedger {o : Option Ledger} (h : o.getD .zero = s.position a) :
    (s.withLedger a o).position = s.position := by
  funext b
  unfold position
  rw [withLedger_ledger, apply_update (fun _ (o : Option Ledger) => o.getD .zero), h]
  exact congrFun (update_eq_self a s.position) b

/-- What any account counts after one of them has counted `l'` instead of `l`. -/
theorem apply_position_move {G : Type} [AddCommGroup G] (g : Ledger → G) (h : s.ledger a = some l)
    (l' : Ledger) (b : Pubkey) :
    g ((s.move a l l').position b) = g (s.position b) + if b = a then g l' - g l else 0 := by
  rw [position_move, apply_update_eq_add g, position_eq h]

theorem sum_position_move {G : Type} [AddCommGroup G] (g : Ledger → G) (h : s.ledger a = some l) :
    ∑ b, g ((s.move a l l').position b) = ∑ b, g (s.position b) + (g l' - g l) := by
  rw [position_move, sum_apply_update g, position_eq h]

end Position

/-- The key of an order was generated for an order of its side, up to number
    `n`; numbers start at 1. -/
def KeyedUpTo (n : Nat) (side : Side) (k : Key) : Prop :=
  ∃ priceData i, 1 ≤ i ∧ i ≤ n ∧ k = newNodeKey side priceData (BitVec.ofNat 64 i)

theorem KeyedUpTo.mono {n n' : Nat} {side : Side} {k : Key} (h : KeyedUpTo n side k)
    (hn : n ≤ n') : KeyedUpTo n' side k := by
  obtain ⟨priceData, i, hone, hi, hk⟩ := h
  exact ⟨priceData, i, hone, by omega, hk⟩

/-! ## Orders and events have positive quantities -/

/-- Orders and events are about a positive number of lots. -/
structure Positive (s : Clearing) : Prop where
  leaves : ∀ side, ∀ x ∈ s.leaves side, 0 < x.2.quantity
  events : ∀ e ∈ s.events, e.Positive

section Steps

variable {m : PerpMarketIndex} {K : Clearing → Pubkey → Prop} {s s' : Clearing}

/-- A property of the orders of each side, when the orders of one side are replaced. -/
theorem forall_leaves_update {P : Side → BookSideOrderTree × LeafNode → Prop}
    {leaves : Side → Multiset (BookSideOrderTree × LeafNode)} {side : Side}
    {ls : Multiset (BookSideOrderTree × LeafNode)}
    (h : ∀ side, ∀ x ∈ leaves side, P side x) (hls : ∀ x ∈ ls, P side x) :
    ∀ side', ∀ x ∈ update leaves side ls side', P side' x := by
  intro side' x hx
  by_cases hside : side' = side
  · subst hside
    rw [update_self] at hx
    exact hls x hx
  · rw [update_of_ne hside] at hx
    exact h side' x hx

theorem mem_withLeaves {side side' : Side} {ls : Multiset (BookSideOrderTree × LeafNode)}
    {x : BookSideOrderTree × LeafNode} (h : x ∈ (s.withLeaves side ls).leaves side') :
    x ∈ s.leaves side' ∨ side' = side ∧ x ∈ ls := by
  rw [withLeaves_leaves] at h
  by_cases hside : side' = side
  · subst hside
    rw [update_self] at h
    exact .inr ⟨rfl, h⟩
  · rw [update_of_ne hside] at h
    exact .inl h

/-- An order on the book after a step was there before, perhaps with more lots,
    or it is new. -/
theorem Step.leaf_cases (h : Step m K s s') {side : Side} {x : BookSideOrderTree × LeafNode}
    (hx : x ∈ s'.leaves side) :
    (∃ o quantity, (x.1, o) ∈ s.leaves side ∧ x.2 = { o with quantity } ∧
      (0 < o.quantity → 0 < quantity)) ∨
    0 < x.2.quantity ∧ KeyedUpTo s'.seqNum side x.2.key ∧ s'.ledger x.2.owner ≠ none ∧
      x.2.ownerSlot < (s.slots x.2.owner).length := by
  have hold : x ∈ s.leaves side → ∃ o quantity, (x.1, o) ∈ s.leaves side ∧
      x.2 = { o with quantity } ∧ (0 < o.quantity → 0 < quantity) :=
    fun hx => ⟨x.2, x.2.quantity, hx, rfl, id⟩
  have hrest : ∀ {side' : Side} {y : BookSideOrderTree × LeafNode}
      {rest : Multiset (BookSideOrderTree × LeafNode)}, s.leaves side' = y ::ₘ rest →
      x ∈ (s.withLeaves side' rest).leaves side → x ∈ s.leaves side := by
    intro side' y rest hleaf hx
    rcases mem_withLeaves hx with hx | ⟨rfl, hnew⟩
    · exact hx
    · exact hleaf ▸ Multiset.mem_cons_of_mem hnew
  cases h with
  | @fill side' c o rest f l hleaf hfill hl =>
    rcases mem_withLeaves hx with hx | ⟨rfl, hnew⟩
    · exact .inl (hold hx)
    · rcases Multiset.mem_add.mp hnew with hx | hx
      · obtain ⟨hne, rfl⟩ := mem_leftover hx
        have hle := hfill.le
        exact .inl ⟨o, _, hleaf ▸ Multiset.mem_cons_self _ _, rfl, fun _ => by omega⟩
      · exact .inl (hold (hleaf ▸ Multiset.mem_cons_of_mem hx))
  | drop hleaf _ => exact .inl (hold (hrest hleaf hx))
  | @post side' c o priceData l oo hseq hkey hpos hl hfree hmarket =>
    rcases mem_withLeaves (s := s.countOrder) hx with hx | ⟨rfl, hnew⟩
    · exact .inl (hold hx)
    · rcases Multiset.mem_cons.mp hnew with rfl | hx
      · refine .inr ⟨hpos, ⟨_, _, Nat.le_add_left .., Nat.le_refl _, hkey⟩, ?_,
          (List.getElem?_eq_some_iff.mp hfree).1⟩
        show update s.ledger o.owner (some _) o.owner ≠ none
        rw [update_self]
        exact Option.some_ne_none _
      · exact .inl (hold hx)
  | cancel _ _ _ hleaf _ _ _ _ => exact .inl (hold (hrest hleaf hx))
  | _ => exact .inl (hold hx)

/-- An event that is queued after a step was queued before, or it is about an
    order that was on the book. -/
theorem Step.event_cases (h : Step m K s s') {e : AnyEvent} (he : e ∈ s'.events) :
    e ∈ s.events ∨ ∃ side c o, (c, o) ∈ s.leaves side ∧
      ((∃ f takerSide, e = .fill f ∧ IsFill takerSide o f ∧ s.ledger f.taker ≠ none) ∨
        ∃ out, e = .out out ∧ IsOut side o out) := by
  cases h with
  | @fill side c o rest f l hleaf hfill hl =>
    rcases mem_append.mp he with he | he
    · exact .inl he
    · exact .inr ⟨_, c, o, hleaf ▸ Multiset.mem_cons_self _ _,
        .inl ⟨f, side, mem_singleton.mp he, hfill, hl ▸ Option.some_ne_none l⟩⟩
  | @drop side c o rest out hleaf hout =>
    rcases mem_append.mp he with he | he
    · exact .inl he
    · exact .inr ⟨side, c, o, hleaf ▸ Multiset.mem_cons_self _ _,
        .inr ⟨out, mem_singleton.mp he, hout⟩⟩
  | settleFill hevents _ _ _ => exact .inl (hevents ▸ mem_cons_of_mem _ he)
  | settleOut hevents _ _ => exact .inl (hevents ▸ mem_cons_of_mem _ he)
  | skip hevents => exact .inl (hevents ▸ mem_cons_of_mem _ he)
  | _ => exact .inl he

theorem Step.positive (h : Step m K s s') (hs : s.Positive) : s'.Positive := by
  refine ⟨fun side x hx => ?_, fun e he => ?_⟩
  · rcases h.leaf_cases hx with ⟨o, quantity, ho, hx, hpos⟩ | ⟨hpos, -⟩
    · rw [hx]
      exact hpos (hs.leaves side _ ho)
    · exact hpos
  · rcases h.event_cases he with hold | ⟨side, c, o, ho, ⟨f, _, rfl, hfill, -⟩ | ⟨out, rfl, hout⟩⟩
    · exact hs.events e hold
    · exact hfill.pos
    · show 0 < out.quantity
      rw [hout.quantity]
      exact hs.leaves side _ ho

/-! ## Keys are numbered -/

/-- The next key of a side is new. -/
theorem KeyedUpTo.ne_next {n : Nat} {side : Side} {k : Key} (h : KeyedUpTo n side k)
    (hn : n + 1 < 2 ^ 64) (priceData : BitVec 64) :
    k ≠ newNodeKey side priceData (BitVec.ofNat 64 (n + 1)) := by
  obtain ⟨priceData', i, -, hi, rfl⟩ := h
  intro heq
  have hseq := congrArg BitVec.toNat (newNodeKey_inj heq).2
  rw [BitVec.toNat_ofNat, BitVec.toNat_ofNat, Nat.mod_eq_of_lt (by omega),
    Nat.mod_eq_of_lt hn] at hseq
  omega

/-- All keys on the book have been generated by the market. -/
structure Keyed (s : Clearing) : Prop where
  seqNum_lt : s.seqNum < 2 ^ 64
  leaves : ∀ side, ∀ x ∈ s.leaves side, KeyedUpTo s.seqNum side x.2.key

theorem Step.seqNum_cases (h : Step m K s s') :
    s'.seqNum = s.seqNum ∨ s'.seqNum = s.seqNum + 1 ∧ s.seqNum + 1 < 2 ^ 64 := by
  cases h with
  | count hseq => exact .inr ⟨rfl, hseq⟩
  | post hseq _ _ _ _ _ => exact .inr ⟨rfl, hseq⟩
  | _ => exact .inl rfl

theorem Step.seqNum_le (h : Step m K s s') : s.seqNum ≤ s'.seqNum := by
  have hcases := h.seqNum_cases
  omega

theorem Step.keyed (h : Step m K s s') (hs : s.Keyed) : s'.Keyed := by
  have hseq := h.seqNum_cases
  have hlt := hs.seqNum_lt
  refine ⟨by omega, fun side x hx => ?_⟩
  rcases h.leaf_cases hx with ⟨o, quantity, ho, hx, -⟩ | ⟨-, hkey, -⟩
  · rw [hx]
    exact (hs.leaves side _ ho).mono h.seqNum_le
  · exact hkey

theorem steps_positive (h : ReflTransGen (Step m K) s s') (hs : s.Positive) : s'.Positive :=
  invariant_of_steps (J := Positive) (fun _ _ hs hstep => hstep.positive hs) h hs

theorem steps_keyed (h : ReflTransGen (Step m K) s s') (hs : s.Keyed) : s'.Keyed :=
  invariant_of_steps (J := Keyed) (fun _ _ hs hstep => hstep.keyed hs) h hs

end Steps

/-! ## The counters balance -/

/-- Lots of queued events that will be released from the open orders of an account. -/
def queuedLots (s : Clearing) (a : Pubkey) (side : Side) : Int :=
  (s.events.map (AnyEvent.makerLots a side)).sum

/-- Base and quote change of the queued fills an account has taken. -/
def queuedTaker (s : Clearing) (a : Pubkey) : Int × Int := (s.events.map (AnyEvent.takerLots a)).sum

/-- Lots in open orders are on the book or wait on the queue. -/
def MakerBalanced (s : Clearing) : Prop :=
  ∀ a side, (s.position a).maker side = ownLots a (s.leaves side) + s.queuedLots a side

/-- Taker lots wait on the queue. -/
def TakerBalanced (s : Clearing) : Prop := ∀ a, (s.position a).taker = s.queuedTaker a

/-- Every base lot that is long is short somewhere else. -/
def BaseBalanced (s : Clearing) : Prop := ∑ a, (s.position a).base = 0

/-- The open interest counts the lots of all positions. -/
def InterestBalanced (s : Clearing) : Prop := s.openInterest = ∑ a, |(s.position a).base|

section Balance

variable {m : PerpMarketIndex} {K : Clearing → Pubkey → Prop} {s s' : Clearing}

/-- What an account counts over what is on the book and on the queue, for its
    open orders on a side and for its taker lots. -/
def surplus (s : Clearing) (a : Pubkey) (side : Side) : Int × Int × Int :=
  ((s.position a).maker side - (ownLots a (s.leaves side) + s.queuedLots a side),
    (s.position a).taker - s.queuedTaker a)

section Surplus

variable (a : Pubkey) (side : Side)

theorem surplus_move {b : Pubkey} {l : Ledger} (h : s.ledger b = some l) (l' : Ledger) :
    (s.move b l l').surplus a side = s.surplus a side +
      if b = a then (l'.maker side - l.maker side, l'.taker - l.taker) else 0 := by
  simp only [eq_comm (a := b), surplus, queuedLots, queuedTaker, apply_position_move (maker · side) h,
    apply_position_move taker h, move_leaves, move_events]
  split_ifs <;> ext <;> simp <;> ring

theorem surplus_withLeaves (side' : Side) (ls : Multiset (BookSideOrderTree × LeafNode)) :
    (s.withLeaves side' ls).surplus a side = s.surplus a side +
      (if side' = side then ownLots a (s.leaves side') - ownLots a ls else 0, 0) := by
  simp only [eq_comm (a := side'), surplus, withLeaves_leaves, apply_update_eq_add (ownLots a)]
  split_ifs <;> ext <;> simp [position, queuedLots, queuedTaker]
  ring

theorem surplus_push (e : AnyEvent) :
    (s.push e).surplus a side = s.surplus a side - (e.makerLots a side, e.takerLots a) := by
  ext <;> simp [surplus, position, queuedLots, queuedTaker] <;> ring

theorem surplus_withEvents (e : AnyEvent) {es : List AnyEvent} (h : s.events = e :: es) :
    (s.withEvents es).surplus a side = s.surplus a side + (e.makerLots a side, e.takerLots a) := by
  ext <;> simp [surplus, position, queuedLots, queuedTaker, h] <;> ring

end Surplus

/-- Lots that leave a counter come to another one. -/
theorem Step.surplus_eq (h : Step m K s s') (a : Pubkey) (side : Side) :
    s'.surplus a side = s.surplus a side := by
  cases h with
  | fill hleaf hfill hl =>
    -- the lots of the fill go from the book to the queue
    rw [surplus_move a side (by exact hl), surplus_push, surplus_withLeaves, hleaf]
    simp only [ownLots_add, ownLots_leftover, ownLots_cons, makerLots, takerLots,
      hfill.maker, hfill.takerSide, maker_addTaker, taker_addTaker, ite_and]
    split_ifs <;> ext <;> simp
  | drop hleaf hout =>
    rw [surplus_push, surplus_withLeaves, hleaf]
    simp only [ownLots_cons, makerLots, takerLots, hout.owner, hout.side,
      hout.quantity, ite_and]
    split_ifs <;> ext <;> simp
  | @post side' c o priceData l oo hseq hkey hpos hl hfree hmarket =>
    show (((s.countOrder.withLeaves side' _).move o.owner l _).surplus a side) = _
    rw [surplus_move a side (by exact hl), surplus_withLeaves]
    simp only [ownLots_cons, maker_addMaker, taker_addMaker, eq_comm (a := side)]
    show s.surplus a side + _ + _ = _
    split_ifs <;> ext <;> simp
  | @cancel b slot oo o rest l hoo hm hfree hleaf hid howner hslot hl =>
    show (((s.withLeaves oo.sideAndTree.side rest).move b l _).surplus a side) = _
    rw [surplus_move a side (by exact hl), surplus_withLeaves, hleaf]
    simp only [ownLots_cons, maker_addMaker, taker_addMaker, eq_comm (a := side), howner]
    split_ifs <;> ext <;> simp
  | @settleFill f es lm lt orders hevents hm ht hslots =>
    rw [surplus_withEvents a side (.fill f) (by exact hevents)]
    show ((s.move f.maker lm _).move f.taker lt _).surplus a side + _ = _
    rw [surplus_move a side ht, surplus_move a side hm]
    simp only [makerLots, takerLots, afterMaker, afterTaker, maker_addBase,
      maker_addTaker, taker_addBase, taker_addTaker, maker_addMaker, taker_addMaker, ite_and,
      eq_comm (a := side)]
    split_ifs <;> ext <;> simp
  | @settleOut e es l orders hevents hl hslots =>
    rw [surplus_withEvents a side (.out e) (by exact hevents)]
    show (s.move e.owner l _).surplus a side + _ = _
    rw [surplus_move a side hl]
    simp only [makerLots, takerLots, maker_addMaker, taker_addMaker, ite_and,
      eq_comm (a := side)]
    split_ifs <;> ext <;> simp
  | skip hevents =>
    rw [surplus_withEvents a side .liquidate hevents]
    exact add_zero _
  | transfer x hab ha hb =>
    rw [surplus_move a side (by rw [move_ledger, update_of_ne hab.symm]; exact hb),
      surplus_move a side ha]
    simp only [maker_addBase, taker_addBase, sub_self, Prod.mk_zero_zero, ite_self, add_zero]
  | opened ha =>
    unfold surplus
    rw [position_withLedger (by rw [position, ha]; rfl)]
    rfl
  | closed ha _ =>
    unfold surplus
    rw [position_withLedger (by rw [position, ha]; rfl)]
    rfl
  | _ => rfl

theorem Step.makerBalanced (h : Step m K s s') (hs : s.MakerBalanced) : s'.MakerBalanced := by
  intro a side
  have hfst := congrArg Prod.fst (h.surplus_eq a side)
  simp only [surplus, hs a side, sub_self] at hfst
  exact sub_eq_zero.mp hfst

theorem Step.takerBalanced (h : Step m K s s') (hs : s.TakerBalanced) : s'.TakerBalanced := by
  intro a
  have hsnd := congrArg Prod.snd (h.surplus_eq a .bid)
  simp only [surplus, hs a, sub_self] at hsnd
  exact sub_eq_zero.mp hsnd

/-- What a step does to base positions and open interest: nothing, or one
    account after the other moves by opposite amounts. -/
inductive BaseChange (s s' : Clearing) : Prop
  | kept (hbase : ∀ a, (s'.position a).base = (s.position a).base)
      (hinterest : s'.openInterest = s.openInterest)
  | moved {a b : Pubkey} {la la' lb lb' : Ledger} (ha : s.ledger a = some la)
      (hb : (s.move a la la').ledger b = some lb)
      (hsum : (la'.base - la.base) + (lb'.base - lb.base) = 0)
      (hposition : s'.position = ((s.move a la la').move b lb lb').position)
      (hinterest : s'.openInterest = ((s.move a la la').move b lb lb').openInterest)

/-- A move of lots that are not base lots. -/
theorem BaseChange.of_move {a : Pubkey} {l l' : Ledger} (hl : s.ledger a = some l)
    (hbase : l'.base = l.base) (hposition : s'.position = (s.move a l l').position)
    (hinterest : s'.openInterest = s.openInterest + (|l'.base| - |l.base|)) : BaseChange s s' := by
  refine .kept (fun b => ?_) ?_
  · rw [hposition, apply_position_move base hl, hbase, sub_self, ite_self, add_zero]
  · rw [hinterest, hbase, sub_self, add_zero]

theorem Step.baseChange (h : Step m K s s') : BaseChange s s' := by
  cases h with
  | count _ => exact .kept (fun _ => rfl) rfl
  | fill _ _ hl => exact .of_move hl (base_addTaker ..) rfl rfl
  | drop _ _ => exact .kept (fun _ => rfl) rfl
  | post _ _ _ hl _ _ => exact .of_move hl (base_addMaker ..) rfl rfl
  | cancel _ _ _ _ _ _ _ hl => exact .of_move hl (base_addMaker ..) rfl rfl
  | forget _ _ _ _ => exact .kept (fun _ => rfl) rfl
  | @settleFill f es lm lt orders hevents hm ht hslots =>
    refine .moved hm ht ?_ rfl rfl
    simp only [afterMaker, afterTaker, base_addMaker, base_addBase,
      base_addTaker, FillEvent.change_invertSide, Prod.fst_neg]
    omega
  | settleOut _ hl _ => exact .of_move hl (base_addMaker ..) rfl rfl
  | skip _ => exact .kept (fun _ => rfl) rfl
  | @transfer a b la lb x hab ha hb =>
    refine .moved ha ?_ ?_ rfl rfl
    · rw [move_ledger, update_of_ne (Ne.symm hab)]
      exact hb
    · rw [base_addBase, base_addBase]
      omega
  | opened ha =>
    exact .kept (fun b => by rw [position_withLedger (by rw [position, ha]; rfl)]) rfl
  | closed ha _ =>
    exact .kept (fun b => by rw [position_withLedger (by rw [position, ha]; rfl)]) rfl
  | elsewhere _ => exact .kept (fun _ => rfl) rfl

theorem BaseChange.baseBalanced (h : BaseChange s s') (hs : s.BaseBalanced) : s'.BaseBalanced := by
  unfold BaseBalanced at *
  cases h with
  | kept hbase _ => rw [Finset.sum_congr rfl fun a _ => hbase a, hs]
  | moved ha hb hsum hposition _ =>
    rw [hposition, sum_position_move base hb, sum_position_move base ha, hs]
    omega

theorem BaseChange.interestBalanced (h : BaseChange s s') (hs : s.InterestBalanced) :
    s'.InterestBalanced := by
  unfold InterestBalanced at *
  cases h with
  | kept hbase hinterest =>
    rw [hinterest, hs]
    exact Finset.sum_congr rfl fun a _ => by rw [hbase a]
  | moved ha hb _ hposition hinterest =>
    rw [hposition, hinterest, sum_position_move (fun l => |l.base|) hb,
      sum_position_move (fun l => |l.base|) ha, ← hs]
    rfl

end Balance

end Clearing

/-! ## Released orders -/

namespace Ledger

variable {l l' l'' : Ledger} {side side' : Side}

/-- Lots that orders on a side can take from the position, with the fills that
    still wait on the queue: of a long position for asks, of a short one for
    bids. -/
def exposure (l : Ledger) : Side → Int
  | .bid => -(l.base + l.takerBase)
  | .ask => l.base + l.takerBase

theorem exposure_invertSide (l : Ledger) (side : Side) :
    l.exposure side.invertSide = -l.exposure side := by
  cases side with
  | bid => exact (neg_neg _).symm
  | ask => rfl

/-- What cancels and the processing of events do: open orders of each side are
    filled, and others are dropped. -/
def Releases (l l' : Ledger) : Prop :=
  ∃ filled dropped : Side → Int, (∀ side, 0 ≤ filled side ∧ 0 ≤ dropped side) ∧
    (∀ side, l'.maker side = l.maker side - filled side - dropped side) ∧
    ∀ side, l'.exposure side = l.exposure side - filled side + filled side.invertSide

theorem Releases.refl (l : Ledger) : Releases l l :=
  ⟨fun _ => 0, fun _ => 0, fun _ => ⟨le_rfl, le_rfl⟩, fun _ => by simp, fun _ => by simp⟩

theorem Releases.trans (h : Releases l l') (h' : Releases l' l'') : Releases l l'' := by
  obtain ⟨filled, dropped, hnonneg, hmaker, hexposure⟩ := h
  obtain ⟨filled', dropped', hnonneg', hmaker', hexposure'⟩ := h'
  refine ⟨fun side => filled side + filled' side, fun side => dropped side + dropped' side,
    fun side => ?_, fun side => ?_, fun side => ?_⟩ <;> dsimp only
  · have hfirst := hnonneg side
    have hsecond := hnonneg' side
    omega
  · rw [hmaker', hmaker]
    omega
  · rw [hexposure', hexposure]
    omega

variable {lots : Int}

/-- Lots of open orders are dropped. -/
theorem Releases.drop (l : Ledger) (side : Side) (hlots : 0 ≤ lots) :
    Releases l (l.addMaker side (-lots)) := by
  refine ⟨fun _ => 0, fun side' => if side' = side then lots else 0, fun side' => ?_,
    fun side' => ?_, fun side' => ?_⟩ <;> dsimp only
  · split <;> omega
  · rw [maker_addMaker]
    split <;> omega
  · have hsame : (l.addMaker side (-lots)).exposure side' = l.exposure side' := by
      cases side <;> cases side' <;> rfl
    omega

/-- An open order on `side` is filled: the base position moves with it. -/
theorem Releases.fill (l : Ledger) (side : Side) {x : Int} (hlots : 0 ≤ lots)
    (hx : x = (takerChange side lots 0).1) :
    Releases l ((l.addBase x).addMaker side (-lots)) := by
  subst hx
  refine ⟨fun side' => if side' = side then lots else 0, fun _ => 0, fun side' => ?_,
    fun side' => ?_, fun side' => ?_⟩ <;> dsimp only
  · split <;> omega
  · rw [maker_addMaker, maker_addBase]
    split <;> omega
  · cases side <;> cases side' <;> simp [exposure, addMaker, addBase, takerChange, Side.invertSide]
      <;> omega

/-- A fill that the account has taken moves from the queue to the base position. -/
theorem Releases.taken (l : Ledger) {change : Int × Int} :
    Releases l ((l.addTaker (-change)).addBase change.1) := by
  refine ⟨fun _ => 0, fun _ => 0, fun _ => ⟨le_rfl, le_rfl⟩, fun side => ?_, fun side => ?_⟩ <;>
    dsimp only
  · rw [maker_addBase, maker_addTaker]
    omega
  · cases side <;> simp [exposure, addTaker, addBase] <;> omega

end Ledger

namespace Clearing

variable {m : PerpMarketIndex} {K : Clearing → Pubkey → Prop} {s s' : Clearing}

theorem releases_move {a : Pubkey} {l l' : Ledger} (hl : s.ledger a = some l) (h : l.Releases l')
    (b : Pubkey) : (s.position b).Releases ((s.move a l l').position b) := by
  rw [position_move]
  by_cases hb : b = a
  · subst hb
    rw [Function.update_self, position_eq hl]
    exact h
  · rw [Function.update_of_ne hb]
    exact .refl _

/-- A step that takes an event off the queue releases open orders. -/
theorem Step.releases (h : Step m K s s') (hpos : s.Positive)
    (hlen : s'.events.length < s.events.length) (a : Pubkey) :
    (s.position a).Releases (s'.position a) := by
  cases h with
  | @settleFill f es lm lt orders hevents hm ht hslots =>
    have hf : 0 < f.quantity := hpos.events (.fill f) (hevents ▸ mem_cons_self ..)
    have hmaker : lm.Releases (afterMaker f lm) := by
      apply Ledger.Releases.fill lm f.takerSide.invertSide hf.le
      cases f.takerSide <;> rfl
    have htaker : lt.Releases (afterTaker f lt) := .taken lt
    exact (releases_move hm hmaker a).trans (releases_move ht htaker a)
  | @settleOut e es l orders hevents hl hslots =>
    have he : 0 < e.quantity := hpos.events (.out e) (hevents ▸ mem_cons_self ..)
    exact releases_move hl (.drop l e.side he.le) a
  | skip hevents => exact .refl _
  -- all others leave the queue or add to it
  | fill _ _ _ => simp at hlen
  | drop _ _ => simp at hlen
  | count _ => exact absurd hlen (Nat.lt_irrefl _)
  | post _ _ _ _ _ _ => exact absurd hlen (Nat.lt_irrefl _)
  | cancel _ _ _ _ _ _ _ _ => exact absurd hlen (Nat.lt_irrefl _)
  | forget _ _ _ _ => exact absurd hlen (Nat.lt_irrefl _)
  | transfer _ _ _ _ => exact absurd hlen (Nat.lt_irrefl _)
  | opened _ => exact absurd hlen (Nat.lt_irrefl _)
  | closed _ _ => exact absurd hlen (Nat.lt_irrefl _)
  | elsewhere _ => exact absurd hlen (Nat.lt_irrefl _)

end Clearing

end MangoV4
