/-
  MangoV4.Orderbook.BookSideOrders

  The orders of a book side as a multiset.

  Callers of a book side do not care about trees and slots: what they see is
  which orders are in which component.  Each operation is described once, by
  what it does to `leaves`.  Slots only matter to the matching engine, which
  changes the quantity of an order through its handle; `taggedCells` keeps
  them.
-/

import MangoV4.Orderbook.BookSideOrder
import Mathlib.Data.Multiset.Basic

namespace MangoV4

open Lib Lib.Exec Lib.CritBit Multiset Function NodeTree BitVec

namespace NodeTree

/-- The slots of the leaves are among the slots of the tree. -/
theorem leaves_sublist_handles (t : NodeTree) : (t.leaves.map Prod.fst).Sublist (handles t) := by
  induction t with
  | leaf x => exact List.Sublist.refl _
  | inner i l r ihl ihr =>
    rw [Tree.leaves, List.map_append]
    exact (ihl.append ihr).cons _

/-- A leaf with another quantity, if it is the one in slot `h`. -/
def setAt (h : NodeHandle) (quantity : Int) (x : LeafCell) : LeafCell :=
  if x.1 = h then (x.1, { x.2 with quantity }) else x

variable {h : NodeHandle} {quantity : Int}

@[simp] theorem setAt_fst (x : LeafCell) : (setAt h quantity x).1 = x.1 := by
  unfold setAt
  split <;> rfl

theorem setAt_key (x : LeafCell) : (setAt h quantity x).2.key = x.2.key := by
  unfold setAt
  split <;> rfl

theorem root_setAt (t : NodeTree) : root (t.mapLeaves (setAt h quantity)) = root t := by
  cases t with
  | leaf x => exact setAt_fst x
  | inner i l r => rfl

theorem handles_setAt (t : NodeTree) : handles (t.mapLeaves (setAt h quantity)) = handles t := by
  induction t with
  | leaf x => exact congrArg (fun y => [y]) (setAt_fst x)
  | inner i l r ihl ihr =>
    show i.1 :: (handles (l.mapLeaves _) ++ handles (r.mapLeaves _)) = _
    rw [ihl, ihr]
    rfl

/-- Rewriting the slot of one leaf. -/
theorem Held.setAt {nodes : NodeHandle → AnyNode} {o : LeafNode} (hslot : nodes h = .leaf o)
    {t : NodeTree} (ht : Held nodes t) :
    Held (update nodes h (.leaf { o with quantity }))
      (t.mapLeaves (setAt h quantity)) := by
  induction t with
  | leaf x =>
    have hx : nodes x.1 = .leaf x.2 := ht
    show update nodes h _ (NodeTree.setAt h quantity x).1 =
      .leaf (NodeTree.setAt h quantity x).2
    by_cases hxh : x.1 = h
    · rw [hxh, hslot] at hx
      injection hx with hx
      rw [NodeTree.setAt, if_pos hxh, hxh, update_self, hx]
    · rw [NodeTree.setAt, if_neg hxh, update_of_ne hxh]
      exact hx
  | inner i l r ihl ihr =>
    obtain ⟨hi, hch, hl, hr⟩ := ht
    -- the slot of an inner node is not that of a leaf
    have hne : i.1 ≠ h := by
      intro heq
      rw [heq, hslot] at hi
      cases hi
    refine ⟨?_, ?_, ihl hl, ihr hr⟩
    · rw [update_of_ne hne]
      exact hi
    · rw [root_setAt, root_setAt]
      exact hch

end NodeTree

/-! ## Elements of both components -/

section TagBoth

variable {α β : Type}

/-- The elements of both components, each with its component. -/
def tagBoth (f : BookSideOrderTree → Multiset α) : Multiset (BookSideOrderTree × α) :=
  (f .fixed).map (Prod.mk .fixed) + (f .oraclePegged).map (Prod.mk .oraclePegged)

theorem mem_tagBoth {f : BookSideOrderTree → Multiset α} {c : BookSideOrderTree} {x : α} :
    (c, x) ∈ tagBoth f ↔ x ∈ f c := by
  unfold tagBoth
  cases c <;> simp

theorem nodup_tagBoth {f : BookSideOrderTree → Multiset α} (h : ∀ c, (f c).Nodup) :
    (tagBoth f).Nodup := by
  have hmap : ∀ c, ((f c).map (Prod.mk c)).Nodup :=
    fun c => (h c).map fun x y hxy => (Prod.mk.inj hxy).2
  refine nodup_add.mpr ⟨hmap _, hmap _, disjoint_left.mpr fun hx hx' => ?_⟩
  obtain ⟨y, -, rfl⟩ := mem_map.mp hx
  obtain ⟨z, -, hz⟩ := mem_map.mp hx'
  cases hz

theorem tagBoth_map (f : BookSideOrderTree → Multiset α) (g : α → β) :
    (tagBoth f).map (Prod.map id g) = tagBoth fun c => (f c).map g := by
  unfold tagBoth
  rw [map_add, map_map, map_map, map_map, map_map]
  rfl

theorem tagBoth_update_cons (f : BookSideOrderTree → Multiset α) (c : BookSideOrderTree) (x : α)
    (s : Multiset α) :
    tagBoth (update f c (x ::ₘ s)) = (c, x) ::ₘ tagBoth (update f c s) := by
  unfold tagBoth
  cases c with
  | fixed => simp
  | oraclePegged => simp

end TagBoth

/-! ## Resting orders -/

/-- The current price of a resting order. -/
def restingPrice (side : Side) (oraclePriceLots : Int) : BookSideOrderTree × LeafNode → Int
  | (.fixed, o) => o.priceData.toNat
  | (.oraclePegged, o) => (oraclePeggedPrice oraclePriceLots o side).2

/-- The order has not expired; a pegged order also has a representable price
    that is not better than its peg limit. -/
def restingValid (side : Side) (nowTs : Nat) (oraclePriceLots : Int) :
    BookSideOrderTree × LeafNode → Bool
  | (.fixed, o) => !o.expiredAt nowTs
  | (.oraclePegged, o) => !o.expiredAt nowTs &&
      decide ((oraclePeggedPrice oraclePriceLots o side).1 = .valid)

/-- The lower half of a key: the sequence number, inverted for bids. -/
def seqPart : Side → BitVec 64 → Nat
  | .bid, seqNum => 2 ^ 64 - 1 - seqNum.toNat
  | .ask, seqNum => seqNum.toNat

theorem seqPart_lt (side : Side) (seqNum : BitVec 64) : seqPart side seqNum < 2 ^ 64 := by
  cases side <;> simp only [seqPart] <;> omega

theorem newNodeKey_toNat (side : Side) (priceData seqNum : BitVec 64) :
    (newNodeKey side priceData seqNum).toNat = priceData.toNat * 2 ^ 64 + seqPart side seqNum := by
  cases side with
  | bid => exact (toNat_join ..).trans (by rw [toNat_not, seqPart])
  | ask => exact toNat_join ..

theorem newNodeKey_low (side : Side) (priceData seqNum : BitVec 64) :
    (newNodeKey side priceData seqNum).toNat % 2 ^ 64 = seqPart side seqNum := by
  have hlt := seqPart_lt side seqNum
  rw [newNodeKey_toNat]
  omega

/-- Bids count down from the top, so that the sides share no key for a long time. -/
theorem newNodeKey_ne_of_side {side side' : Side} (hside : side ≠ side')
    (priceData priceData' : BitVec 64) {seqNum seqNum' : BitVec 64} (h : seqNum.toNat < 2 ^ 63)
    (h' : seqNum'.toNat < 2 ^ 63) :
    newNodeKey side priceData seqNum ≠ newNodeKey side' priceData' seqNum' := by
  intro heq
  have hlow := newNodeKey_low side priceData seqNum
  rw [heq, newNodeKey_low] at hlow
  cases side <;> cases side' <;> simp only [seqPart, ne_eq, not_true_eq_false] at hside hlow
    <;> omega

/-- The key of a posted order starts with its price data. -/
theorem priceData_of_newNodeKey {o : LeafNode} {side : Side} {priceData seqNum : BitVec 64}
    (h : o.key = newNodeKey side priceData seqNum) : o.priceData = priceData := by
  have hlt := seqPart_lt side seqNum
  apply eq_of_toNat_eq
  rw [priceData_toNat, h, newNodeKey_toNat]
  omega

/-- Price data and sequence number can be read off a key. -/
theorem newNodeKey_inj {side : Side} {priceData priceData' seqNum seqNum' : BitVec 64}
    (h : newNodeKey side priceData seqNum = newNodeKey side priceData' seqNum') :
    priceData = priceData' ∧ seqNum = seqNum' := by
  have hnat := congrArg BitVec.toNat h
  rw [newNodeKey_toNat, newNodeKey_toNat] at hnat
  have hlow := seqPart_lt side seqNum
  have hlow' := seqPart_lt side seqNum'
  refine ⟨eq_of_toNat_eq (by omega), eq_of_toNat_eq ?_⟩
  cases side with
  | bid =>
    simp only [seqPart] at *
    omega
  | ask =>
    simp only [seqPart] at *
    omega

namespace BookSide

/-- The leaves of a component with their slots. -/
def cellSet (b : BookSide) (c : BookSideOrderTree) : Multiset LeafCell :=
  match b.iterComponent c with
  | .ok cells => cells
  | .error _ => 0

/-- The leaves of both components with their slots. -/
def taggedCells (b : BookSide) : Multiset (BookSideOrderTree × LeafCell) := tagBoth b.cellSet

/-- The orders of both components. -/
def leaves (b : BookSide) : Multiset (BookSideOrderTree × LeafNode) :=
  b.taggedCells.map (Prod.map id Prod.snd)

section Layout

variable {b : BookSide} {tree : BookSideOrderTree → Option NodeTree} {free : List NodeHandle}

theorem cellSet_eq (h : Layout b tree free) (c : BookSideOrderTree) :
    b.cellSet c = optLeaves (tree c) := by
  unfold cellSet
  rw [iterComponent_eq h]
  exact coe_eq_coe.mpr (OrderTreeIter.rootInOrder_perm _ (tree c))

theorem leaves_eq (h : Layout b tree free) : b.leaves = tagBoth fun c => ↑(optOrders (tree c)) := by
  rw [leaves, taggedCells, tagBoth_map]
  congr 1
  funext c
  rw [cellSet_eq h, optOrders_eq, map_coe]

theorem mem_leaves (h : Layout b tree free) (c : BookSideOrderTree) (o : LeafNode) :
    (c, o) ∈ b.leaves ↔ o ∈ optOrders (tree c) := by
  rw [leaves_eq h, mem_tagBoth, mem_coe]

/-- One order more in component `c`. -/
theorem leaves_cons {b' : BookSide} {tree' : BookSideOrderTree → Option NodeTree}
    {free' : List NodeHandle} {c : BookSideOrderTree} {o : LeafNode} (h : Layout b tree free)
    (h' : Layout b' tree' free') (hother : ∀ c', c' ≠ c → tree' c' = tree c')
    (hperm : (optOrders (tree c)).Perm (o :: optOrders (tree' c))) :
    b.leaves = (c, o) ::ₘ b'.leaves := by
  have hupdate : (fun c' => (optOrders (tree c') : Multiset LeafNode)) =
      update (fun c' => (optOrders (tree' c') : Multiset LeafNode)) c
        (o ::ₘ (optOrders (tree' c) : Multiset LeafNode)) := by
    funext c'
    by_cases hc : c' = c
    · subst hc
      rw [update_self]
      exact coe_eq_coe.mpr hperm
    · rw [update_of_ne hc, hother c' hc]
  rw [leaves_eq h, leaves_eq h', hupdate, tagBoth_update_cons, update_eq_self]

end Layout

theorem WellFormed.isLeafOf_iff {b : BookSide} (h : b.WellFormed) (c : BookSideOrderTree)
    (o : LeafNode) : IsLeafOf b c o ↔ (c, o) ∈ b.leaves := by
  obtain ⟨tree, free, h⟩ := h
  rw [mem_leaves h]
  exact BookSide.isLeafOf_iff h c o

/-- Two orders of a component with the same key are the same. -/
theorem WellFormed.eq_of_key {b : BookSide} (h : b.WellFormed) {c : BookSideOrderTree}
    {o o' : LeafNode} (ho : (c, o) ∈ b.leaves) (ho' : (c, o') ∈ b.leaves)
    (hkey : o.key = o'.key) : o = o' := by
  obtain ⟨tree, free, h⟩ := h
  rw [mem_leaves h] at ho ho'
  exact List.inj_on_of_nodup_map (h.held c).keys_nodup ho ho' hkey

theorem WellFormed.leaves_nodup {b : BookSide} (h : b.WellFormed) : b.leaves.Nodup := by
  obtain ⟨tree, free, h⟩ := h
  rw [leaves_eq h]
  exact nodup_tagBoth fun c => ((h.held c).keys_nodup).of_map

/-- `b'` is a book side of the same type with the orders `ls`. -/
structure Becomes (b b' : BookSide) (ls : Multiset (BookSideOrderTree × LeafNode)) : Prop where
  wf : b'.WellFormed
  type_eq : b'.nodes.orderTreeType = b.nodes.orderTreeType
  leaves_eq : b'.leaves = ls

theorem leaves_zeroed (orderTreeType : OrderTreeType) : (zeroed orderTreeType).leaves = 0 :=
  leaves_eq (zeroed_layout orderTreeType)

/-! ## What the operations do to the orders -/

section Spec

variable {b b' : BookSide} {tree : BookSideOrderTree → Option NodeTree} {free free' : List NodeHandle}

variable {c : BookSideOrderTree}

/-- An outcome that takes one order out of component `c`. -/
theorem becomes_of_removed {s' : Option NodeTree} {o : LeafNode}
    (h : Layout b tree free) (h' : Layout b' (update tree c s') free')
    (htype : b'.nodes.orderTreeType = b.nodes.orderTreeType)
    (hperm : (optOrders (tree c)).Perm (o :: optOrders s')) :
    ∃ rest, b.leaves = (c, o) ::ₘ rest ∧ Becomes b b' rest := by
  refine ⟨b'.leaves, ?_, ⟨_, _, h'⟩, htype, rfl⟩
  refine leaves_cons h h' (fun c' hc => update_of_ne hc ..) ?_
  rw [update_self]
  exact hperm

theorem removeByKey_spec (hwf : b.WellFormed) {k : Key}
    {r : Option LeafNode} (h : b.removeByKey c k = .ok (r, b')) :
    (r = none ∧ b' = b ∧ ∀ o, (c, o) ∈ b.leaves → o.key ≠ k) ∨
    (∃ o rest, r = some o ∧ o.key = k ∧ b.leaves = (c, o) ::ₘ rest ∧ Becomes b b' rest) := by
  obtain ⟨tree, free, hl⟩ := hwf
  have hout := removeByKey_outcome hl c k
  rw [h] at hout
  generalize hr : (Except.ok (r, b') : Exec _) = out at hout
  cases hout with
  | overflow _ => cases hr
  | absent hk =>
    obtain ⟨rfl, rfl⟩ := ok_inj₂ hr
    refine Or.inl ⟨rfl, rfl, fun o ho heq => hk ?_⟩
    rw [mem_leaves hl] at ho
    exact heq ▸ List.mem_map_of_mem ho
  | removed hlayout htype hkey hperm =>
    obtain ⟨rfl, rfl⟩ := ok_inj₂ hr
    obtain ⟨rest, hleaves, hb⟩ := becomes_of_removed hl hlayout htype hperm
    exact Or.inr ⟨_, rest, rfl, hkey, hleaves, hb⟩

theorem removeOneExpired_spec (hwf : b.WellFormed)
    {nowTs : Nat} {r : Option LeafNode} (h : b.removeOneExpired c nowTs = .ok (r, b')) :
    (r = none ∧ b' = b) ∨
    (∃ c' o rest, r = some o ∧ b.leaves = (c', o) ::ₘ rest ∧ Becomes b b' rest) := by
  obtain ⟨tree, free, hl⟩ := hwf
  have hout := removeOneExpired_outcome hl c nowTs
  rw [h] at hout
  generalize hr : (Except.ok (r, b') : Exec _) = out at hout
  cases hout with
  | overflow _ => cases hr
  | kept =>
    obtain ⟨rfl, rfl⟩ := ok_inj₂ hr
    exact Or.inl ⟨rfl, rfl⟩
  | removed hlayout htype hperm =>
    obtain ⟨rfl, rfl⟩ := ok_inj₂ hr
    obtain ⟨rest, hleaves, hb⟩ := becomes_of_removed hl hlayout htype hperm
    exact Or.inr ⟨_, _, rest, rfl, hleaves, hb⟩

theorem removeWorst_spec (hwf : b.WellFormed) {nowTs : Nat}
    {oracle : Int} {r : Option (LeafNode × Int)}
    (h : b.removeWorst nowTs oracle = .ok (r, b')) :
    (r = none ∧ b' = b) ∨
    (∃ c o price rest, r = some (o, price) ∧ b.leaves = (c, o) ::ₘ rest ∧ Becomes b b' rest) := by
  obtain ⟨tree, free, hl⟩ := hwf
  have hout := removeWorst_outcome hl nowTs oracle
  rw [h] at hout
  generalize hr : (Except.ok (r, b') : Exec _) = out at hout
  cases hout with
  | overflow _ => cases hr
  | price _ _ _ _ => cases hr
  | empty _ =>
    obtain ⟨rfl, rfl⟩ := ok_inj₂ hr
    exact Or.inl ⟨rfl, rfl⟩
  | removed _ _ hlayout htype hperm =>
    obtain ⟨rfl, rfl⟩ := ok_inj₂ hr
    obtain ⟨rest, hleaves, hb⟩ := becomes_of_removed hl hlayout htype hperm
    exact Or.inr ⟨_, _, _, rest, rfl, hleaves, hb⟩

/-- Inserting an order with a new key adds it. -/
theorem insertLeaf_spec (hwf : b.WellFormed) {leaf : LeafNode} {r : NodeHandle × Option LeafNode}
    (h : b.insertLeaf c leaf = .ok (.ok r, b')) :
    (c, leaf) ∈ b'.leaves ∧ ((∀ o, (c, o) ∈ b.leaves → o.key ≠ leaf.key) →
      Becomes b b' ((c, leaf) ::ₘ b.leaves)) := by
  obtain ⟨tree, free, hl⟩ := hwf
  have hout := insertLeaf_outcome hl c leaf
  rw [h] at hout
  generalize hr : (Except.ok (Except.ok r, b') : Exec _) = out at hout
  cases hout with
  | overflow _ => cases hr
  | noSpace _ _ _ _ => cases hr
  | done hlayout htype hins =>
    obtain ⟨-, rfl⟩ := ok_inj₂ hr
    rw [mem_leaves hlayout, update_self]
    rcases hins with ⟨-, -, hperm⟩ | ⟨o, others, -, hkey, hperm, hperm'⟩
    · refine ⟨hperm.mem_iff.mpr (List.mem_cons_self ..), fun _ => ⟨⟨_, _, hlayout⟩, htype, ?_⟩⟩
      refine leaves_cons hlayout hl (fun c' hc => (update_of_ne hc ..).symm) ?_
      rw [update_self]
      exact hperm
    · refine ⟨hperm'.mem_iff.mpr (List.mem_cons_self ..), fun hnew => absurd hkey (hnew o ?_)⟩
      exact (mem_leaves hl c o).mpr (hperm.mem_iff.mpr (List.mem_cons_self ..))

end Spec

/-! ## Changing a quantity through a handle -/

/-- `self.node_mut(handle).unwrap().as_leaf_mut().unwrap().quantity = quantity` -/
def setQuantity (b : BookSide) (handle : NodeHandle) (quantity : Int) : Exec BookSide := do
  let n ← unwrap (← b.nodes.node handle)
  let leaf ← unwrap n.asLeaf
  return { b with nodes := b.nodes.setSlot handle (.leaf { leaf with quantity }) }

section SetQuantity

variable {b : BookSide} {tree : BookSideOrderTree → Option NodeTree} {free : List NodeHandle}

/-- The slots of a component's leaves differ from each other and from those of
    the other component. -/
theorem Layout.cells_nodup (h : Layout b tree free) (c : BookSideOrderTree) :
    ((optLeaves (tree c) ++ optLeaves (tree c.other)).map Prod.fst).Nodup := by
  have hsub : ∀ s : Option NodeTree, ((optLeaves s).map Prod.fst).Sublist (optHandles s) := by
    intro s
    cases s with
    | none => exact List.Sublist.refl _
    | some s => exact leaves_sublist_handles s
  rw [List.map_append]
  exact ((List.nodup_append.mp (h.arena_of c).nodup).1).sublist ((hsub _).append (hsub _))

variable {c : BookSideOrderTree} {x : LeafCell}

/-- A leaf is in its slot. -/
theorem Layout.leaf (h : Layout b tree free) (hx : x ∈ optLeaves (tree c)) :
    b.nodes.nodes x.1 = .leaf x.2 ∧ x.1 ∈ optHandles (tree c) := by
  have hheld := h.held c
  cases hs : tree c with
  | none =>
    rw [hs] at hx
    cases hx
  | some s =>
    rw [hs] at hx hheld
    exact Held.leaf hheld.2.2.1 hx

/-- Rewriting the quantity of a leaf keeps the layout. -/
theorem Layout.setAt (h : Layout b tree free) (hx : x ∈ optLeaves (tree c)) (quantity : Int) :
    Layout { b with nodes := b.nodes.setSlot x.1 (.leaf { x.2 with quantity }) }
      (fun c' => (tree c').map (Tree.mapLeaves (setAt x.1 quantity))) free := by
  obtain ⟨hslot, hin⟩ := h.leaf hx
  have hhandles : ∀ c', optHandles ((tree c').map
      (Tree.mapLeaves (NodeTree.setAt x.1 quantity))) = optHandles (tree c') := by
    intro c'
    cases tree c' with
    | none => rfl
    | some s => exact handles_setAt s
  refine ⟨?_, fun c' => ?_⟩
  · rw [hhandles, hhandles]
    refine h.arena.setSlot ?_ _
    cases c with
    | fixed => exact List.mem_append_left _ hin
    | oraclePegged => exact List.mem_append_right _ hin
  · have hheld := h.held c'
    cases hs : tree c' with
    | none =>
      rw [hs] at hheld
      exact hheld
    | some s =>
      rw [hs] at hheld
      obtain ⟨hroot, hcount, hheld, hwf⟩ := hheld
      refine ⟨hroot.trans (root_setAt s).symm, ?_, hheld.setAt hslot,
        Tree.mapLeaves_WF (fun y => setAt_key y) hwf⟩
      rw [Tree.leaves_mapLeaves, List.length_map]
      exact hcount

/-- Setting the quantity of a leaf changes that leaf and nothing else. -/
theorem setQuantity_spec (hwf : b.WellFormed)
    {rest : Multiset (BookSideOrderTree × LeafCell)} (hx : b.taggedCells = (c, x) ::ₘ rest)
    (quantity : Int) :
    ∃ b', b.setQuantity x.1 quantity = .ok b' ∧ b'.WellFormed ∧
      b'.nodes.orderTreeType = b.nodes.orderTreeType ∧
      b'.taggedCells = (c, (x.1, { x.2 with quantity })) ::ₘ rest := by
  obtain ⟨tree, free, h⟩ := hwf
  have hmem : x ∈ optLeaves (tree c) := by
    have hin : (c, x) ∈ b.taggedCells := hx ▸ mem_cons_self _ _
    rw [taggedCells, mem_tagBoth, cellSet_eq h] at hin
    exact mem_coe.mp hin
  obtain ⟨hslot, hin⟩ := h.leaf hmem
  have hlt : x.1 < MAX_ORDERTREE_NODES :=
    (h.arena_of c).lt_of_mem_owned (List.mem_append_left _ hin)
  have hnode : b.nodes.node x.1 = .ok (some (.leaf x.2)) := OrderTreeNodes.node_eq hlt hslot rfl
  have hlayout := h.setAt hmem quantity
  refine ⟨_, by simp only [setQuantity, hnode, ok_bind, unwrap_some]; rfl, ⟨_, _, hlayout⟩, rfl, ?_⟩
  have hcells : taggedCells { b with nodes := b.nodes.setSlot x.1 (.leaf { x.2 with quantity }) } =
      b.taggedCells.map (Prod.map id (setAt x.1 quantity)) := by
    rw [taggedCells, taggedCells, tagBoth_map]
    congr 1
    funext c'
    rw [cellSet_eq hlayout, cellSet_eq h, map_coe]
    cases tree c' with
    | none => rfl
    | some s => exact congrArg _ (Tree.leaves_mapLeaves _ s)
  have hnodup : (b.taggedCells.map fun y => y.2.1).Nodup := by
    have hfst : (b.taggedCells.map fun y => y.2.1) =
        ↑((optLeaves (tree .fixed) ++ optLeaves (tree .oraclePegged)).map Prod.fst) := by
      rw [taggedCells, tagBoth, map_add, map_map, map_map,
        cellSet_eq h, cellSet_eq h, List.map_append, ← coe_add]
      rfl
    rw [hfst]
    exact h.cells_nodup .fixed
  rw [hx, map_cons, nodup_cons] at hnodup
  -- the other leaves are in other slots
  have hother : ∀ y ∈ rest, Prod.map id (setAt x.1 quantity) y = y := by
    intro y hy
    have hne : y.2.1 ≠ x.1 := by
      intro heq
      apply hnodup.1
      show x.1 ∈ _
      rw [← heq]
      exact mem_map_of_mem _ hy
    exact Prod.ext rfl (if_neg hne)
  rw [hcells, hx, map_cons, map_congr rfl hother, map_id']
  exact congrArg (fun y => (c, y) ::ₘ rest) (if_pos rfl)

end SetQuantity

end BookSide

end MangoV4
