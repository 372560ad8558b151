/-
  MangoV4.Orderbook.BookSide

  One side of the book (`bookside.rs`): two roots, one for fixed and one for
  oracle pegged orders, in one node array.

  `Layout` is the invariant: the array holds a well-formed tree for each root,
  and its slots are shared out between the two trees and the free list.  The
  operations are described once each, by an outcome that says how the layout
  and the orders in it change.
-/

import MangoV4.Orderbook.BookSideIterator

namespace MangoV4

open Lib Lib.Exec Lib.CritBit List OrderTreeNodes

structure BookSide where
  roots : BookSideOrderTree → OrderTreeRoot
  nodes : OrderTreeNodes

namespace BookSide

/-- An account of zeros, with the tree type set. -/
def zeroed (orderTreeType : OrderTreeType) : BookSide where
  roots := fun _ => { maybeNode := 0, leafCount := 0 }
  nodes := { orderTreeType, bumpIndex := 0, freeListLen := 0, freeListHead := 0,
             nodes := fun _ => .uninitialized }

def side (b : BookSide) : Side := b.nodes.orderTreeType.side

def isFull (b : BookSide) : Bool := b.nodes.isFull

/-- The book side after an operation on the root of one component. -/
def withRoot (b : BookSide) (component : BookSideOrderTree) (nodes : OrderTreeNodes)
    (root : OrderTreeRoot) : BookSide where
  roots := Function.update b.roots component root
  nodes := nodes

def insertLeaf (b : BookSide) (component : BookSideOrderTree) (newLeaf : LeafNode) :
    Exec (Except MangoError (NodeHandle × Option LeafNode) × BookSide) := do
  let (r, nodes, root) ← b.nodes.insertLeaf (b.roots component) newLeaf
  return (r, b.withRoot component nodes root)

def removeByKey (b : BookSide) (component : BookSideOrderTree) (searchKey : Key) :
    Exec (Option LeafNode × BookSide) := do
  let (r, nodes, root) ← b.nodes.removeByKey (b.roots component) searchKey
  return (r, b.withRoot component nodes root)

/-- Remove the overall worst-price order. -/
def removeWorst (b : BookSide) (nowTs : Nat) (oraclePriceLots : Int) :
    Exec (Option (LeafNode × Int) × BookSide) := do
  let worstFixed ← b.nodes.findWorst (b.roots .fixed)
  let worstPegged ← b.nodes.findWorst (b.roots .oraclePegged)
  match ← rankOrders b.side worstFixed worstPegged true nowTs oraclePriceLots with
  | none => return (none, b)
  | some worse =>
    let (n, b) ← b.removeByKey worse.handle.orderTree worse.node.key
    return (n.map fun n => (n, worse.priceLots), b)

/-- Remove the order with the lowest expiry timestamp in the component, if
    that's < now_ts.  If there is none, try the other component. -/
def removeOneExpired (b : BookSide) (component : BookSideOrderTree) (nowTs : Nat) :
    Exec (Option LeafNode × BookSide) := do
  let (r, nodes, root) ← b.nodes.removeOneExpired (b.roots component) nowTs
  let b := b.withRoot component nodes root
  match r with
  | some n => return (some n, b)
  | none =>
    let (r, nodes, root) ← b.nodes.removeOneExpired (b.roots component.other) nowTs
    return (r, b.withRoot component.other nodes root)

/-- Iterate over all entries, including invalid orders. -/
def iterAllIncludingInvalid (b : BookSide) (nowTs : Nat) (oraclePriceLots : Int) :
    Exec BookSideIter :=
  BookSideIter.new b.nodes b.roots nowTs oraclePriceLots

/-! ## The invariant -/

/-- The array holds the two trees, and the slots below the bump index are
    those of the trees and of the free list. -/
structure Layout (b : BookSide) (tree : BookSideOrderTree → Option NodeTree)
    (free : List NodeHandle) : Prop where
  arena : Arena b.nodes (optHandles (tree .fixed) ++ optHandles (tree .oraclePegged)) free
  held : ∀ c, RootHeld b.nodes.nodes (b.roots c) (tree c)

def WellFormed (b : BookSide) : Prop := ∃ tree free, Layout b tree free

theorem zeroed_layout (orderTreeType : OrderTreeType) :
    Layout (zeroed orderTreeType) (fun _ => none) [] where
  arena := ⟨trivial, rfl, by simp, Perm.refl _, Nat.zero_le _⟩
  held := fun _ => rfl

variable {b : BookSide} {tree : BookSideOrderTree → Option NodeTree} {free : List NodeHandle}

namespace Layout

/-- The slots of one tree first. -/
theorem arena_of (h : Layout b tree free) (c : BookSideOrderTree) :
    Arena b.nodes (optHandles (tree c) ++ optHandles (tree c.other)) free := by
  cases c with
  | fixed => exact h.arena
  | oraclePegged => exact h.arena.of_perm perm_append_comm

theorem roots_ne (c : BookSideOrderTree) : c.other ≠ c := by
  cases c <;> decide

theorem eq_other {c c' : BookSideOrderTree} (h : c' ≠ c) : c' = c.other := by
  cases c <;> cases c' <;> first | rfl | exact absurd rfl h

/-- A step on one root keeps the invariant; the other tree is untouched. -/
theorem step (h : Layout b tree free) {c : BookSideOrderTree} {nodes : OrderTreeNodes}
    {root : OrderTreeRoot} {s : Option NodeTree}
    (hstep : TreeStep b.nodes (optHandles (tree c.other)) nodes root s) :
    ∃ free', Layout (b.withRoot c nodes root) (Function.update tree c s) free' := by
  obtain ⟨free', harena⟩ := hstep.arena
  have hother : RootHeld nodes.nodes (b.roots c.other) (tree c.other) :=
    (h.held c.other).congr hstep.frame
  refine ⟨free', ⟨?_, ?_⟩⟩
  · show Arena nodes _ _
    cases c with
    | fixed => simpa [BookSideOrderTree.other] using harena
    | oraclePegged =>
      simpa [BookSideOrderTree.other] using harena.of_perm perm_append_comm
  · intro c'
    by_cases hc : c' = c
    · subst hc
      simpa [withRoot] using hstep.held
    · obtain rfl : c' = c.other := eq_other hc
      simpa [withRoot, hc] using hother

end Layout

/-! ## What the operations do -/

/-- What `insert_leaf` does to a book side. -/
inductive InsertOutcome (b : BookSide) (tree : BookSideOrderTree → Option NodeTree)
    (c : BookSideOrderTree) (leaf : LeafNode) :
    Exec (Except MangoError (NodeHandle × Option LeafNode) × BookSide) → Prop
  /-- an expiry time does not fit into 64 bits; seen once there is a slot for
      the leaf -/
  | overflow (hbad : ∃ o ∈ leaf :: optOrders (tree c), ¬ o.ExpiryFits)
      (hroom : leaf.key ∈ (optOrders (tree c)).map LeafNode.key ∨
        (optHandles (tree c)).length + (optHandles (tree c.other)).length +
          OrderTreeNodes.slotsNeeded (tree c) ≤ MAX_ORDERTREE_NODES) :
      InsertOutcome b tree c leaf (panic .overflow)
  /-- a new key, and too few slots for it -/
  | noSpace {b' : BookSide} {free' : List NodeHandle} (hlayout : Layout b' tree free')
      (htype : b'.nodes.orderTreeType = b.nodes.orderTreeType)
      (hfull : MAX_ORDERTREE_NODES < (optHandles (tree c)).length +
        (optHandles (tree c.other)).length + OrderTreeNodes.slotsNeeded (tree c))
      (hnew : leaf.key ∉ (optOrders (tree c)).map LeafNode.key) :
      InsertOutcome b tree c leaf (.ok (.error .someError, b'))
  | done {x : NodeHandle} {old : Option LeafNode} {b' : BookSide} {s' : NodeTree}
      {free' : List NodeHandle} (hlayout : Layout b' (Function.update tree c (some s')) free')
      (htype : b'.nodes.orderTreeType = b.nodes.orderTreeType)
      (hins : Inserted (optOrders (tree c)) leaf old (NodeTree.orders s'))
      (hdated : OptDated (tree c) → NodeTree.Dated s') :
      InsertOutcome b tree c leaf (.ok (.ok (x, old), b'))

theorem insertLeaf_outcome (h : Layout b tree free) (c : BookSideOrderTree) (leaf : LeafNode) :
    InsertOutcome b tree c leaf (b.insertLeaf c leaf) := by
  have hins := OrderTreeNodes.insertLeaf_outcome (h.arena_of c) (h.held c) leaf
  unfold insertLeaf
  generalize b.nodes.insertLeaf (b.roots c) leaf = r at hins
  cases hins with
  | overflow hbad hroom =>
    rw [length_append] at hroom
    exact .overflow hbad hroom
  | noSpace hstep hfull hnew =>
    obtain ⟨free', hlayout⟩ := h.step hstep
    rw [Function.update_eq_self] at hlayout
    rw [length_append] at hfull
    exact .noSpace hlayout hstep.type_eq hfull hnew
  | done hstep hins hdated =>
    obtain ⟨free', hlayout⟩ := h.step hstep
    exact .done hlayout hstep.type_eq hins hdated

/-- What `remove_by_key` does to a book side. -/
inductive RemoveOutcome (b : BookSide) (tree : BookSideOrderTree → Option NodeTree)
    (c : BookSideOrderTree) (k : Key) : Exec (Option LeafNode × BookSide) → Prop
  | overflow (hbad : ∃ o ∈ optOrders (tree c), ¬ o.ExpiryFits) :
      RemoveOutcome b tree c k (panic .overflow)
  | absent (hk : k ∉ (optOrders (tree c)).map LeafNode.key) :
      RemoveOutcome b tree c k (.ok (none, b))
  | removed {o : LeafNode} {b' : BookSide} {s' : Option NodeTree} {free' : List NodeHandle}
      (hlayout : Layout b' (Function.update tree c s') free')
      (htype : b'.nodes.orderTreeType = b.nodes.orderTreeType) (hkey : o.key = k)
      (hperm : (optOrders (tree c)).Perm (o :: optOrders s'))
      (hdated : OptDated (tree c) → OptDated s') :
      RemoveOutcome b tree c k (.ok (some o, b'))

theorem withRoot_self (b : BookSide) (c : BookSideOrderTree) :
    b.withRoot c b.nodes (b.roots c) = b := by
  unfold withRoot
  rw [Function.update_eq_self]

theorem removeByKey_outcome (h : Layout b tree free) (c : BookSideOrderTree) (k : Key) :
    RemoveOutcome b tree c k (b.removeByKey c k) := by
  have hrem := OrderTreeNodes.removeByKey_outcome (h.arena_of c) (h.held c) k
  unfold removeByKey
  generalize b.nodes.removeByKey (b.roots c) k = r at hrem
  cases hrem with
  | overflow hbad => exact .overflow hbad
  | absent hk =>
    simp only [ok_bind, pure_eq_ok, withRoot_self]
    exact .absent hk
  | removed hstep hkey hperm hdated =>
    obtain ⟨free', hlayout⟩ := h.step hstep
    exact .removed hlayout hstep.type_eq hkey hperm hdated

/-- What `remove_one_expired` does to a book side. -/
inductive ExpireOutcome (b : BookSide) (tree : BookSideOrderTree → Option NodeTree)
    (nowTs : Nat) : Exec (Option LeafNode × BookSide) → Prop
  | overflow (hbad : ∃ c, ∃ o ∈ optOrders (tree c), ¬ o.ExpiryFits) :
      ExpireOutcome b tree nowTs (panic .overflow)
  | kept (hnone : ∀ c, OptDated (tree c) → ∀ o ∈ optOrders (tree c), nowTs ≤ o.expiresAt) :
      ExpireOutcome b tree nowTs (.ok (none, b))
  | removed {c : BookSideOrderTree} {o : LeafNode} {b' : BookSide} {s' : Option NodeTree}
      {free' : List NodeHandle} (hlayout : Layout b' (Function.update tree c s') free')
      (htype : b'.nodes.orderTreeType = b.nodes.orderTreeType)
      (hperm : (optOrders (tree c)).Perm (o :: optOrders s'))
      (hexpired : ∃ e < nowTs, o.expiry = .ok e) (hdated : OptDated (tree c) → OptDated s') :
      ExpireOutcome b tree nowTs (.ok (some o, b'))

theorem removeOneExpired_outcome (h : Layout b tree free) (c : BookSideOrderTree) (nowTs : Nat) :
    ExpireOutcome b tree nowTs (b.removeOneExpired c nowTs) := by
  have hone := fun c => OrderTreeNodes.removeOneExpired_outcome (h.arena_of c) (h.held c) nowTs
  have hfirst := hone c
  unfold removeOneExpired
  generalize b.nodes.removeOneExpired (b.roots c) nowTs = r at hfirst
  cases hfirst with
  | overflow hbad => exact .overflow ⟨c, hbad⟩
  | removed hstep hperm hexpired hdated =>
    obtain ⟨free', hlayout⟩ := h.step hstep
    exact .removed hlayout hstep.type_eq hperm hexpired hdated
  | kept hnone =>
    -- nothing expired in the first tree: the same on the other one
    simp only [ok_bind, withRoot_self]
    have hother := hone c.other
    generalize b.nodes.removeOneExpired (b.roots c.other) nowTs = r at hother
    cases hother with
    | overflow hbad => exact .overflow ⟨c.other, hbad⟩
    | removed hstep hperm hexpired hdated =>
      obtain ⟨free', hlayout⟩ := h.step hstep
      exact .removed hlayout hstep.type_eq hperm hexpired hdated
    | kept hnone' =>
      simp only [ok_bind, pure_eq_ok, withRoot_self]
      refine .kept fun c' => ?_
      by_cases hc : c' = c
      · exact hc ▸ hnone
      · exact Layout.eq_other hc ▸ hnone'

/-- The leaf that would match last. -/
def worstLeaf (b : BookSide) (s : NodeTree) : LeafCell :=
  OrderTreeNodes.endLeaf (decide (b.nodes.orderTreeType = .asks)) s

theorem findWorst_eq (h : Layout b tree free) (c : BookSideOrderTree) :
    b.nodes.findWorst (b.roots c) = .ok ((tree c).map b.worstLeaf) := by
  have hend := leafMinMax_eq (h.arena_of c) (h.held c)
  unfold findWorst minLeaf maxLeaf worstLeaf
  cases b.nodes.orderTreeType with
  | bids => exact hend false
  | asks => exact hend true

theorem worstLeaf_mem {b : BookSide} {s : Option NodeTree} {x : LeafCell}
    (hx : s.map b.worstLeaf = some x) : x.2 ∈ optOrders s := by
  obtain ⟨s, rfl, rfl⟩ := Option.map_eq_some_iff.mp hx
  exact mem_map_of_mem (endLeaf_mem _ s)

/-- The last leaf `x` of a tree is the one `remove_worst` takes. -/
def PicksWorst (b : BookSide) (tree : BookSideOrderTree → Option NodeTree)
    (oraclePriceLots : Int) (x : LeafCell) : BookSideOrderTree → Prop
  | .fixed => picksFixed b.side oraclePriceLots true x.2
      ((tree .oraclePegged).map b.worstLeaf) = true
  | .oraclePegged => ∀ f, (tree .fixed).map b.worstLeaf = some f →
      picksFixed b.side oraclePriceLots true f.2 (some x) = false

/-- What `remove_worst` does to a book side. -/
inductive WorstOutcome (b : BookSide) (tree : BookSideOrderTree → Option NodeTree) (nowTs : Nat)
    (oraclePriceLots : Int) : Exec (Option (LeafNode × Int) × BookSide) → Prop
  | overflow (hbad : ∃ c, ∃ o ∈ optOrders (tree c), ¬ o.ExpiryFits) :
      WorstOutcome b tree nowTs oraclePriceLots (panic .overflow)
  /-- the price of the worst fixed order does not fit into an `i64` -/
  | price {x : LeafCell} (hx : (tree .fixed).map b.worstLeaf = some x)
      (hfits : x.2.ExpiryFits) (hbad : ¬ x.2.PriceFits)
      (hpick : picksFixed b.side oraclePriceLots true x.2
        ((tree .oraclePegged).map b.worstLeaf) = true) :
      WorstOutcome b tree nowTs oraclePriceLots (panic .assertion)
  | empty (hempty : ∀ c, tree c = none) : WorstOutcome b tree nowTs oraclePriceLots (.ok (none, b))
  | removed {c : BookSideOrderTree} {x : LeafCell} {b' : BookSide}
      {s' : Option NodeTree} {free' : List NodeHandle}
      (hx : (tree c).map b.worstLeaf = some x) (hpick : PicksWorst b tree oraclePriceLots x c)
      (hlayout : Layout b' (Function.update tree c s') free')
      (htype : b'.nodes.orderTreeType = b.nodes.orderTreeType)
      (hperm : (optOrders (tree c)).Perm (x.2 :: optOrders s'))
      (hdated : OptDated (tree c) → OptDated s') :
      WorstOutcome b tree nowTs oraclePriceLots
        (.ok (some (x.2, (itemOf b.side nowTs oraclePriceLots (c, x)).priceLots), b'))

/-- Removing the leaf that ranking has picked. -/
theorem removeWorst_picked (h : Layout b tree free) (nowTs : Nat) (oracle : Int)
    {c : BookSideOrderTree} {x : LeafCell} (hx : (tree c).map b.worstLeaf = some x)
    (hpick : PicksWorst b tree oracle x c) :
    WorstOutcome b tree nowTs oracle (do
      let (n, b') ← b.removeByKey c x.2.key
      return (n.map fun n => (n, (itemOf b.side nowTs oracle (c, x)).priceLots), b')) := by
  have hmem := worstLeaf_mem hx
  have hrem := removeByKey_outcome h c x.2.key
  generalize b.removeByKey c x.2.key = r at hrem ⊢
  cases hrem with
  | overflow hbad => exact .overflow ⟨c, hbad⟩
  | absent hk => exact absurd (mem_map_of_mem hmem) hk
  | @removed o b' s' free' hlayout htype hkey hperm hdated =>
    -- the removed order has the key of `x`, so it is `x`
    obtain rfl : o = x.2 := by
      have hnodup := (h.held c).keys_nodup
      have ho : o ∈ optOrders (tree c) := hperm.mem_iff.mpr (mem_cons_self ..)
      exact inj_on_of_nodup_map hnodup ho hmem hkey
    exact .removed hx hpick hlayout htype hperm hdated

theorem removeWorst_outcome (h : Layout b tree free) (nowTs : Nat) (oracle : Int) :
    WorstOutcome b tree nowTs oracle (b.removeWorst nowTs oracle) := by
  unfold removeWorst
  simp only [findWorst_eq h, ok_bind]
  have hrank := rankOrders_outcome b.side ((tree .fixed).map b.worstLeaf)
    ((tree .oraclePegged).map b.worstLeaf) true nowTs oracle
  generalize rankOrders b.side _ _ true nowTs oracle = r at hrank ⊢
  cases hrank with
  | none hf ho =>
    refine .empty fun c => ?_
    cases c with
    | fixed => exact Option.map_eq_none_iff.mp hf
    | oraclePegged => exact Option.map_eq_none_iff.mp ho
  | overflow hx hbad =>
    rcases hx with hx | hx
    · exact .overflow ⟨_, _, worstLeaf_mem hx, hbad⟩
    · exact .overflow ⟨_, _, worstLeaf_mem hx, hbad⟩
  | price hf hfits hbad hpick => exact .price hf hfits hbad hpick
  | fixed hf _ _ hpick => exact removeWorst_picked h nowTs oracle hf hpick
  | pegged ho _ hpick =>
    rw [ho] at hpick
    exact removeWorst_picked h nowTs oracle ho hpick

end BookSide

end MangoV4
