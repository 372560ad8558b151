/-
  MangoV4.Orderbook.OrderTreeIterator

  Iterating over the leaves of one root (`ordertree_iterator.rs`).

  The iterator keeps the next leaf and a stack of the inner nodes whose other
  child has still to be visited.  `IterHolds t it cells` says which leaves it
  has left to yield; `next` yields the first of them and keeps the others
  (`next_eq`), so the iterator is a list of leaves, bids from the highest key
  down and asks from the lowest key up.
-/

import MangoV4.Orderbook.OrderTreeRemove

namespace MangoV4

open Lib Lib.Exec Lib.CritBit NodeTree List

/-- Iterate over orders in order (bids=descending, asks=ascending). -/
structure OrderTreeIter where
  /-- inner nodes where the right side still needs to be iterated on, top first -/
  stack : List InnerNode
  /-- to be returned on `next` -/
  nextLeaf : Option (NodeHandle × LeafNode)
  /-- the child that comes first; the `right` of the source is the other one -/
  left : Bool

namespace OrderTreeIter

def side (it : OrderTreeIter) : Side := if it.left then .bid else .ask

def peek (it : OrderTreeIter) : Option (NodeHandle × LeafNode) := it.nextLeaf

/-- Go down the left branch until reaching a leaf. -/
def findLeftmostLeaf (t : OrderTreeNodes) (left : Bool) :
    Nat → List InnerNode → NodeHandle → Exec (List InnerNode × (NodeHandle × LeafNode))
  | 0, _, _ => diverge
  | fuel + 1, stack, current => do
    match ← unwrap (← t.node current) with
    | .inner inner =>
      findLeftmostLeaf t left fuel (inner :: stack) (inner.children.get left)
    | .leaf leaf => return (stack, (current, leaf))
    | _ => panic .unwrap

def new (t : OrderTreeNodes) (root : OrderTreeRoot) : Exec OrderTreeIter := do
  let left := decide (t.orderTreeType = .bids)
  match root.node with
  | none => return { stack := [], nextLeaf := none, left }
  | some r =>
    let (stack, leaf) ← findLeftmostLeaf t left MAX_ORDERTREE_NODES [] r
    return { stack, nextLeaf := some leaf, left }

def next (t : OrderTreeNodes) (it : OrderTreeIter) :
    Exec (Option (NodeHandle × LeafNode) × OrderTreeIter) := do
  match it.nextLeaf with
  | none => return (none, it)
  | some currentLeaf =>
    match it.stack with
    | [] => return (some currentLeaf, { it with nextLeaf := none })
    | inner :: stack =>
      let (stack, leaf) ← findLeftmostLeaf t it.left MAX_ORDERTREE_NODES stack
        (inner.children.get (!it.left))
      return (some currentLeaf, { it with stack, nextLeaf := some leaf })

/-! ## What is left to yield -/

/-- The leaves of a tree in the order of iteration. -/
def inOrder (left : Bool) (s : NodeTree) : List LeafCell :=
  if left then s.leaves.reverse else s.leaves

theorem inOrder_inner (left : Bool) (i : InnerCell) (l r : NodeTree) :
    inOrder left (.inner i l r) =
      inOrder left (if left then r else l) ++ inOrder left (if left then l else r) := by
  cases left with
  | false => rfl
  | true => exact reverse_append ..

theorem inOrder_perm (left : Bool) (s : NodeTree) : (inOrder left s).Perm s.leaves := by
  cases left with
  | false => exact Perm.refl _
  | true => exact reverse_perm _

/-- A subtree of the array that a walk can go through. -/
def Reachable (t : OrderTreeNodes) (s : NodeTree) : Prop :=
  Held t.nodes s ∧ (handles s).length ≤ MAX_ORDERTREE_NODES ∧
    ∀ x ∈ handles s, x < MAX_ORDERTREE_NODES

variable {t : OrderTreeNodes} {s : Option NodeTree}

theorem Reachable.inner {i : InnerCell} {l r : NodeTree}
    (h : Reachable t (.inner i l r)) : Reachable t l ∧ Reachable t r := by
  obtain ⟨⟨-, -, hl, hr⟩, hlen, hlt⟩ := h
  simp only [handles, length_cons, length_append] at hlen
  refine ⟨⟨hl, by omega, ?_⟩, hr, by omega, ?_⟩
  · exact fun x hx => hlt x (by simp [handles, hx])
  · exact fun x hx => hlt x (by simp [handles, hx])

/-- The other child of every inner node on the stack is one of the subtrees. -/
def StackHolds (t : OrderTreeNodes) (left : Bool) (stack : List InnerNode)
    (subs : List NodeTree) : Prop :=
  List.Forall₂ (fun inner s => inner.children.get (!left) = NodeTree.root s ∧ Reachable t s)
    stack subs

/-- The leaves the iterator has left to yield. -/
def IterHolds (t : OrderTreeNodes) (it : OrderTreeIter) (cells : List LeafCell) : Prop :=
  (it.nextLeaf = none ∧ cells = []) ∨
  (∃ x subs, it.nextLeaf = some x ∧ StackHolds t it.left it.stack subs ∧
    cells = x :: subs.flatMap (inOrder it.left))

/-- Going down to the first leaf of a subtree leaves the rest of it on the stack. -/
theorem findLeftmostLeaf_spec (left : Bool) (s : NodeTree) (fuel : Nat)
    (hfuel : (handles s).length ≤ fuel) (hreach : Reachable t s) :
    ∀ (stack : List InnerNode) (subs : List NodeTree), Reachable t s →
      StackHolds t left stack subs →
      ∃ stack' subs' x, findLeftmostLeaf t left fuel stack (NodeTree.root s) =
          .ok (stack', x) ∧ StackHolds t left stack' subs' ∧
        x :: subs'.flatMap (inOrder left) = inOrder left s ++ subs.flatMap (inOrder left) := by
  refine OrderTreeNodes.walk_induction (fun fuel x hslot => ?_)
    (fun fuel i l r hslot hch ihl ihr => ?_) s fuel hfuel hreach.1 hreach.2.2
  · intro stack subs hreach hstack
    refine ⟨stack, subs, x, ?_, hstack, ?_⟩
    · simp [findLeftmostLeaf, NodeTree.root, hslot]
    · cases left <;> rfl
  · intro stack subs hreach hstack
    obtain ⟨hl, hr⟩ := hreach.inner
    simp only [findLeftmostLeaf, NodeTree.root, hslot, ok_bind, unwrap_some]
    rw [inOrder_inner, append_assoc, ← flatMap_cons]
    cases left with
    | false =>
      have hpush : StackHolds t false (i.2 :: stack) (r :: subs) :=
        Forall₂.cons ⟨by rw [hch]; rfl, hr⟩ hstack
      rw [hch]
      exact ihl (i.2 :: stack) (r :: subs) hl hpush
    | true =>
      have hpush : StackHolds t true (i.2 :: stack) (l :: subs) :=
        Forall₂.cons ⟨by rw [hch]; rfl, hl⟩ hstack
      rw [hch]
      exact ihr (i.2 :: stack) (l :: subs) hr hpush

variable {it : OrderTreeIter} {cells : List LeafCell} {root : OrderTreeRoot}
  {rest free : List NodeHandle}

/-- `next` yields the first leaf left and keeps the others. -/
theorem next_eq (h : IterHolds t it cells) :
    ∃ it', next t it = .ok (cells.head?, it') ∧ IterHolds t it' cells.tail ∧
      it'.left = it.left := by
  unfold next
  rcases h with ⟨hnone, rfl⟩ | ⟨x, subs, hsome, hstack, rfl⟩
  · rw [hnone]
    exact ⟨it, rfl, Or.inl ⟨hnone, rfl⟩, rfl⟩
  · rw [hsome]
    cases hst : it.stack with
    | nil =>
      rw [hst] at hstack
      cases hstack
      exact ⟨{ it with nextLeaf := none }, by simp [hst], Or.inl ⟨rfl, rfl⟩, rfl⟩
    | cons inner stack =>
      rw [hst] at hstack
      obtain ⟨s, subs, ⟨hroot, hreach⟩, hrest, rfl⟩ := forall₂_cons_left_iff.mp hstack
      obtain ⟨stack', subs', y, hrun, hstack', hcells⟩ :=
        findLeftmostLeaf_spec it.left s MAX_ORDERTREE_NODES hreach.2.1 hreach stack subs hreach hrest
      refine ⟨{ it with stack := stack', nextLeaf := some y }, ?_, ?_, rfl⟩
      · simp only [hroot, hrun, ok_bind]
        rfl
      · exact Or.inr ⟨y, subs', rfl, hstack', hcells.symm⟩

theorem peek_eq (h : IterHolds t it cells) : it.peek = cells.head? := by
  rcases h with ⟨hnone, rfl⟩ | ⟨x, subs, hsome, -, rfl⟩
  · exact hnone
  · exact hsome

/-- The leaves of a root in the order of iteration. -/
def rootInOrder (left : Bool) : Option NodeTree → List LeafCell
  | none => []
  | some s => inOrder left s

/-- A new iterator has all leaves of its root left. -/
theorem new_eq (ha : Arena t (optHandles s ++ rest) free) (hheld : RootHeld t.nodes root s) :
    ∃ it, new t root = .ok it ∧ it.left = decide (t.orderTreeType = .bids) ∧
      IterHolds t it (rootInOrder it.left s) := by
  unfold new
  cases s with
  | none =>
    rw [hheld.node_none]
    exact ⟨_, rfl, rfl, Or.inl ⟨rfl, rfl⟩⟩
  | some s =>
    have hlen := ha.length_owned_le
    simp only [optHandles, length_append] at hlen
    have hreach : Reachable t s :=
      ⟨hheld.2.2.1, by omega, fun x hx => ha.lt_of_mem_owned (mem_append_left _ hx)⟩
    obtain ⟨stack', subs', x, hrun, hstack', hcells⟩ :=
      findLeftmostLeaf_spec (decide (t.orderTreeType = .bids)) s MAX_ORDERTREE_NODES
        hreach.2.1 hreach [] [] hreach Forall₂.nil
    rw [hheld.node_some]
    refine ⟨{ stack := stack', nextLeaf := some x, left := decide (t.orderTreeType = .bids) },
      ?_, rfl, Or.inr ⟨x, subs', rfl, hstack', ?_⟩⟩
    · simp only [hrun, ok_bind]
      rfl
    · rw [hcells]
      simp [rootInOrder]

/-! ## Iterating to the end -/

/-- All leaves that repeated calls of `next` yield. -/
def collect (t : OrderTreeNodes) : Nat → OrderTreeIter → Exec (List (NodeHandle × LeafNode))
  | 0, _ => diverge
  | fuel + 1, it => do
    match ← it.next t with
    | (none, _) => return []
    | (some x, it) =>
      let rest ← collect t fuel it
      return x :: rest

theorem collect_eq (cells : List LeafCell) :
    ∀ (fuel : Nat) (it : OrderTreeIter), IterHolds t it cells → cells.length < fuel →
      collect t fuel it = .ok cells := by
  induction cells with
  | nil =>
    intro fuel it hit hfuel
    obtain ⟨fuel, rfl⟩ : ∃ m, fuel = m + 1 := Nat.exists_eq_add_of_le' hfuel
    obtain ⟨it', hrun, -, -⟩ := next_eq hit
    simp only [collect, hrun, ok_bind, head?_nil]
    rfl
  | cons x cells ih =>
    intro fuel it hit hfuel
    obtain ⟨fuel, rfl⟩ : ∃ m, fuel = m + 1 :=
      Nat.exists_eq_add_of_le' (Nat.le_trans (Nat.succ_pos _) hfuel)
    obtain ⟨it', hrun, hit', -⟩ := next_eq hit
    simp only [collect, hrun, ok_bind, head?_cons]
    rw [ih fuel it' hit' (Nat.lt_of_succ_lt_succ hfuel)]
    rfl

/-- In which order two keys are yielded. -/
def KeyOrder : OrderTreeType → Key → Key → Prop
  | .bids, a, b => b < a
  | .asks, a, b => a < b

/-- The keys come in descending order for bids and in ascending order for asks. -/
theorem rootInOrder_pairwise {nodes : NodeHandle → AnyNode} (h : RootHeld nodes root s) (orderTreeType : OrderTreeType) :
    (rootInOrder (decide (orderTreeType = .bids)) s).Pairwise
      fun x y => KeyOrder orderTreeType x.2.key y.2.key := by
  cases s with
  | none => exact Pairwise.nil
  | some s =>
    have hkeys := h.2.2.2.keys_pairwise
    rw [Tree.keys, pairwise_map] at hkeys
    cases orderTreeType with
    | bids => exact pairwise_reverse.mpr hkeys
    | asks => exact hkeys

theorem rootInOrder_perm (left : Bool) (s : Option NodeTree) :
    (rootInOrder left s).Perm (optLeaves s) := by
  cases s with
  | none => exact Perm.refl _
  | some s => exact inOrder_perm left s

theorem length_rootInOrder_lt (ha : Arena t (optHandles s ++ rest) free) (left : Bool) :
    (rootInOrder left s).length < MAX_ORDERTREE_NODES := by
  rw [(rootInOrder_perm left s).length_eq]
  cases s with
  | none => decide
  | some s =>
    have hle := ha.length_owned_le
    have hhandles := length_handles s
    simp only [optHandles, length_append, MAX_ORDERTREE_NODES] at hle
    simp only [optLeaves, MAX_ORDERTREE_NODES]
    omega

end OrderTreeIter

end MangoV4
