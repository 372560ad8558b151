/-
  MangoV4.Orderbook.OrderTreeShape

  How the node array represents crit-bit trees and a free list.

  `NodeTree` is a crit-bit tree annotated with the slot of every node and the
  node stored there.  `Held nodes t` says that the array really contains the
  tree; `CtxHeld` says the same of a zipper context.  `Arena t owned free` is
  the allocator's side: the slots below the bump index are those owned by the
  trees and those of the free list, each exactly once, and the free list is a
  chain through its slots.

  Every write of the order-tree code goes to an owned slot or to a slot just
  taken from the free list, so both predicates only need agreement of the
  arrays on their own slots (`Held.congr`, `CtxHeld.congr`).
-/

import MangoV4.Orderbook.OrderTree
import Mathlib.Data.List.Range

namespace MangoV4

open Lib Lib.CritBit List

/-- An inner node with its slot. -/
abbrev InnerCell := NodeHandle × InnerNode

/-- A leaf with its slot. -/
abbrev LeafCell := NodeHandle × LeafNode

abbrev NodeTree := CritBit.Tree InnerCell LeafCell
abbrev NodeFrame := CritBit.Frame InnerCell LeafCell

/-- Keys and prefix lengths are those stored in the nodes. -/
def nodeKeys : CritBit.Keys 128 InnerCell LeafCell where
  prefixLen i := i.2.prefixLen
  innerKey i := i.2.key
  leafKey x := x.2.key

/-! ## Trees in the array -/

namespace NodeTree

/-- Slot of the root. -/
def root : NodeTree → NodeHandle
  | .leaf x => x.1
  | .inner i _ _ => i.1

/-- Contents of the root's slot. -/
def contents : NodeTree → AnyNode
  | .leaf x => .leaf x.2
  | .inner i _ _ => .inner i.2

/-- All slots of the tree. -/
def handles : NodeTree → List NodeHandle
  | .leaf x => [x.1]
  | .inner i l r => i.1 :: (handles l ++ handles r)

/-- The orders of the tree, from left to right. -/
def orders (t : NodeTree) : List LeafNode := t.leaves.map Prod.snd

/-- The array contains the tree. -/
def Held (nodes : NodeHandle → AnyNode) : NodeTree → Prop
  | .leaf x => nodes x.1 = .leaf x.2
  | .inner i l r =>
    nodes i.1 = .inner i.2 ∧ i.2.children = ⟨root l, root r⟩ ∧ Held nodes l ∧ Held nodes r

theorem root_mem_handles (t : NodeTree) : root t ∈ handles t := by
  cases t <;> simp [root, handles]

theorem length_handles_pos (t : NodeTree) : 0 < (handles t).length :=
  length_pos_of_mem (root_mem_handles t)

/-- A tree of `n` leaves takes `2 n - 1` slots. -/
theorem length_handles (t : NodeTree) : (handles t).length + 1 = 2 * t.leaves.length := by
  induction t with
  | leaf x => rfl
  | inner i l r ihl ihr =>
    simp only [handles, Tree.leaves, length_cons, length_append]
    omega

theorem contents_isNode (t : NodeTree) : (contents t).isNode = true := by
  cases t <;> rfl

variable {nodes : NodeHandle → AnyNode}

theorem Held.contents_eq {t : NodeTree} (h : Held nodes t) :
    nodes (root t) = contents t := by
  cases t with
  | leaf x => exact h
  | inner i l r => exact h.1

/-- Only the tree's own slots matter. -/
theorem Held.congr {nodes' : NodeHandle → AnyNode} {t : NodeTree} (h : Held nodes t)
    (hsame : ∀ x ∈ handles t, nodes' x = nodes x) : Held nodes' t := by
  induction t with
  | leaf x => exact (hsame _ (by simp [handles])).trans h
  | inner i l r ihl ihr =>
    obtain ⟨hi, hch, hl, hr⟩ := h
    refine ⟨(hsame _ (by simp [handles])).trans hi, hch, ?_, ?_⟩
    · exact ihl hl fun x hx => hsame x (by simp [handles, hx])
    · exact ihr hr fun x hx => hsame x (by simp [handles, hx])

/-- A leaf of the tree is in its slot. -/
theorem Held.leaf {t : NodeTree} (h : Held nodes t)
    {x : LeafCell} (hx : x ∈ t.leaves) : nodes x.1 = .leaf x.2 ∧ x.1 ∈ handles t := by
  induction t with
  | leaf y =>
    obtain rfl := mem_singleton.mp hx
    exact ⟨h, mem_singleton.mpr rfl⟩
  | inner i l r ihl ihr =>
    obtain ⟨-, -, hl, hr⟩ := h
    rcases mem_append.mp hx with hx | hx
    · obtain ⟨hslot, hin⟩ := ihl hl hx
      exact ⟨hslot, by simp [handles, hin]⟩
    · obtain ⟨hslot, hin⟩ := ihr hr hx
      exact ⟨hslot, by simp [handles, hin]⟩

/-- The tree after its root has moved to another slot. -/
def moveRoot (h : NodeHandle) (t : NodeTree) : NodeTree :=
  t.mapRoot (fun i => (h, i.2)) (fun x => (h, x.2))

@[simp] theorem root_moveRoot (h : NodeHandle) (t : NodeTree) : root (moveRoot h t) = h := by
  cases t <;> rfl

@[simp] theorem orders_moveRoot (h : NodeHandle) (t : NodeTree) :
    orders (moveRoot h t) = orders t := by
  cases t <;> rfl

@[simp] theorem length_leaves_moveRoot (h : NodeHandle) (t : NodeTree) :
    (moveRoot h t).leaves.length = t.leaves.length := by
  cases t <;> rfl

/-- The slots below the root. -/
def below : NodeTree → List NodeHandle
  | .leaf _ => []
  | .inner _ l r => handles l ++ handles r

theorem handles_eq (t : NodeTree) : handles t = root t :: below t := by
  cases t <;> rfl

@[simp] theorem below_moveRoot (h : NodeHandle) (t : NodeTree) : below (moveRoot h t) = below t := by
  cases t <;> rfl

/-- Moving the root: its contents in the new slot, the rest untouched. -/
theorem Held.moveRoot {nodes' : NodeHandle → AnyNode} {t : NodeTree} (h : Held nodes t)
    {x : NodeHandle} (hroot : nodes' x = contents t)
    (hrest : ∀ y ∈ below t, nodes' y = nodes y) : Held nodes' (moveRoot x t) := by
  cases t with
  | leaf y => exact hroot
  | inner i l r =>
    obtain ⟨-, hch, hl, hr⟩ := h
    refine ⟨hroot, hch, ?_, ?_⟩
    · exact hl.congr fun y hy => hrest y (mem_append_left _ hy)
    · exact hr.congr fun y hy => hrest y (mem_append_right _ hy)

theorem moveRoot_WF {h : NodeHandle} {t : NodeTree} (ht : t.WF nodeKeys) :
    (moveRoot h t).WF nodeKeys := by
  have hI : ∀ i : InnerCell, nodeKeys.prefixLen (h, i.2) = nodeKeys.prefixLen i := fun _ => rfl
  have hk : ∀ i : InnerCell, nodeKeys.innerKey (h, i.2) = nodeKeys.innerKey i := fun _ => rfl
  exact Tree.mapRoot_WF hI hk ht

theorem keys_moveRoot (h : NodeHandle) (t : NodeTree) :
    (moveRoot h t).keys nodeKeys = t.keys nodeKeys := by
  have hL : ∀ x : LeafCell, nodeKeys.leafKey (h, x.2) = nodeKeys.leafKey x := fun _ => rfl
  exact Tree.keys_mapRoot hL t

/-- The keys of the nodes are the keys of the orders. -/
theorem keys_eq (t : NodeTree) : t.keys nodeKeys = (orders t).map LeafNode.key := by
  simp only [Tree.keys, orders, map_map]
  rfl

end NodeTree

/-! ## Contexts in the array -/

/-- The stack of a descent through the frames of a context. -/
def stackOf (c : List NodeFrame) : Stack := c.map fun f => (f.i.1, f.bit)

@[simp] theorem stackOf_nil : stackOf [] = [] := rfl

@[simp] theorem stackOf_cons (f : NodeFrame) (c : List NodeFrame) :
    stackOf (f :: c) = (f.i.1, f.bit) :: stackOf c := rfl

/-- All slots of a context. -/
def ctxHandles (c : List NodeFrame) : List NodeHandle :=
  c.flatMap fun f => f.i.1 :: NodeTree.handles f.sib

@[simp] theorem ctxHandles_nil : ctxHandles [] = [] := rfl

@[simp] theorem ctxHandles_cons (f : NodeFrame) (c : List NodeFrame) :
    ctxHandles (f :: c) = f.i.1 :: (NodeTree.handles f.sib ++ ctxHandles c) := rfl

/-- The orders left behind by a descent. -/
def ctxOrders (c : List NodeFrame) : List LeafNode := (ctxLeaves c).map Prod.snd

/-- The array contains one frame, with `hole` as the child that was taken. -/
structure FrameHeld (nodes : NodeHandle → AnyNode) (hole : NodeHandle) (f : NodeFrame) : Prop where
  slot : nodes f.i.1 = .inner f.i.2
  taken : f.i.2.children.get f.bit = hole
  other : f.i.2.children.get (!f.bit) = NodeTree.root f.sib
  sib : NodeTree.Held nodes f.sib

/-- The array contains the context around the node at `hole`. -/
def CtxHeld (nodes : NodeHandle → AnyNode) : NodeHandle → List NodeFrame → Prop
  | _, [] => True
  | hole, f :: c => FrameHeld nodes hole f ∧ CtxHeld nodes f.i.1 c

/-- Slot of the root of a tree with a context around it. -/
def ctxRoot : NodeHandle → List NodeFrame → NodeHandle
  | hole, [] => hole
  | _, f :: c => ctxRoot f.i.1 c

theorem Frame.root_plug (f : NodeFrame) (t : NodeTree) : NodeTree.root (f.plug t) = f.i.1 := by
  obtain ⟨i, bit, sib⟩ := f
  cases bit <;> rfl

theorem root_plug (c : List NodeFrame) (t : NodeTree) :
    NodeTree.root (plug c t) = ctxRoot (NodeTree.root t) c := by
  induction c generalizing t with
  | nil => rfl
  | cons f c ih => rw [plug_cons, ih, Frame.root_plug, ctxRoot]

variable {nodes : NodeHandle → AnyNode}

theorem Frame.held_plug_iff (f : NodeFrame) (t : NodeTree) :
    NodeTree.Held nodes (f.plug t) ↔
      FrameHeld nodes (NodeTree.root t) f ∧ NodeTree.Held nodes t := by
  obtain ⟨i, bit, sib⟩ := f
  constructor
  · intro h
    cases bit with
    | false =>
      obtain ⟨hi, hch, ht, hs⟩ := h
      exact ⟨⟨hi, congrArg Two.at0 hch, congrArg Two.at1 hch, hs⟩, ht⟩
    | true =>
      obtain ⟨hi, hch, hs, ht⟩ := h
      exact ⟨⟨hi, congrArg Two.at1 hch, congrArg Two.at0 hch, hs⟩, ht⟩
  · rintro ⟨⟨hi, htaken, hother, hs⟩, ht⟩
    cases bit with
    | false => exact ⟨hi, by rw [← htaken, ← hother]; rfl, ht, hs⟩
    | true => exact ⟨hi, by rw [← htaken, ← hother]; rfl, hs, ht⟩

theorem held_plug_iff (c : List NodeFrame) (t : NodeTree) :
    NodeTree.Held nodes (plug c t) ↔ CtxHeld nodes (NodeTree.root t) c ∧ NodeTree.Held nodes t := by
  induction c generalizing t with
  | nil => simp [CtxHeld]
  | cons f c ih =>
    rw [plug_cons, ih, Frame.held_plug_iff, Frame.root_plug, CtxHeld]
    tauto

theorem Frame.handles_plug_perm (f : NodeFrame) (t : NodeTree) :
    (NodeTree.handles (f.plug t)).Perm
      (NodeTree.handles t ++ (f.i.1 :: NodeTree.handles f.sib)) := by
  obtain ⟨i, bit, sib⟩ := f
  cases bit with
  | false => exact perm_middle.symm
  | true =>
    refine Perm.trans ?_ perm_middle.symm
    exact Perm.cons _ perm_append_comm

theorem handles_plug_perm (c : List NodeFrame) (t : NodeTree) :
    (NodeTree.handles (plug c t)).Perm (NodeTree.handles t ++ ctxHandles c) := by
  induction c generalizing t with
  | nil => simp
  | cons f c ih =>
    refine (ih (f.plug t)).trans ?_
    have hf := (Frame.handles_plug_perm f t).append_right (ctxHandles c)
    simpa using hf

theorem CtxHeld.congr {nodes' : NodeHandle → AnyNode} {hole : NodeHandle}
    {c : List NodeFrame} (h : CtxHeld nodes hole c)
    (hsame : ∀ x ∈ ctxHandles c, nodes' x = nodes x) : CtxHeld nodes' hole c := by
  induction c generalizing hole with
  | nil => trivial
  | cons f c ih =>
    obtain ⟨⟨hslot, htaken, hother, hsib⟩, hc⟩ := h
    refine ⟨⟨(hsame _ (by simp)).trans hslot, htaken, hother, ?_⟩, ?_⟩
    · exact hsib.congr fun x hx => hsame x (by simp [hx])
    · exact ih hc fun x hx => hsame x (by simp [hx])

theorem orders_plug_perm (c : List NodeFrame) (t : NodeTree) :
    (NodeTree.orders (plug c t)).Perm (NodeTree.orders t ++ ctxOrders c) := by
  have h := (leaves_plug_perm c t).map Prod.snd
  rwa [map_append] at h

/-! ## The allocator -/

/-- The listed slots are a free list: each but the last points to the next. -/
def FreeChain (nodes : NodeHandle → AnyNode) : List NodeHandle → Prop
  | [] => True
  | [h] => ∃ next, nodes h = .lastFreeNode next
  | h :: h' :: rest => nodes h = .freeNode h' ∧ FreeChain nodes (h' :: rest)

theorem FreeChain.congr {nodes' : NodeHandle → AnyNode} {free : List NodeHandle}
    (h : FreeChain nodes free) (hsame : ∀ x ∈ free, nodes' x = nodes x) :
    FreeChain nodes' free := by
  induction free with
  | nil => trivial
  | cons x rest ih =>
    cases rest with
    | nil =>
      obtain ⟨next, hx⟩ := h
      exact ⟨next, (hsame x (by simp)).trans hx⟩
    | cons y rest =>
      refine ⟨(hsame x (by simp)).trans h.1, ih h.2 ?_⟩
      exact fun z hz => hsame z (mem_cons_of_mem _ hz)

/-- The allocator's invariant: the slots below the bump index are the owned
    ones and those of the free list, each exactly once. -/
structure Arena (t : OrderTreeNodes) (owned free : List NodeHandle) : Prop where
  chain : FreeChain t.nodes free
  len : t.freeListLen = free.length
  head : ∀ h ∈ free.head?, t.freeListHead = h
  perm : (owned ++ free).Perm (List.range t.bumpIndex)
  bump_le : t.bumpIndex ≤ MAX_ORDERTREE_NODES

namespace Arena

variable {t : OrderTreeNodes} {owned owned' free : List NodeHandle}

theorem of_perm (h : Arena t owned free) (hp : owned.Perm owned') : Arena t owned' free :=
  { h with perm := (hp.symm.append_right free).trans h.perm }

theorem nodup (h : Arena t owned free) : (owned ++ free).Nodup :=
  h.perm.nodup_iff.mpr nodup_range

variable {x : NodeHandle}

theorem lt_of_mem (h : Arena t owned free) (hx : x ∈ owned ++ free) :
    x < MAX_ORDERTREE_NODES := by
  have hmem := h.perm.mem_iff.mp hx
  exact Nat.lt_of_lt_of_le (mem_range.mp hmem) h.bump_le

theorem lt_of_mem_owned (h : Arena t owned free) (hx : x ∈ owned) :
    x < MAX_ORDERTREE_NODES :=
  h.lt_of_mem (mem_append_left _ hx)

theorem length_add (h : Arena t owned free) : owned.length + free.length = t.bumpIndex := by
  have hlen := h.perm.length_eq
  rwa [length_append, length_range] at hlen

theorem length_owned_le (h : Arena t owned free) : owned.length ≤ MAX_ORDERTREE_NODES := by
  have h1 := h.length_add
  have h2 := h.bump_le
  omega

theorem not_mem_free (h : Arena t owned free) (hx : x ∈ owned) : x ∉ free :=
  fun hf => (disjoint_of_nodup_append h.nodup) hx hf

/-- Writing to an owned slot leaves the allocator alone. -/
theorem setSlot (h : Arena t owned free) (hx : x ∈ owned) (n : AnyNode) :
    Arena (t.setSlot x n) owned free where
  chain := h.chain.congr fun y hy =>
    Function.update_of_ne (fun (heq : y = x) => h.not_mem_free hx (heq ▸ hy)) _ _
  len := h.len
  head := h.head
  perm := h.perm
  bump_le := h.bump_le

end Arena

end MangoV4
