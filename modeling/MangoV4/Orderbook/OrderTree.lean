/-
  MangoV4.Orderbook.OrderTree

  The node array of a book side and the operations on one root in it
  (`ordertree.rs`).

  Two order trees and a free list share one array of 1024 slots.  The array is
  a function from handles to slots; every access through `index` checks the
  handle against the length, as the source's array indexing does.

  The loops of the source walk from a handle to a handle and would not end on
  a cyclic graph.  Here they carry fuel: a walk that visits more nodes than
  there are slots is in a cycle, and its outcome is `diverge`.
-/

import MangoV4.Orderbook.Nodes
import Mathlib.Logic.Function.Basic

namespace MangoV4

open Lib Lib.Exec

def MAX_ORDERTREE_NODES : Nat := 1024

/-- Root of one order tree. -/
structure OrderTreeRoot where
  maybeNode : NodeHandle
  leafCount : Nat
deriving DecidableEq, Repr

def OrderTreeRoot.node (root : OrderTreeRoot) : Option NodeHandle :=
  if root.leafCount = 0 then none else some root.maybeNode

/-- The slots shared by the trees, with a bump allocator and a free list. -/
structure OrderTreeNodes where
  orderTreeType : OrderTreeType
  bumpIndex : Nat
  freeListLen : Nat
  freeListHead : NodeHandle
  nodes : NodeHandle → AnyNode

/-- Path of inner nodes from the root, last one first. -/
abbrev Stack := List (NodeHandle × Bool)

namespace OrderTreeNodes

/-! ## Slots -/

/-- `nodes[handle as usize]` -/
def index (t : OrderTreeNodes) (h : NodeHandle) : Exec AnyNode :=
  if h < MAX_ORDERTREE_NODES then .ok (t.nodes h) else panic .outOfBounds

def node (t : OrderTreeNodes) (h : NodeHandle) : Exec (Option AnyNode) := do
  let n ← t.index h
  return if n.isNode then some n else none

/-- `nodes[handle as usize] = n` -/
def setSlot (t : OrderTreeNodes) (h : NodeHandle) (n : AnyNode) : OrderTreeNodes :=
  { t with nodes := Function.update t.nodes h n }

/-- `*self.node_mut(handle).unwrap() = n` -/
def setNode (t : OrderTreeNodes) (h : NodeHandle) (n : AnyNode) : Exec OrderTreeNodes := do
  let _ ← unwrap (← t.node h)
  return t.setSlot h n

/-- Frees a node's slot without touching any links. -/
def remove (t : OrderTreeNodes) (h : NodeHandle) : Exec (Option (AnyNode × OrderTreeNodes)) := do
  match ← t.node h with
  | none => return none
  | some val =>
    let free := if t.freeListLen = 0 then AnyNode.lastFreeNode t.freeListHead
      else AnyNode.freeNode t.freeListHead
    let len ← checkU32 (t.freeListLen + 1)
    return some (val, { t.setSlot h free with freeListLen := len, freeListHead := h })

/-- Stores a node in a free slot without touching any links. -/
def insert (t : OrderTreeNodes) (val : AnyNode) :
    Exec (Except MangoError NodeHandle × OrderTreeNodes) := do
  if !val.isNode then panic .unreachable
  else if t.freeListLen = 0 then
    if t.bumpIndex < MAX_ORDERTREE_NODES ∧ t.bumpIndex < 2 ^ 32 - 1 then
      return (.ok t.bumpIndex, { t.setSlot t.bumpIndex val with bumpIndex := t.bumpIndex + 1 })
    else return (.error .someError, t)
  else
    match ← t.index t.freeListHead with
    | .freeNode next =>
      assert (decide (1 < t.freeListLen))
      return (.ok t.freeListHead, { t.setSlot t.freeListHead val with
        freeListHead := next, freeListLen := t.freeListLen - 1 })
    | .lastFreeNode next =>
      assert (decide (t.freeListLen = 1))
      return (.ok t.freeListHead, { t.setSlot t.freeListHead val with
        freeListHead := next, freeListLen := t.freeListLen - 1 })
    | _ => panic .unreachable

def isFull (t : OrderTreeNodes) : Bool :=
  decide (t.freeListLen ≤ 1 ∧ MAX_ORDERTREE_NODES - 1 ≤ t.bumpIndex)

/-! ## Expiry bookkeeping -/

/-- Walks up the stack and replaces a child's outdated earliest expiry. -/
def updateParentEarliestExpiry : OrderTreeNodes → Stack → Nat → Nat → Exec OrderTreeNodes
  | t, [], _, _ => .ok t
  | t, (parentH, critBit) :: stack, outdatedExpiry, newExpiry => do
    let contents ← unwrap (← t.node parentH)
    let parent ← unwrap contents.asInner
    if parent.childEarliestExpiry.get critBit ≠ outdatedExpiry then return t
    else
      let parent' :=
        { parent with childEarliestExpiry := parent.childEarliestExpiry.set critBit newExpiry }
      updateParentEarliestExpiry (t.setSlot parentH (.inner parent')) stack
        parent.earliestExpiry parent'.earliestExpiry

/-- The node with the lowest expiry timestamp below `current`, and this timestamp. -/
def findEarliestExpiryFrom (t : OrderTreeNodes) : Nat → NodeHandle → Exec (NodeHandle × Nat)
  | 0, _ => diverge
  | fuel + 1, current => do
    let contents ← unwrap (← t.node current)
    match contents with
    | .inner inner =>
      t.findEarliestExpiryFrom fuel (inner.children.get
        (decide (inner.childEarliestExpiry.at1 < inner.childEarliestExpiry.at0)))
    | .leaf leaf =>
      let e ← leaf.expiry
      return (current, e)
    | _ => panic .unreachable

def findEarliestExpiry (t : OrderTreeNodes) (root : OrderTreeRoot) :
    Exec (Option (NodeHandle × Nat)) := do
  match root.node with
  | none => return none
  | some h =>
    let r ← t.findEarliestExpiryFrom MAX_ORDERTREE_NODES h
    return some r

/-! ## First and last leaf -/

/-- Always takes the same child; `?` on a slot that is not in use. -/
def leafMinMaxFrom (t : OrderTreeNodes) (findMax : Bool) :
    Nat → NodeHandle → Exec (Option (NodeHandle × LeafNode))
  | 0, _ => diverge
  | fuel + 1, h => do
    match ← t.node h with
    | some (.inner inner) => t.leafMinMaxFrom findMax fuel (inner.children.get findMax)
    | some (.leaf leaf) => return some (h, leaf)
    | _ => return none

def leafMinMax (t : OrderTreeNodes) (findMax : Bool) (root : OrderTreeRoot) :
    Exec (Option (NodeHandle × LeafNode)) :=
  match root.node with
  | none => .ok none
  | some h => t.leafMinMaxFrom findMax MAX_ORDERTREE_NODES h

def minLeaf (t : OrderTreeNodes) (root : OrderTreeRoot) := t.leafMinMax false root
def maxLeaf (t : OrderTreeNodes) (root : OrderTreeRoot) := t.leafMinMax true root

def findWorst (t : OrderTreeNodes) (root : OrderTreeRoot) :
    Exec (Option (NodeHandle × LeafNode)) :=
  match t.orderTreeType with
  | .bids => t.minLeaf root
  | .asks => t.maxLeaf root

/-! ## Removing a key -/

/-- The loop of `remove_by_key`: from `childH` down to a leaf.  The stack holds
    the path so far, its top entry is the parent of `childH`.  `none` when the
    leaf has another key. -/
def walkToLeaf (t : OrderTreeNodes) (searchKey : Key) :
    Nat → Stack → NodeHandle → NodeHandle → Bool →
      Exec (Option (Stack × NodeHandle × NodeHandle × Bool))
  | 0, _, _, _, _ => diverge
  | fuel + 1, stack, parentH, childH, critBit => do
    match ← unwrap (← t.node childH) with
    | .inner inner =>
      let (newChildH, newCritBit) ← inner.walkDown searchKey
      t.walkToLeaf searchKey fuel ((childH, newCritBit) :: stack) childH newChildH newCritBit
    | .leaf leaf =>
      return if leaf.key ≠ searchKey then none else some (stack, parentH, childH, critBit)
    | _ => panic .unwrap

/-- The end of `remove_by_key`: the parent's slot takes over its other child. -/
def collapseParent (t : OrderTreeNodes) (root : OrderTreeRoot) (stack : Stack)
    (parentH childH : NodeHandle) (critBit : Bool) :
    Exec (Option LeafNode × OrderTreeNodes × OrderTreeRoot) := do
  let parent ← unwrap (← t.node parentH)
  let otherChildH := (← unwrap (← parent.children)).get (!critBit)
  let (otherContents, t) ← unwrap (← t.remove otherChildH)
  let newExpiry ← otherContents.earliestExpiry
  let t ← t.setNode parentH otherContents
  let leafCount ← subUnsigned root.leafCount 1
  let (removed, t) ← unwrap (← t.remove childH)
  let removedLeaf ← unwrap removed.asLeaf
  let outdatedExpiry ← removedLeaf.expiry
  -- the final parent has been replaced, so its stack entry is dropped
  let t ← t.updateParentEarliestExpiry stack.tail outdatedExpiry newExpiry
  return (some removedLeaf, t, { root with leafCount := leafCount })

def removeByKey (t : OrderTreeNodes) (root : OrderTreeRoot) (searchKey : Key) :
    Exec (Option LeafNode × OrderTreeNodes × OrderTreeRoot) := do
  match root.node with
  | none => return (none, t, root)
  | some parentH =>
    match ← unwrap (← t.node parentH) with
    | .leaf leaf =>
      if leaf.key = searchKey then
        assert (decide (root.leafCount = 1))
        let (_, t) ← unwrap (← t.remove parentH)
        return (some leaf, t, { maybeNode := 0, leafCount := 0 })
      else return (none, t, root)
    | .inner inner =>
      let (childH, critBit) ← inner.walkDown searchKey
      match ← t.walkToLeaf searchKey MAX_ORDERTREE_NODES [(parentH, critBit)]
          parentH childH critBit with
      | none => return (none, t, root)
      | some (stack, parentH, childH, critBit) =>
        t.collapseParent root stack parentH childH critBit
    | _ => panic .unwrap

/-- Remove the order with the lowest expiry timestamp, if that's < now_ts. -/
def removeOneExpired (t : OrderTreeNodes) (root : OrderTreeRoot) (nowTs : Nat) :
    Exec (Option LeafNode × OrderTreeNodes × OrderTreeRoot) := do
  match ← t.findEarliestExpiry root with
  | none => return (none, t, root)
  | some (h, expiresAt) =>
    if expiresAt < nowTs then
      match ← t.node h with
      | none => return (none, t, root)
      | some n =>
        match n.key with
        | none => return (none, t, root)
        | some k => t.removeByKey root k
    else return (none, t, root)

/-! ## Inserting a leaf -/

/-- Where the loop of `insert_leaf` stops descending. -/
inductive InsertSpot where
  /-- at a leaf with the new key -/
  | clobber (stack : Stack) (parentHandle : NodeHandle) (oldParent : LeafNode)
  /-- at a node that parts from the new key after `sharedPrefixLen` bits -/
  | split (stack : Stack) (parentHandle : NodeHandle) (parentContents : AnyNode)
      (sharedPrefixLen : Nat)

/-- The loop of `insert_leaf`: walk down the tree until the insert location. -/
def walkToInsert (t : OrderTreeNodes) (newKey : Key) :
    Nat → Stack → NodeHandle → Exec InsertSpot
  | 0, _, _ => diverge
  | fuel + 1, stack, parentHandle => do
    let parentContents ← unwrap (← t.node parentHandle)
    let parentKey ← unwrap parentContents.key
    let sharedPrefixLen := leadingZeros (parentKey ^^^ newKey)
    match parentContents with
    | .leaf oldParent =>
      if parentKey = newKey then return .clobber stack parentHandle oldParent
      else return .split stack parentHandle parentContents sharedPrefixLen
    | .inner inner =>
      -- inner nodes have a random child's key, so an equal key is fine
      if inner.prefixLen ≤ sharedPrefixLen then do
        let (child, critBit) ← inner.walkDown newKey
        t.walkToInsert newKey fuel ((parentHandle, critBit) :: stack) child
      else return .split stack parentHandle parentContents sharedPrefixLen
    | _ => panic .unreachable

/-- Overwrites the leaf that has the new leaf's key. -/
def clobberLeaf (t : OrderTreeNodes) (root : OrderTreeRoot) (newLeaf : LeafNode) (stack : Stack)
    (parentHandle : NodeHandle) (oldParent : LeafNode) :
    Exec (Except MangoError (NodeHandle × Option LeafNode) × OrderTreeNodes × OrderTreeRoot) := do
  let t ← t.setNode parentHandle (.leaf newLeaf)
  let oldExpiry ← oldParent.expiry
  let newExpiry ← newLeaf.expiry
  let t ← t.updateParentEarliestExpiry stack oldExpiry newExpiry
  return (.ok (parentHandle, some oldParent), t, root)

/-- The end of `insert_leaf`: the slot of the node at the insert location becomes
    an inner node above the new leaf and that node, moved elsewhere. -/
def linkNewParent (t : OrderTreeNodes) (root : OrderTreeRoot) (newLeaf : LeafNode) (stack : Stack)
    (parentHandle : NodeHandle) (parentContents : AnyNode) (sharedPrefixLen : Nat)
    (newLeafCritBit : Bool) (newLeafHandle movedParentHandle : NodeHandle) :
    Exec (Except MangoError (NodeHandle × Option LeafNode) × OrderTreeNodes × OrderTreeRoot) := do
  let oldParentCritBit := !newLeafCritBit
  let _ ← unwrap (← t.node parentHandle)
  let newLeafExpiry ← newLeaf.expiry
  let oldParentExpiry ← parentContents.earliestExpiry
  let newParent := InnerNode.new sharedPrefixLen newLeaf.key
  let newParent := { newParent with
    children := (newParent.children.set newLeafCritBit newLeafHandle).set
      oldParentCritBit movedParentHandle
    childEarliestExpiry := (newParent.childEarliestExpiry.set newLeafCritBit
      newLeafExpiry).set oldParentCritBit oldParentExpiry }
  let t := t.setSlot parentHandle (.inner newParent)
  let t ← (if newLeafExpiry < oldParentExpiry then
      t.updateParentEarliestExpiry stack oldParentExpiry newLeafExpiry
    else .ok t : Exec OrderTreeNodes)
  let leafCount ← checkU32 (root.leafCount + 1)
  return (.ok (newLeafHandle, none), t, { root with leafCount := leafCount })

/-- Makes room for the new leaf and the node at the insert location, and links
    them.  If the second slot is missing, the first one is given back. -/
def splitParent (t : OrderTreeNodes) (root : OrderTreeRoot) (newLeaf : LeafNode) (stack : Stack)
    (parentHandle : NodeHandle) (parentContents : AnyNode) (sharedPrefixLen : Nat) :
    Exec (Except MangoError (NodeHandle × Option LeafNode) × OrderTreeNodes × OrderTreeRoot) := do
  let critBitMask ← InnerNode.critBitMask sharedPrefixLen
  let newLeafCritBit := decide (critBitMask &&& newLeaf.key ≠ 0#128)
  let (newLeafHandle, t) ← t.insert (.leaf newLeaf)
  match newLeafHandle with
  | .error e => return (.error e, t, root)
  | .ok newLeafHandle =>
    let (movedParentHandle, t) ← t.insert parentContents
    match movedParentHandle with
    | .error e =>
      let (_, t) ← unwrap (← t.remove newLeafHandle)
      return (.error e, t, root)
    | .ok movedParentHandle =>
      t.linkNewParent root newLeaf stack parentHandle parentContents sharedPrefixLen
        newLeafCritBit newLeafHandle movedParentHandle

def insertLeaf (t : OrderTreeNodes) (root : OrderTreeRoot) (newLeaf : LeafNode) :
    Exec (Except MangoError (NodeHandle × Option LeafNode) × OrderTreeNodes × OrderTreeRoot) := do
  match root.node with
  | none =>
    let (handle, t) ← t.insert (.leaf newLeaf)
    match handle with
    | .error e => return (.error e, t, root)
    | .ok handle => return (.ok (handle, none), t, { maybeNode := handle, leafCount := 1 })
  | some parentHandle =>
    match ← t.walkToInsert newLeaf.key MAX_ORDERTREE_NODES [] parentHandle with
    | .clobber stack parentHandle oldParent =>
      t.clobberLeaf root newLeaf stack parentHandle oldParent
    | .split stack parentHandle parentContents sharedPrefixLen =>
      t.splitParent root newLeaf stack parentHandle parentContents sharedPrefixLen

end OrderTreeNodes

end MangoV4
