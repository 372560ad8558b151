/-
  MangoV4.Orderbook.Nodes

  The nodes of an order tree (`nodes.rs`): keys, price data, inner nodes,
  leaves and the free-list nodes that share their slots.

  A node is a tagged union in the source, all variants cast from the same 120
  bytes; here it is one inductive type, so a node's tag and its payload cannot
  disagree.
-/

import MangoV4.Orderbook.OrderType
import MangoV4.Lib.CritBit

namespace MangoV4

open Lib Lib.Exec

abbrev NodeHandle := Nat
abbrev Key := BitVec 128
abbrev Pubkey := BitVec 256

def U64_MAX : Nat := 2 ^ 64 - 1
def I64_MAX : Int := 2 ^ 63 - 1
def I64_MIN : Int := -(2 ^ 63)

/-- `i64::saturating_add` -/
def saturatingAddI64 (x y : Int) : Int := max I64_MIN (min I64_MAX (x + y))

/-- `i64::saturating_sub` -/
def saturatingSubI64 (x y : Int) : Int := max I64_MIN (min I64_MAX (x - y))

/-! ## Keys and price data -/

/-- A tree key: price data in the top 64 bits, an ordering number below. -/
def newNodeKey (side : Side) (priceData seqNum : BitVec 64) : Key :=
  let seqNum := match side with
    | .bid => ~~~seqNum
    | .ask => seqNum
  (priceData.zeroExtend 128 <<< 64) ||| seqNum.zeroExtend 128

/-- Price data of an oracle pegged order: the offset shifted to be unsigned. -/
def oraclePeggedPriceData (priceOffsetLots : Int) : BitVec 64 :=
  BitVec.ofInt 64 priceOffsetLots + BitVec.ofNat 64 (2 ^ 63)

def oraclePeggedPriceOffset (priceData : BitVec 64) : Int :=
  (priceData - BitVec.ofNat 64 (2 ^ 63)).toInt

def fixedPriceData (priceLots : Int) : Exec (BitVec 64) := do
  require (decide (1 ≤ priceLots)) .requireGteViolated
  return BitVec.ofInt 64 priceLots

def fixedPriceLots (priceData : BitVec 64) : Exec Int := do
  assert (decide ((priceData.toNat : Int) ≤ I64_MAX))
  return priceData.toNat

/-! ## Nodes -/

/-- A two-element array, indexed by a bit. -/
structure Two (α : Type) where
  at0 : α
  at1 : α
deriving DecidableEq, Repr

namespace Two

variable {α : Type}

def get (a : Two α) : Bool → α
  | false => a.at0
  | true => a.at1

def set (a : Two α) : Bool → α → Two α
  | false, x => { a with at0 := x }
  | true, x => { a with at1 := x }

@[simp] theorem get_set_self (a : Two α) (b : Bool) (x : α) : (a.set b x).get b = x := by
  cases b <;> rfl

@[simp] theorem get_set_not (a : Two α) (b : Bool) (x : α) :
    (a.set b x).get (!b) = a.get (!b) := by
  cases b <;> rfl

end Two

/-- Inner node: its children share the top `prefixLen` bits of `key`; the
    left child has a 0 in the next bit and the right one a 1. -/
structure InnerNode where
  prefixLen : Nat
  key : Key
  children : Two NodeHandle
  childEarliestExpiry : Two Nat
deriving DecidableEq, Repr

/-- Leaf node: one order. -/
structure LeafNode where
  ownerSlot : Nat
  orderType : PostOrderType
  timeInForce : Nat
  key : Key
  owner : Pubkey
  quantity : Int
  timestamp : Nat
  pegLimit : Int
  clientOrderId : Nat
deriving DecidableEq, Repr

/-- A slot of the node array. -/
inductive AnyNode where
  | uninitialized
  | inner (n : InnerNode)
  | leaf (n : LeafNode)
  | freeNode (next : NodeHandle)
  | lastFreeNode (next : NodeHandle)
deriving DecidableEq, Repr

namespace InnerNode

def new (prefixLen : Nat) (key : Key) : InnerNode :=
  { prefixLen, key, children := ⟨0, 0⟩, childEarliestExpiry := ⟨U64_MAX, U64_MAX⟩ }

/-- `1u128 << (127 - prefix_len)` -/
def critBitMask (prefixLen : Nat) : Exec Key := do
  let shift ← subUnsigned 127 prefixLen
  return 1#128 <<< shift

/-- The child that may contain the search key, and which one it is. -/
def walkDown (n : InnerNode) (searchKey : Key) : Exec (NodeHandle × Bool) := do
  let mask ← critBitMask n.prefixLen
  let critBit := decide (searchKey &&& mask ≠ 0#128)
  return (n.children.get critBit, critBit)

def earliestExpiry (n : InnerNode) : Nat :=
  min n.childEarliestExpiry.at0 n.childEarliestExpiry.at1

end InnerNode

namespace LeafNode

/-- The order's price data as stored in the key. -/
def priceData (n : LeafNode) : BitVec 64 := (n.key >>> 64).truncate 64

/-- Time at which the order expires, `u64::MAX` if never. -/
def expiry (n : LeafNode) : Exec Nat :=
  if n.timeInForce = 0 then .ok U64_MAX else checkU64 (n.timestamp + n.timeInForce)

def isExpired (n : LeafNode) (nowTs : Nat) : Exec Bool :=
  if n.timeInForce = 0 then .ok false
  else do
    let expiresAt ← checkU64 (n.timestamp + n.timeInForce)
    return decide (expiresAt ≤ nowTs)

/-- The expiry time can be computed without overflow. -/
def ExpiryFits (n : LeafNode) : Prop := n.timeInForce = 0 ∨ n.timestamp + n.timeInForce < 2 ^ 64

instance (n : LeafNode) : Decidable n.ExpiryFits :=
  inferInstanceAs (Decidable (_ ∨ _))

end LeafNode

namespace AnyNode

/-- Inner nodes and leaves are in use, the others are not. -/
def isNode : AnyNode → Bool
  | .inner _ | .leaf _ => true
  | _ => false

def key : AnyNode → Option Key
  | .inner n => some n.key
  | .leaf n => some n.key
  | _ => none

def children : AnyNode → Exec (Option (Two NodeHandle))
  | .inner n => .ok (some n.children)
  | .leaf _ => .ok none
  | _ => panic .unwrap

def asLeaf : AnyNode → Option LeafNode
  | .leaf n => some n
  | _ => none

def asInner : AnyNode → Option InnerNode
  | .inner n => some n
  | _ => none

def earliestExpiry : AnyNode → Exec Nat
  | .inner n => .ok n.earliestExpiry
  | .leaf n => n.expiry
  | _ => panic .unwrap

end AnyNode

/-! ## Reading keys and bits -/

theorem critBitMask_eq {n : Nat} (h : n < 128) :
    InnerNode.critBitMask n = .ok (1#128 <<< (127 - n)) := by
  unfold InnerNode.critBitMask subUnsigned
  rw [if_pos (by omega)]
  rfl

/-- Testing a key against the crit-bit mask reads the bit after the prefix. -/
theorem decide_mask_eq {n : Nat} (h : n < 128) (k : Key) :
    decide (k &&& (1#128 <<< (127 - n)) ≠ 0#128) = k.getMsbD n := by
  have hiff := and_mask_ne_zero_iff (w := 128) h k
  cases hb : k.getMsbD n with
  | false => simpa [hb] using hiff
  | true => simpa [hb] using hiff

/-- Walking down follows the key's bit at the node's prefix length. -/
theorem walkDown_eq (n : InnerNode) (h : n.prefixLen < 128) (k : Key) :
    n.walkDown k = .ok (n.children.get (k.getMsbD n.prefixLen), k.getMsbD n.prefixLen) := by
  unfold InnerNode.walkDown
  rw [critBitMask_eq h, ok_bind, pure_eq_ok, decide_mask_eq h]

/-- The only way computing an expiry fails is an overflow. -/
theorem expiry_cases (n : LeafNode) :
    (∃ e, n.expiry = .ok e) ∨ (n.expiry = panic .overflow ∧ ¬ n.ExpiryFits) := by
  unfold LeafNode.expiry checkU64 checkUnsigned LeafNode.ExpiryFits
  by_cases h0 : n.timeInForce = 0
  · exact Or.inl ⟨_, if_pos h0⟩
  · rw [if_neg h0]
    by_cases hlt : n.timestamp + n.timeInForce < 2 ^ 64
    · exact Or.inl ⟨_, if_pos hlt⟩
    · exact Or.inr ⟨if_neg hlt, by simp [h0]; omega⟩

end MangoV4
