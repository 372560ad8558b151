/-
  MangoV4.Orderbook.Queue

  The event queue of a perp market (`queue.rs`): a ring buffer of fill and out
  events with a sequence number.
-/

import MangoV4.Orderbook.Nodes
import MangoV4.Lib.Ring
import MangoV4.Lib.Fixed

namespace MangoV4

open Lib Lib.Exec

/-- 128 bit fixed-point numbers with 48 fractional bits. -/
abbrev I80F48 := Fixed 128 48

namespace I80F48

/-- `I80F48::ONE` -/
def ONE : I80F48 := ⟨2 ^ 48, by decide⟩

/-- `I80F48::DELTA`, the smallest positive number -/
def DELTA : I80F48 := ⟨1, by decide⟩

/-- `I80F48::MAX` -/
def MAX : I80F48 := ⟨2 ^ 127 - 1, by decide⟩

def MIN : I80F48 := ⟨-2 ^ 127, by decide⟩

theorem half_inRange : -2 ^ (128 - 1) ≤ (2 : Int) ^ 47 ∧ (2 : Int) ^ 47 < 2 ^ (128 - 1) := by decide

theorem eighth_inRange : -2 ^ (128 - 1) ≤ (2 : Int) ^ 45 ∧ (2 : Int) ^ 45 < 2 ^ (128 - 1) := by decide

instance : NeZero (2 ^ 32) := ⟨by decide⟩

/-- An integer that is known to fit. -/
def ofSmall (n : Fin (2 ^ 32)) : I80F48 where
  raw := n.val * 2 ^ 48
  inRange := by
    have h := n.isLt
    constructor <;> omega

end I80F48

/-- `f32` fields that hold a converted `I80F48`. -/
abbrev F32 := Lib.Float 24 48

def MAX_NUM_EVENTS : Nat := 488

/-- A taker order matched a resting order; `takerSide` is the taker's side. -/
structure FillEvent where
  takerSide : Side
  makerOut : Bool
  makerSlot : Nat
  timestamp : Nat
  seqNum : Nat
  maker : Pubkey
  makerOrderId : Key
  makerClientOrderId : Nat
  makerFee : F32
  makerTimestamp : Nat
  taker : Pubkey
  takerClientOrderId : Nat
  takerFee : F32
  price : Int
  quantity : Int
deriving DecidableEq

/-- A resting order has left the book without being filled. -/
structure OutEvent where
  side : Side
  ownerSlot : Nat
  timestamp : Nat
  seqNum : Nat
  owner : Pubkey
  quantity : Int
  orderId : Key
deriving DecidableEq

inductive AnyEvent where
  | fill (e : FillEvent)
  | out (e : OutEvent)
  | liquidate
deriving DecidableEq

namespace FillEvent

/-- The constructor of the source: fees are stored as `f32`. -/
def new (takerSide : Side) (makerOut : Bool) (makerSlot timestamp seqNum : Nat) (maker : Pubkey)
    (makerOrderId : Key) (makerClientOrderId : Nat) (makerFee : I80F48) (makerTimestamp : Nat)
    (taker : Pubkey) (takerClientOrderId : Nat) (takerFee : I80F48) (price quantity : Int) :
    FillEvent where
  takerSide := takerSide
  makerOut := makerOut
  makerSlot := makerSlot
  timestamp := timestamp
  seqNum := seqNum
  maker := maker
  makerOrderId := makerOrderId
  makerClientOrderId := makerClientOrderId
  makerFee := .ofFixed makerFee
  makerTimestamp := makerTimestamp
  taker := taker
  takerClientOrderId := takerClientOrderId
  takerFee := .ofFixed takerFee
  price := price
  quantity := quantity

/-- Base and quote change for the party on `side`, computed in `i64`. -/
def baseQuoteChange (e : FillEvent) : Side → Exec (Int × Int)
  | .bid => do
    let negPrice ← checkI64 (-e.price)
    return (e.quantity, ← checkI64 (negPrice * e.quantity))
  | .ask => do
    let negQuantity ← checkI64 (-e.quantity)
    return (negQuantity, ← checkI64 (e.price * e.quantity))

/-- The change `baseQuoteChange` computes. -/
def change (e : FillEvent) : Side → Int × Int
  | .bid => (e.quantity, -(e.price * e.quantity))
  | .ask => (-e.quantity, e.price * e.quantity)

theorem baseQuoteChange_eq_ok {e : FillEvent} {side : Side} {c : Int × Int}
    (h : e.baseQuoteChange side = .ok c) : c = e.change side := by
  cases side with
  | bid =>
    obtain ⟨p, hp, h⟩ := of_bind h
    obtain ⟨q, hq, h⟩ := of_bind h
    obtain ⟨-, rfl⟩ := checkI64_eq_ok.mp hp
    obtain ⟨-, rfl⟩ := checkI64_eq_ok.mp hq
    rw [← ok_inj h, change, Int.neg_mul]
  | ask =>
    obtain ⟨n, hn, h⟩ := of_bind h
    obtain ⟨q, hq, h⟩ := of_bind h
    obtain ⟨-, rfl⟩ := checkI64_eq_ok.mp hn
    obtain ⟨-, rfl⟩ := checkI64_eq_ok.mp hq
    exact (ok_inj h).symm

end FillEvent

/-- The event for a leaf that leaves the book. -/
def OutEvent.fromLeafNode (side : Side) (timestamp seqNum : Nat) (node : LeafNode) : OutEvent where
  side := side
  ownerSlot := node.ownerSlot
  timestamp := timestamp
  seqNum := seqNum
  owner := node.owner
  quantity := node.quantity
  orderId := node.key

/-- The queue: a ring buffer and the number of the next event. -/
structure EventQueue extends Ring AnyEvent MAX_NUM_EVENTS where
  seqNum : Nat

namespace EventQueue

/-- An account of zeros. -/
def zeroed : EventQueue where
  head := 0
  count := 0
  buf := fun _ => .liquidate
  head_lt := by decide
  count_le := Nat.zero_le _
  seqNum := 0

/-- The queued events, first one first. -/
def events (q : EventQueue) : List AnyEvent := q.toRing.toList

/-- `push_back(value).unwrap()`, which is how every caller uses it. -/
def pushBack (q : EventQueue) (value : AnyEvent) : Exec EventQueue := do
  let ring ← unwrap (q.toRing.pushBack value)
  let seqNum ← checkU64 (q.seqNum + 1)
  return { toRing := ring, seqNum }

def peekFront (q : EventQueue) : Option AnyEvent := q.toRing.peekFront

def popFront (q : EventQueue) : Exec (AnyEvent × EventQueue) :=
  match q.toRing.popFront with
  | none => fail .someError
  | some (value, ring) => .ok (value, { toRing := ring, seqNum := q.seqNum })

theorem events_pushBack {q q' : EventQueue} {value : AnyEvent} (h : q.pushBack value = .ok q') :
    q'.events = q.events ++ [value] ∧ q'.seqNum = q.seqNum + 1 := by
  obtain ⟨ring, hring, h⟩ := of_bind h
  obtain ⟨-, h⟩ := of_checkU64 h
  obtain rfl := ok_inj h
  exact ⟨Ring.toList_pushBack (unwrap_eq_ok.mp hring), rfl⟩

theorem peekFront_eq (q : EventQueue) : q.peekFront = q.events.head? := q.toRing.peekFront_eq

theorem events_popFront {q q' : EventQueue} {value : AnyEvent}
    (h : q.popFront = .ok (value, q')) : q.events = value :: q'.events := by
  unfold popFront at h
  cases hpop : q.toRing.popFront with
  | none =>
    rw [hpop] at h
    cases h
  | some p =>
    rw [hpop] at h
    obtain ⟨rfl, rfl⟩ := ok_inj₂ h
    exact Ring.toList_popFront hpop

/-- Popping fails only on an empty queue. -/
theorem popFront_of_cons {q : EventQueue} {value : AnyEvent} {rest : List AnyEvent}
    (h : q.events = value :: rest) :
    ∃ q', q.popFront = .ok (value, q') ∧ q'.events = rest := by
  unfold popFront
  cases hpop : q.toRing.popFront with
  | none =>
    have hnil := Ring.popFront_eq_none.mp hpop
    rw [events, hnil] at h
    cases h
  | some p =>
    have hcons := Ring.toList_popFront hpop
    rw [events, hcons] at h
    obtain ⟨rfl, rfl⟩ := List.cons.inj h
    exact ⟨_, rfl, rfl⟩

end EventQueue

end MangoV4
