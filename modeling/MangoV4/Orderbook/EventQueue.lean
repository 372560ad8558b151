/-
  MangoV4.Orderbook.EventQueue

  The event queue is a bounded FIFO.

  The mutators of `queue.rs` with all their results, the iterator, and what a
  reader sees who peeks and pops until nothing is left.  Every operation does
  to the list of queued events what the FIFO of `Lib.Fifo` does, and ends the
  same way (`exec_mirrors`); `queue_refines_fifo` is the result for runs.
-/

import MangoV4.Orderbook.Book
import MangoV4.Lib.Fifo
import MangoV4.Lib.Simulation

namespace MangoV4

open Lib Lib.Exec List AnyEvent

/-- The number that a fill or out event stores. -/
def AnyEvent.seqNum? : AnyEvent → Option Nat
  | .fill e => some e.seqNum
  | .out e => some e.seqNum
  | .liquidate => none

namespace EventQueue

/-! ## The functions -/

def len (q : EventQueue) : Nat := q.count

/-- `push_back` before its result is unwrapped: a full queue hands the value back. -/
def tryPushBack (q : EventQueue) (value : AnyEvent) :
    Exec (Except AnyEvent Unit × EventQueue) :=
  match q.toRing.pushBack value with
  | none => .ok (.error value, q)
  | some ring => do
    let seqNum ← checkU64 (q.seqNum + 1)
    return (.ok (), { toRing := ring, seqNum })

/-- Takes back the last pushes, until `desiredLen` events are left. -/
def revertPushes (q : EventQueue) (desiredLen : Nat) : Exec EventQueue :=
  if h : desiredLen ≤ q.count then do
    let seqNum ← subUnsigned q.seqNum (q.count - desiredLen)
    return { toRing := q.toRing.truncate desiredLen h, seqNum }
  else fail .someError

end EventQueue

/-- `EventQueueIterator` -/
structure EventQueueIterator where
  queue : EventQueue
  index : Nat

namespace EventQueueIterator

def next (it : EventQueueIterator) : Option (AnyEvent × EventQueueIterator) :=
  if it.index = it.queue.len then none
  else some (it.queue.buf ((it.queue.head + it.index) % MAX_NUM_EVENTS),
    { it with index := it.index + 1 })

/-- Everything the iterator yields, if it ends within `fuel` calls of `next`. -/
def collect : Nat → EventQueueIterator → Option (List AnyEvent)
  | 0, _ => none
  | fuel + 1, it =>
    match it.next with
    | none => some []
    | some (event, it) => (collect fuel it).map (event :: ·)

end EventQueueIterator

namespace EventQueue

def iter (q : EventQueue) : EventQueueIterator := ⟨q, 0⟩

/-- What is seen by peeking and popping until the queue is empty.  There is
    nothing to see if a pop fails or takes another event than the one that was
    peeked at, or if `fuel` rounds are not enough. -/
def drain : Nat → EventQueue → Option (List AnyEvent)
  | 0, _ => none
  | fuel + 1, q =>
    match q.peekFront, q.popFront with
    | none, _ => some []
    | some event, .ok (event', q) =>
      if event = event' then (drain fuel q).map (event :: ·) else none
    | some _, .error _ => none

/-! ## Reading -/

variable {q q' : EventQueue}

theorem length_events (q : EventQueue) : q.events.length = q.len := q.toRing.length_toList

theorem len_le (q : EventQueue) : q.len ≤ MAX_NUM_EVENTS := q.count_le

/-- From any index on, the iterator yields the rest of the events. -/
theorem collect_eq (q : EventQueue) :
    ∀ {fuel index : Nat}, index ≤ q.len → q.len - index < fuel →
      EventQueueIterator.collect fuel ⟨q, index⟩ = some (q.events.drop index) := by
  intro fuel
  induction fuel with
  | zero =>
    intro index _ hfuel
    omega
  | succ fuel ih =>
    intro index hindex hfuel
    unfold EventQueueIterator.collect EventQueueIterator.next
    by_cases hend : index = q.len
    · rw [if_pos hend, drop_of_length_le (by rw [length_events, hend])]
    · have hlt : index < q.events.length := by
        rw [length_events]
        omega
      have hitem : q.events[index] = q.buf ((q.head + index) % MAX_NUM_EVENTS) := by
        have hget := q.toRing.getElem?_toList (i := index) (by
          rw [length_events] at hlt
          exact hlt)
        exact Option.some.inj ((getElem?_eq_getElem hlt).symm.trans hget)
      rw [if_neg hend]
      simp only
      rw [ih (by omega) (by omega), Option.map_some, drop_eq_getElem_cons hlt, hitem]

/-- Peeking and popping yields the events. -/
theorem drain_eq : ∀ {fuel : Nat} (q : EventQueue), q.len < fuel → drain fuel q = some q.events := by
  intro fuel
  induction fuel with
  | zero =>
    intro q hfuel
    omega
  | succ fuel ih =>
    intro q hfuel
    unfold drain
    rw [peekFront_eq]
    cases hevents : q.events with
    | nil => rfl
    | cons event es =>
      obtain ⟨q', hpop, hrest⟩ := popFront_of_cons hevents
      have hlen : q'.len < fuel := by
        have hlength := length_events q
        rw [hevents, length_cons, ← hrest, length_events] at hlength
        omega
      rw [hpop]
      simp only [head?_cons, if_true]
      rw [ih q' hlen, hrest]
      rfl

/-! ## Refinement -/

/-- The queue as a FIFO. -/
def fifo (q : EventQueue) : Fifo AnyEvent := ⟨q.events, q.seqNum⟩

@[simp] theorem items_fifo (q : EventQueue) : q.fifo.items = q.events := rfl

@[simp] theorem counter_fifo (q : EventQueue) : q.fifo.counter = q.seqNum := rfl

/-- The mutators, with their results as replies. -/
def exec : Fifo.Op AnyEvent → EventQueue → Exec (Fifo.Reply AnyEvent × EventQueue)
  | .push value, q => do
    match ← q.tryPushBack value with
    | (.error value, q) => return (.full value, q)
    | (.ok (), q) => return (.pushed, q)
  | .pop, q => do
    let (value, q) ← q.popFront
    return (.popped value, q)
  | .revert desiredLen, q => do return (.reverted, ← q.revertPushes desiredLen)

theorem seqNum_popFront {value : AnyEvent} (h : q.popFront = .ok (value, q')) :
    q'.seqNum = q.seqNum := by
  unfold popFront at h
  split at h
  · cases h
  · obtain ⟨-, rfl⟩ := ok_inj₂ h
    rfl

theorem tryPushBack_of_full {value : AnyEvent} (h : q.len = MAX_NUM_EVENTS) :
    q.tryPushBack value = .ok (.error value, q) := by
  have hnone : q.toRing.pushBack value = none := by
    rw [Ring.pushBack_eq_none, Ring.length_toList]
    exact h
  rw [tryPushBack, hnone]

theorem tryPushBack_of_room (value : AnyEvent) (h : q.len ≠ MAX_NUM_EVENTS) :
    ∃ ring, ring.toList = q.events ++ [value] ∧
      q.tryPushBack value = (do
        let seqNum ← checkU64 (q.seqNum + 1)
        return (.ok (), { toRing := ring, seqNum })) := by
  cases hpush : q.toRing.pushBack value with
  | none =>
    rw [Ring.pushBack_eq_none, Ring.length_toList] at hpush
    exact absurd hpush h
  | some ring =>
    refine ⟨ring, Ring.toList_pushBack hpush, ?_⟩
    rw [tryPushBack, hpush]

/-- Every operation ends as the FIFO's does and leaves the same events. -/
theorem exec_mirrors :
    Mirrors exec (Fifo.exec MAX_NUM_EVENTS MangoError.someError) fifo := by
  intro op q
  cases op with
  | push value =>
    rw [exec, Fifo.exec, items_fifo, counter_fifo, length_events]
    by_cases hfull : q.len = MAX_NUM_EVENTS
    · rw [if_pos hfull, tryPushBack_of_full hfull]
      rfl
    · obtain ⟨ring, hring, hpush⟩ := tryPushBack_of_room value hfull
      rw [if_neg hfull, hpush]
      show Except.map _ (checkU64 (q.seqNum + 1) >>= _ >>= _) = checkU64 (q.seqNum + 1) >>= _
      cases checkU64 (q.seqNum + 1) with
      | error f => rfl
      | ok n =>
        show Except.ok (_, (⟨ring.toList, n⟩ : Fifo AnyEvent)) = _
        rw [hring]
        rfl
  | pop =>
    rw [exec, Fifo.exec, items_fifo]
    cases hevents : q.events with
    | nil =>
      have hnone : q.popFront = fail .someError := by
        rw [popFront, Ring.popFront_eq_none.mpr hevents]
      rw [hnone]
      rfl
    | cons event es =>
      obtain ⟨q', hpop, hrest⟩ := popFront_of_cons hevents
      have hview : q'.fifo = ⟨es, q.seqNum⟩ := by
        rw [fifo, hrest, seqNum_popFront hpop]
      rw [hpop]
      show Except.ok (Fifo.Reply.popped event, q'.fifo) = _
      rw [hview]
      rfl
  | revert len =>
    rw [exec, Fifo.exec, items_fifo, counter_fifo, length_events, revertPushes]
    show _ = require (decide (len ≤ q.count)) _ >>= fun _ =>
      subUnsigned q.seqNum (q.count - len) >>= fun _ => _
    by_cases hlen : len ≤ q.count
    · rw [dif_pos hlen, require, if_pos (decide_eq_true hlen), ok_bind]
      show Except.map _ (subUnsigned q.seqNum (q.count - len) >>= _ >>= _) =
        subUnsigned q.seqNum (q.count - len) >>= _
      cases subUnsigned q.seqNum (q.count - len) with
      | error f => rfl
      | ok n =>
        show Except.ok (_, (⟨(q.toRing.truncate len hlen).toList, n⟩ : Fifo AnyEvent)) = _
        rw [Ring.toList_truncate]
        rfl
    · rw [dif_neg hlen, require, if_neg (by simpa using hlen)]
      rfl

/-! ## Runs -/

variable {ops : List (Fifo.Op AnyEvent)}

/-- Events are pushed with the sequence number of the queue, as `new_order` does. -/
def PushesSeqNum (op : Fifo.Op AnyEvent) (q : EventQueue) : Prop :=
  ∀ value, op = .push value → value.seqNum? = some q.seqNum

theorem exec_numbered {op : Fifo.Op AnyEvent} {r : Fifo.Reply AnyEvent}
    (hq : q.fifo.Numbered seqNum?) (hop : PushesSeqNum op q)
    (h : exec op q = .ok (r, q')) : q'.fifo.Numbered seqNum? := by
  have hfifo : Fifo.exec MAX_NUM_EVENTS MangoError.someError op q.fifo = .ok (r, q'.fifo) := by
    rw [← exec_mirrors op q, h]
    rfl
  exact Fifo.exec_numbered hq hop hfifo

/-- After every run from any queue, the queue is what the bounded FIFO is after
    the same operations, and both ended every operation the same way.  The
    events are what the iterator yields and what peeking and popping yields.
    If all events are pushed with the sequence number of the queue, those that
    are queued have consecutive ones that end right before it. -/
theorem queue_refines_fifo (q : EventQueue) (ops : List (Fifo.Op AnyEvent)) :
    let q' := run exec q ops
    (q'.fifo = run (Fifo.exec MAX_NUM_EVENTS MangoError.someError) q.fifo ops ∧
      outcomes exec q ops = outcomes (Fifo.exec MAX_NUM_EVENTS MangoError.someError) q.fifo ops) ∧
    (∀ fuel, q'.len < fuel →
      q'.iter.collect fuel = some q'.events ∧ drain fuel q' = some q'.events) ∧
    q'.len = q'.events.length ∧ q'.len ≤ MAX_NUM_EVENTS ∧
    (∀ value, (∃ q'', q'.tryPushBack value = .ok (.error value, q'')) ↔ q'.len = MAX_NUM_EVENTS) ∧
    (q'.popFront = fail .someError ↔ q'.len = 0) ∧
    (q.fifo.Numbered AnyEvent.seqNum? → Guarded exec PushesSeqNum q ops →
      q'.events.map AnyEvent.seqNum? =
        (List.range' (q'.seqNum - q'.len) q'.len).map some ∧ q'.len ≤ q'.seqNum ∧
      (q'.events.map AnyEvent.seqNum?).Nodup) := by
  intro q'
  refine ⟨exec_mirrors.run ops q, fun fuel hfuel => ⟨?_, drain_eq q' hfuel⟩,
    (length_events q').symm, q'.len_le, fun value => ?_, ?_, fun hstart hpushes => ?_⟩
  · exact collect_eq q' (Nat.zero_le _) hfuel
  · constructor
    · rintro ⟨q'', hpush⟩
      by_contra hroom
      obtain ⟨ring, -, hok⟩ := tryPushBack_of_room value hroom
      rw [hok] at hpush
      obtain ⟨n, -, hpush⟩ := of_bind hpush
      cases hpush
    · intro hfull
      exact ⟨q', tryPushBack_of_full hfull⟩
  · rw [← length_events, length_eq_zero_iff]
    constructor
    · intro hpop
      cases hevents : q'.events with
      | nil => rfl
      | cons event es =>
        obtain ⟨q'', hok, -⟩ := popFront_of_cons hevents
        rw [hok] at hpop
        cases hpop
    · intro hempty
      rw [popFront, Ring.popFront_eq_none.mpr hempty]
  · have hnumbered : q'.fifo.Numbered seqNum? :=
      run_preserves_of_guarded (P := fun q : EventQueue => q.fifo.Numbered seqNum?)
        (fun op q r q' hq hop h => exec_numbered hq hop h) ops q hstart hpushes
    have hnodup := hnumbered.nodup
    obtain ⟨hle, hitems⟩ := hnumbered
    rw [items_fifo, counter_fifo, length_events] at hitems hle
    exact ⟨hitems, hle, hnodup⟩

/-- Three events are pushed, one is processed, one is reverted. -/
def pushedAndReverted : List (Fifo.Op AnyEvent) :=
  [.push (.out ⟨.bid, 0, 0, 0, 1, 5, 7⟩), .push (.out ⟨.ask, 1, 0, 1, 1, 6, 8⟩),
    .push (.out ⟨.ask, 2, 0, 2, 1, 6, 9⟩), .pop, .revert 1]

theorem pushedAndReverted_numbered :
    let q' := run exec zeroed pushedAndReverted
    q'.events.map AnyEvent.seqNum? = (List.range' (q'.seqNum - q'.len) q'.len).map some := by
  have hpushes : Guarded exec PushesSeqNum zeroed pushedAndReverted := by
    refine ⟨?_, ?_, ?_, ?_, ?_, trivial⟩ <;> rintro value ⟨⟩ <;> rfl
  exact ((queue_refines_fifo zeroed pushedAndReverted).2.2.2.2.2.2 ⟨Nat.le_refl 0, rfl⟩ hpushes).1

end EventQueue

end MangoV4
