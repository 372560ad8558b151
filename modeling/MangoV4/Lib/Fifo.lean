/-
  MangoV4.Lib.Fifo

  A bounded queue whose pushes are counted.

  Elements leave at the front; the last pushes can be reverted, which takes
  them back from the counter too.  If every element is pushed with the number
  that the counter shows, the queue holds consecutive numbers that end right
  before the counter (`Numbered`).
-/

import MangoV4.Lib.Run
import Mathlib.Data.List.Nodup

namespace MangoV4.Lib

open Exec List

/-- The elements, first one first, and the number of the next push. -/
structure Fifo (α : Type) where
  items : List α
  counter : Nat

namespace Fifo

variable {ε α : Type}

inductive Op (α : Type) where
  | push (x : α)
  | pop
  /-- take back the last pushes until `len` elements are left -/
  | revert (len : Nat)

inductive Reply (α : Type) where
  | pushed
  /-- the element is handed back -/
  | full (x : α)
  | popped (x : α)
  | reverted

/-- The queue with room for `capacity` elements; `e` is the error of an
    operation that asks for more elements than there are. -/
def exec (capacity : Nat) (e : ε) : Op α → Fifo α → Exec ε (Reply α × Fifo α)
  | .push x, q =>
    if q.items.length = capacity then .ok (.full x, q)
    else do return (.pushed, ⟨q.items ++ [x], ← checkU64 (q.counter + 1)⟩)
  | .pop, q =>
    match q.items with
    | [] => fail e
    | x :: xs => .ok (.popped x, ⟨xs, q.counter⟩)
  | .revert len, q => do
    require (decide (len ≤ q.items.length)) e
    return (.reverted, ⟨q.items.take len, ← subUnsigned q.counter (q.items.length - len)⟩)

variable {capacity : Nat} {e : ε} {num : α → Option Nat}

theorem exec_push {x : α} {q q' : Fifo α} {r : Reply α}
    (h : exec capacity e (.push x) q = .ok (r, q')) :
    (q.items.length = capacity ∧ r = .full x ∧ q' = q) ∨
    (q.items.length ≠ capacity ∧ r = .pushed ∧ q' = ⟨q.items ++ [x], q.counter + 1⟩) := by
  rw [exec] at h
  split at h
  · rename_i hfull
    obtain ⟨rfl, rfl⟩ := ok_inj₂ h
    exact Or.inl ⟨hfull, rfl, rfl⟩
  · rename_i hroom
    obtain ⟨-, h⟩ := of_checkU64 h
    obtain ⟨rfl, rfl⟩ := ok_inj₂ h
    exact Or.inr ⟨hroom, rfl, rfl⟩

theorem exec_pop {q q' : Fifo α} {r : Reply α} (h : exec capacity e .pop q = .ok (r, q')) :
    ∃ x, r = .popped x ∧ q.items = x :: q'.items ∧ q'.counter = q.counter := by
  rw [exec] at h
  split at h
  · cases h
  · rename_i x xs hitems
    obtain ⟨rfl, rfl⟩ := ok_inj₂ h
    exact ⟨x, rfl, hitems, rfl⟩

theorem exec_revert {len : Nat} {q q' : Fifo α} {r : Reply α}
    (h : exec capacity e (.revert len) q = .ok (r, q')) :
    len ≤ q.items.length ∧ r = .reverted ∧ q'.items = q.items.take len ∧
      q'.counter + (q.items.length - len) = q.counter := by
  obtain ⟨_, hlen, h⟩ := of_bind h
  obtain ⟨n, hn, h⟩ := of_bind h
  obtain ⟨hle, rfl⟩ := subUnsigned_eq_ok.mp hn
  obtain ⟨rfl, rfl⟩ := ok_inj₂ h
  exact ⟨of_require hlen, rfl, rfl, Nat.sub_add_cancel hle⟩

/-- The numbers of the elements are consecutive and end right before the counter. -/
def Numbered (num : α → Option Nat) (q : Fifo α) : Prop :=
  q.items.length ≤ q.counter ∧
    q.items.map num = (List.range' (q.counter - q.items.length) q.items.length).map some

/-- A push stores the number that the counter shows. -/
def PushesNumber (num : α → Option Nat) (op : Op α) (q : Fifo α) : Prop :=
  ∀ x, op = .push x → num x = some q.counter

theorem exec_numbered {op : Op α} {q q' : Fifo α} {r : Reply α} (hq : q.Numbered num)
    (hop : PushesNumber num op q) (h : exec capacity e op q = .ok (r, q')) : q'.Numbered num := by
  obtain ⟨hle, hitems⟩ := hq
  cases op with
  | push x =>
    obtain ⟨-, -, rfl⟩ | ⟨-, -, rfl⟩ := exec_push h
    · exact ⟨hle, hitems⟩
    · have hlast : q.counter - q.items.length + q.items.length = q.counter := Nat.sub_add_cancel hle
      refine ⟨?_, ?_⟩
      · show (q.items ++ [x]).length ≤ q.counter + 1
        rw [length_append, length_singleton]
        omega
      · show (q.items ++ [x]).map num = _
        rw [map_append, map_singleton, hitems, hop x rfl, length_append,
          length_singleton, Nat.add_sub_add_right, range'_1_concat, map_append,
          hlast]
        rfl
  | pop =>
    obtain ⟨x, -, hcons, hcounter⟩ := exec_pop h
    rw [hcons, length_cons] at hle
    rw [hcons, map_cons, length_cons, range'_succ, map_cons] at hitems
    refine ⟨by omega, ?_⟩
    rw [(cons.inj hitems).2, hcounter]
    congr 2
    omega
  | revert len =>
    obtain ⟨hlen, -, htake, hcounter⟩ := exec_revert h
    have hlength : q'.items.length = len := by
      rw [htake, length_take, Nat.min_eq_left hlen]
    refine ⟨by omega, ?_⟩
    rw [hlength, htake, map_take, hitems, ← map_take, take_range'_of_length_ge hlen]
    congr 2
    omega

theorem Numbered.nodup {q : Fifo α} (h : q.Numbered num) : (q.items.map num).Nodup := by
  rw [h.2]
  exact (nodup_range' 1).map fun _ _ h => Option.some.inj h

end Fifo

end MangoV4.Lib
