/-
  MangoV4.Lib.Ring

  A ring buffer of fixed capacity, seen as the list of its elements.

  The positions of the head and of the tail wrap around at the capacity.
  `toList` is the content from the head on; pushing appends to it, popping
  takes its first element, truncating drops the last ones, and a push is
  refused exactly when it has as many elements as there are cells.
-/

import Mathlib.Data.List.Range
import Mathlib.Logic.Function.Basic

namespace MangoV4.Lib

open List

/-- A ring buffer with `n` cells. -/
structure Ring (α : Type) (n : Nat) where
  head : Nat
  count : Nat
  buf : Nat → α
  head_lt : head < n
  count_le : count ≤ n

namespace Ring

variable {α : Type} {n : Nat}

/-- The cell of the `i`-th element from the head. -/
def cell (r : Ring α n) (i : Nat) : Nat := (r.head + i) % n

def pushBack (r : Ring α n) (x : α) : Option (Ring α n) :=
  if h : r.count = n then none
  else some { r with
    count := r.count + 1
    buf := Function.update r.buf (r.cell r.count) x
    count_le := Nat.lt_of_le_of_ne r.count_le h }

def peekFront (r : Ring α n) : Option α :=
  if r.count = 0 then none else some (r.buf r.head)

def popFront (r : Ring α n) : Option (α × Ring α n) :=
  if r.count = 0 then none
  else some (r.buf r.head, { r with
    head := (r.head + 1) % n
    count := r.count - 1
    head_lt := Nat.mod_lt _ (Nat.lt_of_le_of_lt (Nat.zero_le _) r.head_lt)
    count_le := Nat.le_trans (Nat.sub_le ..) r.count_le })

/-- Keeps the first `k` elements. -/
def truncate (r : Ring α n) (k : Nat) (h : k ≤ r.count) : Ring α n :=
  { r with
    count := k
    count_le := Nat.le_trans h r.count_le }

/-- The elements, first one first. -/
def toList (r : Ring α n) : List α := (List.range r.count).map fun i => r.buf (r.cell i)

@[simp] theorem length_toList (r : Ring α n) : r.toList.length = r.count := by
  simp [toList]

/-- Cells of different elements differ. -/
theorem cell_ne (r : Ring α n) {i j : Nat} (hij : i < j) (hj : j < n) : r.cell i ≠ r.cell j := by
  have hhead := r.head_lt
  have hmod : ∀ k, k < n → (r.head + k) % n = if r.head + k < n then r.head + k
      else r.head + k - n := by
    intro k hk
    split
    · next h => exact Nat.mod_eq_of_lt h
    · rename_i h
      rw [Nat.mod_eq_sub_mod (Nat.le_of_not_lt h)]
      exact Nat.mod_eq_of_lt (by omega)
  unfold cell
  rw [hmod i (Nat.lt_trans hij hj), hmod j hj]
  split <;> split <;> omega

/-- A push is refused exactly when the ring is full. -/
theorem pushBack_eq_none {r : Ring α n} {x : α} :
    r.pushBack x = none ↔ r.toList.length = n := by
  unfold pushBack
  split
  · next h => simp [h]
  · next h => simp [h]

/-- A push appends. -/
theorem toList_pushBack {r r' : Ring α n} {x : α} (h : r.pushBack x = some r') :
    r'.toList = r.toList ++ [x] := by
  unfold pushBack at h
  split at h
  · cases h
  · rename_i hne
    obtain rfl := Option.some.inj h
    have hlt : r.count < n := Nat.lt_of_le_of_ne r.count_le hne
    unfold toList
    rw [range_succ, map_append, map_singleton]
    have hlast : Function.update r.buf (r.cell r.count) x (r.cell r.count) = x :=
      Function.update_self ..
    refine congrArg₂ (· ++ ·) (map_congr_left ?_) (congrArg (fun y => [y]) hlast)
    intro i hi
    exact Function.update_of_ne (r.cell_ne (mem_range.mp hi) hlt) _ _

theorem peekFront_eq (r : Ring α n) : r.peekFront = r.toList.head? := by
  unfold peekFront toList
  cases hcount : r.count with
  | zero => rfl
  | succ k =>
    rw [range_succ_eq_map]
    simp [cell, Nat.mod_eq_of_lt r.head_lt]

theorem popFront_eq_none {r : Ring α n} : r.popFront = none ↔ r.toList = [] := by
  unfold popFront
  rw [← length_eq_zero_iff, length_toList]
  split
  · next h => simp [h]
  · next h => simp [h]

/-- A pop takes the first element. -/
theorem toList_popFront {r r' : Ring α n} {x : α} (h : r.popFront = some (x, r')) :
    r.toList = x :: r'.toList := by
  unfold popFront at h
  split at h
  · cases h
  · rename_i hne
    obtain ⟨rfl, rfl⟩ := Prod.mk.inj (Option.some.inj h)
    have hrange : range r.count = 0 :: (range (r.count - 1)).map Nat.succ := by
      rw [← range_succ_eq_map]
      congr 1
      omega
    unfold toList
    rw [hrange, map_cons, map_map]
    have hfirst : r.cell 0 = r.head := Nat.mod_eq_of_lt r.head_lt
    refine congrArg₂ cons (congrArg r.buf hfirst) (map_congr_left ?_)
    intro i _
    -- the head has moved on by one cell
    show r.buf ((r.head + (i + 1)) % n) = r.buf (((r.head + 1) % n + i) % n)
    rw [Nat.mod_add_mod]
    congr 2
    omega

theorem toList_truncate (r : Ring α n) {k : Nat} (h : k ≤ r.count) :
    (r.truncate k h).toList = r.toList.take k := by
  unfold toList
  rw [← map_take, take_range, Nat.min_eq_left h]
  rfl

/-- The `i`-th element is in the `i`-th cell from the head. -/
theorem getElem?_toList (r : Ring α n) {i : Nat} (h : i < r.count) :
    r.toList[i]? = some (r.buf (r.cell i)) := by
  unfold toList
  rw [getElem?_map, getElem?_range h]
  rfl

end Ring

end MangoV4.Lib
