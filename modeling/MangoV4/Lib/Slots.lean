/-
  MangoV4.Lib.Slots

  Arrays of slots that change their size.

  `padTo n d l` are the first `n` of the entries `l`, followed by defaults.
  `blocked active n` counts the slots up to the last one of `n` that is active:
  so many have to stay where they are if slots are referred to by index.
-/

import Mathlib.Data.List.Basic

namespace MangoV4.Lib

open List

variable {α : Type*}

/-! ## Padding -/

def padTo (n : Nat) (d : α) (l : List α) : List α := (l ++ List.replicate n d).take n

variable {n i : Nat} {d x : α} {l : List α}

@[simp] theorem length_padTo (n : Nat) (d : α) (l : List α) : (padTo n d l).length = n := by
  rw [padTo, length_take, length_append, length_replicate]
  omega

theorem padTo_of_length_le (h : l.length ≤ n) :
    padTo n d l = l ++ replicate (n - l.length) d := by
  rw [padTo, take_append, take_of_length_le h, take_replicate,
    Nat.min_eq_left (Nat.sub_le _ _)]

theorem getElem?_padTo_of_lt (hi : i < l.length) (hn : i < n) : (padTo n d l)[i]? = l[i]? := by
  rw [padTo, getElem?_take_of_lt hn, getElem?_append_left hi]

/-- Behind the entries there are defaults. -/
theorem eq_of_getElem?_padTo (hi : l.length ≤ i) (h : (padTo n d l)[i]? = some x) : x = d := by
  have hlt : i < n := by
    have hlt := (List.getElem?_eq_some_iff.mp h).1
    rwa [length_padTo] at hlt
  rw [padTo, List.getElem?_take_of_lt hlt, List.getElem?_append_right hi] at h
  exact eq_of_mem_replicate (mem_of_getElem? h)

/-! ## The last active slot -/

def blocked (active : Nat → Bool) : Nat → Nat
  | 0 => 0
  | n + 1 => if active n then n + 1 else blocked active n

variable {active : Nat → Bool}

theorem blocked_le (active : Nat → Bool) (n : Nat) : blocked active n ≤ n := by
  induction n with
  | zero => exact Nat.le_refl 0
  | succ n ih =>
    unfold blocked
    split
    · exact Nat.le_refl _
    · exact Nat.le_succ_of_le ih

theorem lt_blocked (hi : i < n) (h : active i = true) : i < blocked active n := by
  induction n with
  | zero => exact absurd hi (Nat.not_lt_zero i)
  | succ n ih =>
    unfold blocked
    split
    · exact hi
    · rename_i hn
      refine ih (Nat.lt_of_le_of_ne (Nat.le_of_lt_succ hi) ?_)
      rintro rfl
      exact hn h

end MangoV4.Lib
