/-
  MangoV4.Lib.Tally

  Counters that follow a total.

  A total changes by replacing one of its amounts at a time.  Every change is
  also recorded in one of several counters, as a difference, and a counter stops
  at zero.  The counters never add up to less than the total.  They can add up
  to more: if an amount was recorded in one counter and is taken back from
  another one.  With a single counter that does not happen, because it holds
  everything that can be taken back.
-/

import Mathlib

namespace MangoV4.Lib

open List Function

/-- How a sum over all keys changes with the value of one of them. -/
theorem sum_apply_update_add {A B M : Type} [Fintype A] [DecidableEq A] [AddCommMonoid M]
    (g : B → M) (f : A → B) (a : A) (b : B) :
    ∑ x, g (update f a b x) + g (f a) = ∑ x, g (f x) + g b := by
  have hrest : ∑ x ∈ Finset.univ.erase a, g (update f a b x) =
      ∑ x ∈ Finset.univ.erase a, g (f x) :=
    Finset.sum_congr rfl fun x hx => by rw [update_of_ne (Finset.ne_of_mem_erase hx)]
  rw [← Finset.add_sum_erase _ _ (Finset.mem_univ a), update_self, hrest,
    ← Finset.add_sum_erase Finset.univ (fun x => g (f x)) (Finset.mem_univ a)]
  ac_rfl

/-- A counter after an amount changed from `old` to `new`. -/
def follow (c old new : Nat) : Nat := if old ≤ new then c + (new - old) else c - (old - new)

theorem add_le_follow_add (c old new : Nat) : c + new ≤ follow c old new + old := by
  unfold follow
  split <;> omega

/-- Exact if the counter holds the amount. -/
theorem follow_add_of_le {c old new : Nat} (h : old ≤ c) : follow c old new + old = c + new := by
  unfold follow
  split <;> omega

/-- For each key several counters, and the total they follow. -/
@[ext]
structure Tally (K : Type) where
  counters : K → List Nat
  total : K → Nat

namespace Tally

variable {K : Type} [DecidableEq K] {T T' : Tally K}

/-- An amount of key `k` changes, and counter `i` of the key follows. -/
def record (T : Tally K) (k : K) (i old new : Nat) : Tally K where
  counters := Function.update T.counters k ((T.counters k).modify i (follow · old new))
  total := Function.update T.total k (T.total k - old + new)

theorem record_total (T : Tally K) (k : K) (i old new : Nat) (k' : K) :
    (T.record k i old new).total k' = if k = k' then T.total k' - old + new else T.total k' := by
  show update T.total k (T.total k - old + new) k' = _
  by_cases hk : k = k'
  · subst hk
    rw [update_self, if_pos rfl]
  · rw [update_of_ne (Ne.symm hk), if_neg hk]

/-- A further counter for key `k`. -/
def addCounter (T : Tally K) (k : K) : Tally K where
  counters := Function.update T.counters k (T.counters k ++ [0])
  total := T.total

theorem addCounter_counters (T : Tally K) (k : K) :
    (T.addCounter k).counters = update T.counters k (T.counters k ++ [0]) := rfl

@[simp] theorem addCounter_total (T : Tally K) (k : K) : (T.addCounter k).total = T.total := rfl

/-- A change that can be recorded: the counter exists, and the old amount is
    part of the total. -/
inductive Records : Tally K → Tally K → Prop where
  | record {T : Tally K} {k : K} {i old : Nat} (new : Nat) (hi : i < (T.counters k).length)
      (hold : old ≤ T.total k) : Records T (T.record k i old new)

/-- A change is recorded if the counter follows and the total changes by it. -/
theorem Records.of_total (k : K) (i old new : Nat) (hi : i < (T.counters k).length)
    (hold : old ≤ T.total k)
    (hcounters : T'.counters =
      update T.counters k ((T.counters k).modify i (follow · old new)))
    (htotal : ∀ k', T'.total k' + (if k = k' then old else 0) =
      T.total k' + if k = k' then new else 0) : Records T T' := by
  have heq : T' = T.record k i old new := by
    refine Tally.ext hcounters ?_
    funext k'
    have hk' := htotal k'
    rw [record_total]
    by_cases hk : k = k'
    · subst hk
      simp only [if_true] at hk' ⊢
      omega
    · simp only [hk, if_false] at hk' ⊢
      omega
  rw [heq]
  exact .record new hi hold

/-- The counters add up to the total at least. -/
def Covers (T : Tally K) : Prop := ∀ k, T.total k ≤ (T.counters k).sum

/-- There is at most one counter for a key, and it is the total. -/
structure Single (T : Tally K) : Prop where
  length : ∀ k, (T.counters k).length ≤ 1
  total : ∀ k, T.total k = (T.counters k).sum

theorem sum_modify_follow {cs : List Nat} {i c : Nat} (h : cs[i]? = some c) (old new : Nat) :
    (cs.modify i (follow · old new)).sum + c = cs.sum + follow c old new := by
  obtain ⟨hi, rfl⟩ := List.getElem?_eq_some_iff.mp h
  rw [List.modify_eq_set_getElem?, h]
  show (cs.set i (follow cs[i] old new)).sum + cs[i] = _
  have hset := sum_set cs i (follow cs[i] old new)
  have hsplit : cs.sum = (cs.take i).sum + (cs[i] + (cs.drop (i + 1)).sum) := by
    rw [← sum_cons, ← drop_eq_getElem_cons hi, sum_take_add_sum_drop]
  rw [if_pos hi] at hset
  omega

theorem Covers.step (h : T.Covers) (hstep : Records T T') : T'.Covers := by
  cases hstep with
  | @record k i old new hi hold =>
    intro k'
    show update T.total k _ k' ≤ (update T.counters k _ k').sum
    by_cases hk : k' = k
    · subst hk
      rw [update_self, update_self]
      have hsum := sum_modify_follow (getElem?_eq_getElem hi) old new
      have hfollow := add_le_follow_add (T.counters k')[i] old new
      have hcovers := h k'
      omega
    · rw [update_of_ne hk, update_of_ne hk]
      exact h k'

theorem Covers.addCounter (h : T.Covers) (k : K) : (T.addCounter k).Covers := by
  intro k'
  show T.total k' ≤ (update T.counters k _ k').sum
  by_cases hk : k' = k
  · subst hk
    rw [update_self, sum_append, sum_singleton]
    exact h k'
  · rw [update_of_ne hk]
    exact h k'

theorem Single.step (h : T.Single) (hstep : Records T T') : T'.Single := by
  cases hstep with
  | @record k i old new hi hold =>
    refine ⟨fun k' => ?_, fun k' => ?_⟩
    · show (update T.counters k _ k').length ≤ 1
      by_cases hk : k' = k
      · subst hk
        rw [update_self, length_modify]
        exact h.length k'
      · rw [update_of_ne hk]
        exact h.length k'
    · show update T.total k _ k' = (update T.counters k _ k').sum
      by_cases hk : k' = k
      · subst hk
        rw [update_self, update_self]
        have hsum := sum_modify_follow (getElem?_eq_getElem hi) old new
        -- the only counter holds the total, so it holds the old amount
        have hone : (T.counters k').sum = (T.counters k')[i] := by
          have hlength := h.length k'
          obtain ⟨c, hc⟩ := length_eq_one_iff.mp (by omega : (T.counters k').length = 1)
          simp only [hc, sum_singleton, getElem_singleton]
        have htotal := h.total k'
        have hfollow : follow (T.counters k')[i] old new + old = (T.counters k')[i] + new :=
          follow_add_of_le (by omega)
        omega
      · rw [update_of_ne hk, update_of_ne hk]
        exact h.total k'

theorem Covers.steps (h : T.Covers) (hsteps : Relation.ReflTransGen Records T T') : T'.Covers := by
  induction hsteps with
  | refl => exact h
  | tail _ hstep ih => exact ih.step hstep

theorem Single.steps (h : T.Single) (hsteps : Relation.ReflTransGen Records T T') : T'.Single := by
  induction hsteps with
  | refl => exact h
  | tail _ hstep ih => exact ih.step hstep

end Tally

end MangoV4.Lib
