/-
  MangoV4.Lib.FirstMatch

  Lists in which an entry is found by a test and written back in place: the
  first entry that passes is replaced.
-/

import Mathlib

namespace MangoV4.Lib

open List Option

variable {α : Type} {p q : α → Bool} {x y : α} {l : List α}

/-- The list with its first element that passes `p` replaced by `x`. -/
def replaceFirst (p : α → Bool) (x : α) : List α → List α
  | [] => []
  | y :: ys => if p y then x :: ys else y :: replaceFirst p x ys

theorem mem_of_mem_replaceFirst {z : α} (h : z ∈ replaceFirst p x l) : z = x ∨ z ∈ l := by
  induction l with
  | nil => cases h
  | cons y ys ih =>
    unfold replaceFirst at h
    split at h
    · exact (mem_cons.mp h).imp_right (mem_cons_of_mem y)
    · rcases mem_cons.mp h with rfl | hmem
      · exact Or.inr (mem_cons_self ..)
      · exact (ih hmem).imp_right (mem_cons_of_mem y)

/-- The second write wins, if the first one still passes. -/
theorem replaceFirst_replaceFirst (hx : p x = true) :
    replaceFirst p y (replaceFirst p x l) = replaceFirst p y l := by
  induction l with
  | nil => rfl
  | cons z zs ih =>
    by_cases hz : p z = true
    · simp [replaceFirst, hz, hx]
    · simp [replaceFirst, hz, ih]

/-- The list splits at the element that is found, and the new one takes its place. -/
theorem replaceFirst_split (hl : l.find? p = some y) (x : α) :
    ∃ l₁ l₂, (∀ z ∈ l₁, p z = false) ∧ l = l₁ ++ y :: l₂ ∧ replaceFirst p x l = l₁ ++ x :: l₂ := by
  induction l with
  | nil => cases hl
  | cons z zs ih =>
    unfold replaceFirst
    by_cases hz : p z = true
    · rw [find?_cons_of_pos hz] at hl
      obtain rfl := some.inj hl
      exact ⟨[], zs, by simp, rfl, by simp [hz]⟩
    · rw [find?_cons_of_neg hz] at hl
      obtain ⟨l₁, l₂, hall, rfl, hnew⟩ := ih hl
      exact ⟨z :: l₁, l₂, by simpa [hz] using hall, rfl, by simp [hz, hnew]⟩

/-- Writing back what was found changes nothing. -/
theorem replaceFirst_self (hl : l.find? p = some y) : replaceFirst p y l = l := by
  obtain ⟨l₁, l₂, -, rfl, hnew⟩ := replaceFirst_split hl y
  exact hnew

/-- The new element is found where the old one was. -/
theorem find?_replaceFirst_self (hl : l.find? p = some y) (hx : p x = true) :
    (replaceFirst p x l).find? p = some x := by
  obtain ⟨l₁, l₂, hall, rfl, hnew⟩ := replaceFirst_split hl x
  have hnone : l₁.find? p = none := find?_eq_none.mpr (by simpa using hall)
  rw [hnew, find?_append, hnone, none_or, find?_cons_of_pos hx]

/-- Another test that neither the old nor the new element passes finds what it found before. -/
theorem find?_replaceFirst_of_not (hl : l.find? p = some y) (hy : q y = false)
    (hx : q x = false) : (replaceFirst p x l).find? q = l.find? q := by
  obtain ⟨l₁, l₂, -, rfl, hnew⟩ := replaceFirst_split hl x
  simp [hnew, hx, hy]

/-- A test that nothing passed before finds the new element if it passes. -/
theorem find?_replaceFirst_new (hl : l.find? p = some y) (hnone : l.find? q = none)
    (hx : q x = true) : (replaceFirst p x l).find? q = some x := by
  obtain ⟨l₁, l₂, -, rfl, hnew⟩ := replaceFirst_split hl x
  rw [find?_append, or_eq_none_iff] at hnone
  rw [hnew, find?_append, hnone.1, none_or, find?_cons_of_pos hx]

/-- How the number of elements that pass a test changes. -/
theorem countP_replaceFirst (hl : l.find? p = some y) :
    (replaceFirst p x l).countP q + (if q y then 1 else 0) =
      l.countP q + (if q x then 1 else 0) := by
  obtain ⟨l₁, l₂, -, rfl, hnew⟩ := replaceFirst_split hl x
  rw [hnew, countP_append, countP_append, countP_cons, countP_cons]
  omega

/-- How a sum over the elements changes. -/
theorem sum_map_replaceFirst (f : α → Nat) (hl : l.find? p = some y) :
    ((replaceFirst p x l).map f).sum + f y = (l.map f).sum + f x := by
  obtain ⟨l₁, l₂, -, rfl, hnew⟩ := replaceFirst_split hl x
  simp only [hnew, map_append, sum_append, map_cons, sum_cons]
  omega

/-- The same for an entry written by its index. -/
theorem countP_set_of_getElem? {i : Nat} (hi : l[i]? = some y) :
    (l.set i x).countP q + (if q y then 1 else 0) = l.countP q + (if q x then 1 else 0) := by
  induction l generalizing i with
  | nil => cases hi
  | cons z zs ih =>
    cases i with
    | zero =>
      obtain rfl : z = y := by simpa using hi
      rw [set_cons_zero, countP_cons, countP_cons]
      omega
    | succ i =>
      have hrest := ih (i := i) (by simpa using hi)
      rw [set_cons_succ, countP_cons, countP_cons]
      omega

/-- The only element that passes is the one that is found. -/
theorem find?_of_countP_le_one (hx : x ∈ l) (hq : q x = true) (hone : l.countP q ≤ 1) :
    l.find? q = some x := by
  induction l with
  | nil => cases hx
  | cons z zs ih =>
    by_cases hz : q z = true
    · rw [countP_cons_of_pos hz] at hone
      have hnone : zs.countP q = 0 := by omega
      rcases mem_cons.mp hx with rfl | hmem
      · exact find?_cons_of_pos hz
      · exact absurd hq (countP_eq_zero.mp hnone x hmem)
    · rw [countP_cons_of_neg hz] at hone
      rw [find?_cons_of_neg hz]
      rcases mem_cons.mp hx with rfl | hmem
      · exact absurd hq hz
      · exact ih hmem hone

/-- Taking out the only element that passes. -/
theorem find?_replaceFirst_none (hl : l.find? q = some y) (hone : l.countP q ≤ 1)
    (hx : q x = false) : (replaceFirst q x l).find? q = none := by
  have hy : q y = true := find?_some hl
  have hcount := countP_replaceFirst (q := q) (x := x) hl
  simp only [hy, hx, if_true, Bool.false_eq_true, if_false] at hcount
  have hzero : (replaceFirst q x l).countP q = 0 := by omega
  rw [find?_eq_none]
  exact countP_eq_zero.mp hzero

end MangoV4.Lib
