/-
  MangoV4.Lib.Budget

  Spending from a budget.

  A step spends an amount; it may spend at most the budget it finds, and the
  budget then shrinks by that amount, up to a slack for rounding.  Over any
  number of steps the total is at most the budget at the start, with the slack
  once for each step.
-/

import Mathlib.Algebra.BigOperators.Group.List.Basic
import Mathlib.Tactic.Linarith

namespace MangoV4.Lib

open List

variable {S A : Type}

/-- A run of steps, with what they spend. -/
inductive Spends (step : S → A → S → Prop) : S → List A → S → Prop
  | nil (s : S) : Spends step s [] s
  | cons {s s' s'' : S} {a : A} {spent : List A} :
      step s a s' → Spends step s' spent s'' → Spends step s (a :: spent) s''

/-- `budget` bounds what a step can spend, and a step takes it out of the
    budget up to `slack`. -/
structure Budgeted (step : S → A → S → Prop) (Inv : S → Prop) (amount : A → Int) (budget : S → Int)
    (slack : Int) : Prop where
  keeps : ∀ {s a s'}, Inv s → step s a s' → Inv s'
  within : ∀ {s a s'}, Inv s → step s a s' → amount a ≤ budget s
  paid : ∀ {s a s'}, Inv s → step s a s' → budget s' + amount a ≤ budget s + slack

variable {step : S → A → S → Prop} {Inv : S → Prop} {amount : A → Int} {budget : S → Int}
  {slack : Int} {s s' : S} {spent : List A}

/-- The last step does not need its slack: what it spends is within the budget. -/
theorem Spends.total_le (h : Spends step s spent s')
    (hbudget : Budgeted step Inv amount budget slack) (hs : Inv s) (hspent : spent ≠ []) :
    (spent.map amount).sum + slack ≤ budget s + spent.length * slack := by
  induction h with
  | nil => exact absurd rfl hspent
  | @cons s₀ s₁ s₂ a rest hfirst hrest ih =>
    rw [map_cons, sum_cons, length_cons]
    push_cast
    cases rest with
    | nil =>
      have hwithin := hbudget.within hs hfirst
      rw [map_nil, sum_nil, length_nil]
      push_cast
      linarith
    | cons b rest =>
      have hpaid := hbudget.paid hs hfirst
      have hnext := ih (hbudget.keeps hs hfirst) (cons_ne_nil b rest)
      linarith

end MangoV4.Lib
