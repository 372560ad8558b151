/-
  MangoV4.Lib.Avoids

  Which panics a computation cannot raise.

  `Avoids p x` says that `x` does not end with the panic `p`: its faults are all
  others (`Faults`).  Arithmetic overflows and divides by zero, and avoids every
  other panic; a function made of such operations is done by `simp`.

  `Yields p x Q` adds what is known of the value: `x` does not end with the
  panic `p`, and a value it returns is in `Q`.  `Yields.bind` is the rule of
  sequence, so that a function is followed once for both.
-/

import MangoV4.Lib.Faults

namespace MangoV4.Lib

variable {ε α β : Type}

/-- The panics of integer and fixed-point arithmetic that is not told apart. -/
def Panic.arithmetic : Panic → Bool
  | .overflow | .divideByZero => true
  | .assertion | .unwrap | .unreachable | .outOfBounds | .underflow => false

@[simp] theorem Panic.arithmetic_assertion : Panic.assertion.arithmetic = false := by decide

@[simp] theorem Panic.overflow_ne {p : Panic} (h : p.arithmetic = false) : Panic.overflow ≠ p := by
  rintro rfl
  cases h

@[simp] theorem Panic.divideByZero_ne {p : Panic} (h : p.arithmetic = false) :
    Panic.divideByZero ≠ p := by
  rintro rfl
  cases h

/-- The computation does not end with the panic `p`. -/
def Avoids (p : Panic) (x : Exec ε α) : Prop := x ≠ .error (.panic p)

theorem Faults.avoids {p : Panic} {x : Exec ε α} (h : Faults (· ≠ .panic p) x) : Avoids p x :=
  h.not_of (not_not_intro rfl)

/-- The computation does not end with the panic `p`, and its value is in `Q`. -/
def Yields (p : Panic) (x : Exec ε α) (Q : α → Prop) : Prop :=
  Avoids p x ∧ ∀ a, x = .ok a → Q a

namespace Yields

variable {p : Panic} {P : α → Prop} {Q : β → Prop}

open Exec

theorem faults {x : Exec ε α} (h : Yields p x P) : Faults (· ≠ .panic p) x :=
  fun _ hx hp => h.1 (hp ▸ hx)

/-- A first part of which only the outcome is known. -/
theorem bind_of {x : Exec ε α} {f : α → Exec ε β} (hx : Faults (· ≠ .panic p) x)
    (hf : ∀ a, x = .ok a → Yields p (f a) Q) : Yields p (x >>= f) Q := by
  refine ⟨Faults.avoids (.bind_of hx fun a ha => (hf a ha).faults), fun b hb => ?_⟩
  obtain ⟨a, ha, hb⟩ := of_bind hb
  exact (hf a ha).2 b hb

theorem bind {x : Exec ε α} {f : α → Exec ε β} (hx : Yields p x P)
    (hf : ∀ a, P a → Yields p (f a) Q) : Yields p (x >>= f) Q :=
  bind_of hx.faults fun a ha => hf a (hx.2 a ha)

theorem pure {a : α} (h : P a) : Yields p (.ok a : Exec ε α) P :=
  ⟨fun hp => (by cases hp), fun _ ha => ok_inj ha ▸ h⟩

theorem fail (e : ε) : Yields p (Exec.fail e : Exec ε α) P :=
  ⟨fun hp => (by cases hp), fun _ h => by cases h⟩

theorem imp {P' : α → Prop} {x : Exec ε α} (hx : Yields p x P) (h : ∀ a, P a → P' a) :
    Yields p x P' :=
  ⟨hx.1, fun a ha => h a (hx.2 a ha)⟩

theorem require (c : Bool) (e : ε) : Yields p (Exec.require c e) fun _ => c = true :=
  ⟨Faults.avoids (by simp), fun _ h => require_eq_ok.mp h⟩

theorem ite {c : Prop} [Decidable c] {x y : Exec ε α} (hx : c → Yields p x P)
    (hy : ¬ c → Yields p y P) : Yields p (if c then x else y) P := by
  by_cases hc : c
  · rw [if_pos hc]
    exact hx hc
  · rw [if_neg hc]
    exact hy hc

end Yields

end MangoV4.Lib
