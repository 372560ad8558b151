/-
  MangoV4.Lib.Faults

  How a computation can fail.

  `Faults F x` says that every fault of `x` is in `F`.  The rules follow the
  program text: sequence, choice and the basic operations, most of which can
  only overflow.  They are simp lemmas, so that a function made of such
  operations is done by `simp`.

  `Raises E x` is about errors only, and `OnlyOverflows x` says that `x` can end
  with no fault but an overflow.
-/

import MangoV4.Lib.Fixed

namespace MangoV4.Lib

variable {ε α β : Type}

/-- Every fault of `x` is in `F`. -/
def Faults (F : Fault ε → Prop) (x : Exec ε α) : Prop := ∀ f, x = .error f → F f

/-- Every error that `x` returns is in `E`. -/
def Raises (E : ε → Prop) (x : Exec ε α) : Prop := ∀ e, x = .error (.error e) → E e

/-- Every fault of `x` is an overflow. -/
def OnlyOverflows (x : Exec ε α) : Prop := ∀ f, x = .error f → f = .panic .overflow

/-- The computation ends with the fault `f`. -/
def faultIs [DecidableEq ε] (f : Fault ε) : Exec ε α → Bool
  | .ok _ => false
  | .error g => decide (g = f)

theorem eq_error_of_faultIs [DecidableEq ε] {f : Fault ε} {x : Exec ε α} (h : faultIs f x = true) :
    x = .error f := by
  cases x with
  | ok a => cases h
  | error g => rw [of_decide_eq_true h]

namespace Faults

variable {F : Fault ε → Prop}

open Exec

/-- A fault that the computation does not end with. -/
theorem not_of {x : Exec ε α} {f : Fault ε} (h : Faults F x) (hf : ¬ F f) : x ≠ .error f :=
  fun hx => hf (h f hx)

theorem raises {E : ε → Prop} {x : Exec ε α} (h : Faults F x) (hE : ∀ e, F (.error e) → E e) :
    Raises E x :=
  fun e he => hE e (h _ he)

@[simp] theorem ok (a : α) : Faults F (.ok a : Exec ε α) := fun _ h => by cases h

@[simp] theorem pure (a : α) : Faults F (pure a : Exec ε α) := fun _ h => by cases h

@[simp] theorem fail_iff {e : ε} : Faults F (fail e : Exec ε α) ↔ F (.error e) :=
  ⟨fun h => h _ rfl, fun h _ he => Except.error.inj he ▸ h⟩

@[simp] theorem panic_iff {p : Panic} : Faults F (panic p : Exec ε α) ↔ F (.panic p) :=
  ⟨fun h => h _ rfl, fun h _ he => Except.error.inj he ▸ h⟩

@[simp] theorem bind_iff {x : Exec ε α} {f : α → Exec ε β} :
    Faults F (x >>= f) ↔ Faults F x ∧ ∀ a, x = .ok a → Faults F (f a) := by
  constructor
  · intro h
    refine ⟨fun e hx => h e (bind_eq_error.mpr (Or.inl hx)), fun a ha e hf => ?_⟩
    exact h e (bind_eq_error.mpr (Or.inr ⟨a, ha, hf⟩))
  · rintro ⟨hx, hf⟩ e h
    rcases bind_eq_error.mp h with h | ⟨a, ha, h⟩
    · exact hx e h
    · exact hf a ha e h

/-- A sequence whose second part is reached with the value of the first. -/
theorem bind_of {x : Exec ε α} {f : α → Exec ε β} (hx : Faults F x)
    (hf : ∀ a, x = .ok a → Faults F (f a)) : Faults F (x >>= f) :=
  bind_iff.mpr ⟨hx, hf⟩

theorem bind {x : Exec ε α} {f : α → Exec ε β} (hx : Faults F x)
    (hf : ∀ a, Faults F (f a)) : Faults F (x >>= f) :=
  bind_of hx fun a _ => hf a

@[simp] theorem ite_iff {c : Prop} [Decidable c] {x y : Exec ε α} :
    Faults F (if c then x else y) ↔ (c → Faults F x) ∧ (¬ c → Faults F y) := by
  by_cases hc : c
  · simp [hc]
  · simp [hc]

theorem ite {c : Prop} [Decidable c] {x y : Exec ε α} (hx : c → Faults F x) (hy : ¬ c → Faults F y) :
    Faults F (if c then x else y) :=
  ite_iff.mpr ⟨hx, hy⟩

@[simp] theorem require_iff {c : Bool} {e : ε} :
    Faults F (require c e) ↔ (c = false → F (.error e)) := by
  simp [require]

@[simp] theorem assert (h : F (.panic .assertion)) (c : Bool) : Faults F (Exec.assert c) := by
  simp [Exec.assert, h]

theorem unwrapResult (h : F (.panic .unwrap)) {x : Exec ε α}
    (hx : Faults (fun f => F f ∨ ∃ e, f = .error e) x) : Faults F (Exec.unwrapResult x) := by
  intro f hf
  cases x with
  | ok a => cases hf
  | error g =>
    cases g with
    | error e => exact Except.error.inj hf ▸ h
    | panic p => exact Except.error.inj hf ▸ (hx _ rfl).resolve_right (by simp)
    | diverge => exact Except.error.inj hf ▸ (hx _ rfl).resolve_right (by simp)

/-! ## Arithmetic -/

variable {bits frac : Nat}

section Overflow

variable (h : F (.panic .overflow)) (x y : Fixed bits frac)

include h

@[simp] theorem checkUnsigned (bits n : Nat) : Faults F (Exec.checkUnsigned bits n) := by
  simp [Exec.checkUnsigned, h]

@[simp] theorem checkU64 (n : Nat) : Faults F (Exec.checkU64 n) := checkUnsigned h 64 n

@[simp] theorem checkI64 (n : Int) : Faults F (Exec.checkI64 n) := by
  simp [Exec.checkI64, checkSigned, h]

@[simp] theorem ofRaw (n : Int) : Faults F (Fixed.ofRaw n : Exec ε (Fixed bits frac)) := by
  unfold Fixed.ofRaw
  split
  · exact ok _
  · exact panic_iff.mpr h

@[simp] theorem ofInt (n : Int) : Faults F (Fixed.ofInt n : Exec ε (Fixed bits frac)) := ofRaw h _

@[simp] theorem add : Faults F (x.add y) := ofRaw h _
@[simp] theorem sub : Faults F (x.sub y) := ofRaw h _
@[simp] theorem neg : Faults F x.neg := ofRaw h _
@[simp] theorem abs : Faults F x.abs := ofRaw h _
@[simp] theorem mul : Faults F (x.mul y) := ofRaw h _
@[simp] theorem ceil : Faults F x.ceil := ofRaw h _
@[simp] theorem floor : Faults F x.floor := ofRaw h _

@[simp] theorem toU64 : Faults F x.toU64 := by simp [Fixed.toU64, h]

@[simp] theorem div (hy : y.raw = 0 → F (.panic .divideByZero)) : Faults F (x.div y) :=
  ite (fun hzero => panic_iff.mpr (hy hzero)) fun _ => ofRaw h _

@[simp] theorem toFixed {p : Nat} (x : Float p frac) :
    Faults F (x.toFixed : Exec ε (Fixed bits frac)) :=
  ofRaw h _

end Overflow

end Faults

/-- Either there is a value, or it overflows. -/
theorem OnlyOverflows.cases {x : Exec ε α} (h : OnlyOverflows x) :
    (∃ a, x = .ok a) ∨ x = .error (.panic .overflow) := by
  cases x with
  | ok a => exact .inl ⟨a, rfl⟩
  | error f => exact .inr (congrArg _ (h f rfl))

end MangoV4.Lib
