/-
  MangoV4.Lib.Exec

  Outcomes of code that can fail in three ways: it panics, it returns an
  error, or a loop does not end.

  `Exec ε α` is `Except (Fault ε) α`.  Panics are told apart by what raised
  them, because which of them can happen is itself a result.  Integer
  arithmetic is done on `Nat` and `Int` and checked against the machine range
  where the code computes (`checkU64`, `checkI64`, ...): out of range is an
  overflow panic.
-/

import Mathlib

namespace MangoV4.Lib

/-- What raised a panic. -/
inductive Panic where
  /-- `assert!`, `assert_eq!` -/
  | assertion
  /-- `unwrap` of `None` or `Err` -/
  | unwrap
  /-- `unreachable!` -/
  | unreachable
  /-- checked integer or fixed-point arithmetic -/
  | overflow
  /-- unsigned subtraction, where it is told apart from other overflows -/
  | underflow
  /-- array index -/
  | outOfBounds
  /-- division by zero -/
  | divideByZero
deriving DecidableEq, Repr

/-- How a computation can end without a value. -/
inductive Fault (ε : Type) where
  | panic (p : Panic)
  | error (e : ε)
  | diverge
deriving DecidableEq, Repr

/-- A computation that ends with a value or a fault. -/
abbrev Exec (ε α : Type) := Except (Fault ε) α

namespace Exec

variable {ε α β : Type}

def panic (p : Panic) : Exec ε α := .error (.panic p)

def fail (e : ε) : Exec ε α := .error (.error e)

def diverge : Exec ε α := .error .diverge

def unwrap : Option α → Exec ε α
  | some a => .ok a
  | none => panic .unwrap

/-- `unwrap` of a `Result`: the error becomes a panic. -/
def unwrapResult : Exec ε α → Exec ε α
  | .ok a => .ok a
  | .error (.error _) => panic .unwrap
  | .error f => .error f

def assert (c : Bool) : Exec ε Unit := if c then .ok () else panic .assertion

def require (c : Bool) (e : ε) : Exec ε Unit := if c then .ok () else fail e

/-- A value an unsigned integer of `bits` bits can hold. -/
def checkUnsigned (bits : Nat) (x : Nat) : Exec ε Nat :=
  if x < 2 ^ bits then .ok x else panic .overflow

/-- A value a signed integer of `bits` bits can hold. -/
def checkSigned (bits : Nat) (x : Int) : Exec ε Int :=
  if -(2 : Int) ^ (bits - 1) ≤ x ∧ x < (2 : Int) ^ (bits - 1) then .ok x else panic .overflow

def checkU32 (x : Nat) : Exec ε Nat := checkUnsigned 32 x
def checkU64 (x : Nat) : Exec ε Nat := checkUnsigned 64 x
def checkI64 (x : Int) : Exec ε Int := checkSigned 64 x

/-- Unsigned subtraction. -/
def subUnsigned (x y : Nat) : Exec ε Nat := if y ≤ x then .ok (x - y) else panic .overflow

/-- Unsigned subtraction with a panic of its own. -/
def subAmount (x y : Nat) : Exec ε Nat := if y ≤ x then .ok (x - y) else panic .underflow

/-! ## Reading outcomes -/

@[simp] theorem ok_bind (a : α) (f : α → Exec ε β) :
    ((Except.ok a : Exec ε α) >>= f) = f a := rfl

@[simp] theorem error_bind (e : Fault ε) (f : α → Exec ε β) :
    ((Except.error e : Exec ε α) >>= f) = .error e := rfl

@[simp] theorem pure_eq_ok (a : α) : (pure a : Exec ε α) = .ok a := rfl

/-- A sequence ends well exactly when both of its parts do. -/
theorem bind_eq_ok {x : Exec ε α} {f : α → Exec ε β} {b : β} :
    (x >>= f) = .ok b ↔ ∃ a, x = .ok a ∧ f a = .ok b := by
  cases x with
  | error e => simp
  | ok a => simp

/-- The parts of a sequence that ended well. -/
theorem of_bind {x : Exec ε α} {f : α → Exec ε β} {b : β} (h : (x >>= f) = .ok b) :
    ∃ a, x = .ok a ∧ f a = .ok b :=
  bind_eq_ok.mp h

theorem bind_eq_error {x : Exec ε α} {f : α → Exec ε β} {e : Fault ε} :
    (x >>= f) = .error e ↔ x = .error e ∨ ∃ a, x = .ok a ∧ f a = .error e := by
  cases x with
  | error e' => simp
  | ok a => simp

/-- Reading a value. -/
theorem ok_inj {a a' : α} (h : (Except.ok a : Exec ε α) = .ok a') : a = a' := Except.ok.inj h

/-- A computation has one result. -/
theorem ok_unique {x : Exec ε α} {a b : α} (h : x = .ok a) (h' : x = .ok b) : a = b :=
  ok_inj (h.symm.trans h')

/-- Reading a value with two parts. -/
theorem ok_inj₂ {a a' : α} {b b' : β} (h : (Except.ok (a, b) : Exec ε (α × β)) = .ok (a', b')) :
    a = a' ∧ b = b' := by
  simpa using h

/-- Reading a value with three parts. -/
theorem ok_inj₃ {γ : Type} {a a' : α} {b b' : β} {c c' : γ}
    (h : (Except.ok (a, b, c) : Exec ε (α × β × γ)) = .ok (a', b', c')) :
    a = a' ∧ b = b' ∧ c = c' := by
  simpa using h

/-- Reading a value with four parts. -/
theorem ok_inj₄ {γ δ : Type} {a a' : α} {b b' : β} {c c' : γ} {d d' : δ}
    (h : (Except.ok (a, b, c, d) : Exec ε (α × β × γ × δ)) = .ok (a', b', c', d')) :
    a = a' ∧ b = b' ∧ c = c' ∧ d = d' := by
  simpa using h

/-- A computation that passes a check has a value that does. -/
theorem exists_of_any {x : Exec ε α} {p : α → Bool} (h : x.toOption.any p = true) :
    ∃ a, x = .ok a ∧ p a = true := by
  cases x with
  | error f => cases h
  | ok a => exact ⟨a, rfl, h⟩

@[simp] theorem unwrap_some (a : α) : (unwrap (some a) : Exec ε α) = .ok a := rfl

theorem unwrap_eq_ok {o : Option α} {a : α} : (unwrap o : Exec ε α) = .ok a ↔ o = some a := by
  cases o <;> simp [unwrap, panic]

theorem assert_eq_ok {c : Bool} {u : Unit} : (assert c : Exec ε Unit) = .ok u ↔ c = true := by
  cases c <;> simp [assert, panic]

theorem require_eq_ok {c : Bool} {e : ε} {u : Unit} : require c e = .ok u ↔ c = true := by
  cases c <;> simp [require, fail]

/-- What was asserted. -/
theorem of_assert {P : Prop} [Decidable P] {u : Unit} (h : (assert (decide P) : Exec ε Unit) = .ok u) :
    P :=
  of_decide_eq_true (assert_eq_ok.mp h)

/-- What was required. -/
theorem of_require {P : Prop} [Decidable P] {e : ε} {u : Unit} (h : require (decide P) e = .ok u) :
    P :=
  of_decide_eq_true (require_eq_ok.mp h)

theorem checkUnsigned_eq_ok {bits x y : Nat} :
    (checkUnsigned bits x : Exec ε Nat) = .ok y ↔ x < 2 ^ bits ∧ y = x := by
  unfold checkUnsigned panic
  by_cases h : x < 2 ^ bits
  · simp [h, eq_comm]
  · simp [h]

theorem checkSigned_eq_ok {bits : Nat} {x y : Int} :
    (checkSigned bits x : Exec ε Int) = .ok y ↔
      (-(2 : Int) ^ (bits - 1) ≤ x ∧ x < (2 : Int) ^ (bits - 1)) ∧ y = x := by
  unfold checkSigned panic
  by_cases h : -(2 : Int) ^ (bits - 1) ≤ x ∧ x < (2 : Int) ^ (bits - 1)
  · simp [h, eq_comm]
  · simp [h]

theorem subUnsigned_eq_ok {x y z : Nat} :
    (subUnsigned x y : Exec ε Nat) = .ok z ↔ y ≤ x ∧ z = x - y := by
  unfold subUnsigned panic
  by_cases h : y ≤ x
  · simp [h, eq_comm]
  · simp [h]

theorem checkI64_eq_ok {x y : Int} :
    (checkI64 x : Exec ε Int) = .ok y ↔ (-(2 : Int) ^ 63 ≤ x ∧ x < (2 : Int) ^ 63) ∧ y = x :=
  checkSigned_eq_ok

theorem checkU64_eq_ok {x y : Nat} :
    (checkU64 x : Exec ε Nat) = .ok y ↔ x < 2 ^ 64 ∧ y = x :=
  checkUnsigned_eq_ok

/-- Going on with a number in range. -/
theorem of_checkI64 {x : Int} {f : Int → Exec ε β} {b : β} (h : (checkI64 x >>= f) = .ok b) :
    (-(2 : Int) ^ 63 ≤ x ∧ x < (2 : Int) ^ 63) ∧ f x = .ok b := by
  obtain ⟨y, hy, hf⟩ := of_bind h
  obtain ⟨hrange, rfl⟩ := checkI64_eq_ok.mp hy
  exact ⟨hrange, hf⟩

theorem of_checkU64 {x : Nat} {f : Nat → Exec ε β} {b : β} (h : (checkU64 x >>= f) = .ok b) :
    x < 2 ^ 64 ∧ f x = .ok b := by
  obtain ⟨y, hy, hf⟩ := of_bind h
  obtain ⟨hrange, rfl⟩ := checkU64_eq_ok.mp hy
  exact ⟨hrange, hf⟩

theorem checkU32_eq_ok {x y : Nat} :
    (checkU32 x : Exec ε Nat) = .ok y ↔ x < 2 ^ 32 ∧ y = x :=
  checkUnsigned_eq_ok

end Exec

end MangoV4.Lib
