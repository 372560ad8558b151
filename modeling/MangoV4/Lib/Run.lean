/-
  MangoV4.Lib.Run

  Runs of a machine whose operations can fault.

  An operation that ends with a value moves the machine to the state it
  returns; one that faults is rolled back and leaves the machine where it was,
  as a transaction does.  `run_preserves` is the induction over runs: what
  every successful operation keeps holds after every run.
  `run_preserves_of_guarded` is the same for runs all of whose operations meet
  a condition on the state they start from.
-/

import MangoV4.Lib.Exec

namespace MangoV4.Lib

variable {ε S O R : Type} (exec : O → S → Exec ε (R × S))

/-- The state after one operation; a fault is rolled back. -/
def stepState (o : O) (s : S) : S :=
  match exec o s with
  | .ok (_, s') => s'
  | .error _ => s

/-- The state after a list of operations. -/
def run (s : S) : List O → S
  | [] => s
  | o :: os => run (stepState exec o s) os

/-- How each operation of the run ends. -/
def outcomes (s : S) : List O → List (Exec ε R)
  | [] => []
  | o :: os => (exec o s).map Prod.fst :: outcomes (stepState exec o s) os

/-- Every operation of the run meets `C` in the state it starts from. -/
def Guarded (C : O → S → Prop) : S → List O → Prop
  | _, [] => True
  | s, o :: os => C o s ∧ Guarded C (stepState exec o s) os

variable {exec}

variable {o : O} {s : S} {P : S → Prop} {C : O → S → Prop}

theorem stepState_of_ok {s' : S} {r : R} (h : exec o s = .ok (r, s')) :
    stepState exec o s = s' := by
  unfold stepState
  rw [h]

theorem stepState_of_error {f : Fault ε} (h : exec o s = .error f) :
    stepState exec o s = s := by
  unfold stepState
  rw [h]

/-- A step keeps what every successful operation keeps. -/
theorem stepState_preserves
    (hstep : ∀ r s', exec o s = .ok (r, s') → P s') (h : P s) : P (stepState exec o s) := by
  cases hex : exec o s with
  | error f =>
    rw [stepState_of_error hex]
    exact h
  | ok p =>
    obtain ⟨r, s'⟩ := p
    rw [stepState_of_ok hex]
    exact hstep r s' hex

theorem run_preserves_of_guarded (hstep : ∀ o s r s', P s → C o s → exec o s = .ok (r, s') → P s') :
    ∀ (os : List O) (s : S), P s → Guarded exec C s os → P (run exec s os)
  | [], _, h, _ => h
  | o :: os, s, h, hg => by
    have hnext : P (stepState exec o s) :=
      stepState_preserves (fun r s' hex => hstep o s r s' h hg.1 hex) h
    exact run_preserves_of_guarded hstep os _ hnext hg.2

theorem guarded_true (s : S) (os : List O) : Guarded exec (fun _ _ => True) s os := by
  induction os generalizing s with
  | nil => trivial
  | cons o os ih => exact ⟨trivial, ih _⟩

theorem guarded_of_forall (os : List O) (h : ∀ o ∈ os, ∀ s, C o s) (s : S) :
    Guarded exec C s os := by
  induction os generalizing s with
  | nil => trivial
  | cons o os ih =>
    exact ⟨h o (List.mem_cons_self ..) s, ih (fun o' ho' => h o' (List.mem_cons_of_mem _ ho')) _⟩

theorem Guarded.mono {C' : O → S → Prop} (h : ∀ o s, C o s → C' o s) {os : List O}
    (hg : Guarded exec C s os) : Guarded exec C' s os := by
  induction os generalizing s with
  | nil => trivial
  | cons o os ih => exact ⟨h o s hg.1, ih hg.2⟩

/-- What an invariant of guarded runs implies holds at every operation of them. -/
theorem Guarded.of_invariant {D : O → S → Prop}
    (hstep : ∀ o s r s', P s → C o s → exec o s = .ok (r, s') → P s')
    (himplies : ∀ o s, P s → C o s → D o s) {os : List O} (h : P s)
    (hg : Guarded exec C s os) : Guarded exec D s os := by
  induction os generalizing s with
  | nil => trivial
  | cons o os ih =>
    refine ⟨himplies o s h hg.1, ih ?_ hg.2⟩
    exact stepState_preserves (fun r s' hex => hstep o s r s' h hg.1 hex) h

/-- What every successful operation keeps holds after every run. -/
theorem run_preserves
    (hstep : ∀ o s r s', P s → exec o s = .ok (r, s') → P s') (os : List O) (h : P s) :
    P (run exec s os) :=
  run_preserves_of_guarded (fun o s r s' hs _ hex => hstep o s r s' hs hex) os s h
    (guarded_true s os)

end MangoV4.Lib
