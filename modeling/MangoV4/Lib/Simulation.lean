/-
  MangoV4.Lib.Simulation

  Forward simulation of a machine whose operations can fault.

  Seen through `view`, every successful operation is a sequence of abstract
  steps.  What the abstract steps keep then holds after every run of the
  machine (`Simulates.run`).  Where the abstract machine is itself one whose
  operations can fault, `Mirrors` says that the two go hand in hand.
-/

import MangoV4.Lib.Run
import Mathlib.Logic.Relation

namespace MangoV4.Lib

open Relation

variable {ε S O R A : Type}

/-- What every step keeps is kept by sequences of steps. -/
theorem invariant_of_steps {step : A → A → Prop} {J : A → Prop}
    (hstep : ∀ a a', J a → step a a' → J a') {a a' : A} (h : ReflTransGen step a a') (ha : J a) :
    J a' := by
  induction h with
  | refl => exact ha
  | tail _ hlast ih => exact hstep _ _ ih hlast

/-- Operations that meet `C` refine sequences of abstract steps.  `I` is an
    invariant of the machine, `J` one of the abstract steps; the refinement may
    rely on both. -/
structure Simulates (exec : O → S → Exec ε (R × S)) (C : O → S → Prop) (I : S → Prop)
    (view : S → A) (J : A → Prop) (step : A → A → Prop) : Prop where
  abstract : ∀ a a', J a → step a a' → J a'
  concrete : ∀ o s r s', I s → J (view s) → C o s → exec o s = .ok (r, s') →
    I s' ∧ ReflTransGen step (view s) (view s')

namespace Simulates

variable {exec : O → S → Exec ε (R × S)} {C : O → S → Prop} {I : S → Prop} {view : S → A}
  {J : A → Prop} {step : A → A → Prop}

/-- Both invariants hold after every run whose operations meet `C`. -/
theorem run (h : Simulates exec C I view J step) (os : List O) {s : S} (hI : I s)
    (hJ : J (view s)) (hC : Guarded exec C s os) :
    I (Lib.run exec s os) ∧ J (view (Lib.run exec s os)) := by
  refine run_preserves_of_guarded (P := fun s => I s ∧ J (view s)) ?_ os s ⟨hI, hJ⟩ hC
  intro o s r s' hs ho hexec
  obtain ⟨hI', hsteps⟩ := h.concrete o s r s' hs.1 hs.2 ho hexec
  exact ⟨hI', invariant_of_steps h.abstract hsteps hs.2⟩

end Simulates

/-- An operation ends as its abstract counterpart does, with what `view` shows of the state. -/
def Mirrors (exec : O → S → Exec ε (R × S)) (exec' : O → A → Exec ε (R × A)) (view : S → A) :
    Prop :=
  ∀ o s, (exec o s).map (Prod.map id view) = exec' o (view s)

namespace Mirrors

variable {exec : O → S → Exec ε (R × S)} {exec' : O → A → Exec ε (R × A)} {view : S → A}

theorem stepState (h : Mirrors exec exec' view) (o : O) (s : S) :
    view (stepState exec o s) = Lib.stepState exec' o (view s) := by
  unfold Lib.stepState
  rw [← h o s]
  cases exec o s with
  | error f => rfl
  | ok p => rfl

/-- Runs show the same states and the same outcomes. -/
theorem run (h : Mirrors exec exec' view) (os : List O) :
    ∀ s, view (Lib.run exec s os) = Lib.run exec' (view s) os ∧
      outcomes exec s os = outcomes exec' (view s) os := by
  induction os with
  | nil => exact fun s => ⟨rfl, rfl⟩
  | cons o os ih =>
    intro s
    obtain ⟨hrun, houtcomes⟩ := ih (Lib.stepState exec o s)
    rw [h.stepState o s] at hrun houtcomes
    refine ⟨hrun, congrArg₂ List.cons ?_ houtcomes⟩
    rw [← h o s]
    cases exec o s with
    | error f => rfl
    | ok p => rfl

end Mirrors

end MangoV4.Lib
