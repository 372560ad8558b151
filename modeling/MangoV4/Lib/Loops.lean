/-
  MangoV4.Lib.Loops

  Loops over lists that end well.

  A `mapM` pairs every element with its result.  What a `foldlM` keeps is
  proved with an invariant over the elements done so far, or, for two loops
  over one list, with a relation between their states.
-/

import MangoV4.Lib.Exec
import Mathlib.Data.List.Forall2

namespace MangoV4.Lib.Exec

open List

variable {ε α β σ τ : Type}

theorem mapM_eq_ok {f : α → Exec ε β} {l : List α} {l' : List β} :
    l.mapM f = .ok l' ↔ Forall₂ (fun a b => f a = .ok b) l l' := by
  induction l generalizing l' with
  | nil =>
    constructor
    · intro h
      obtain rfl := ok_inj h
      exact .nil
    · rintro ⟨⟩
      rfl
  | cons a l ih =>
    rw [mapM_cons]
    constructor
    · intro h
      obtain ⟨b, hb, h⟩ := of_bind h
      obtain ⟨bs, hbs, h⟩ := of_bind h
      obtain rfl := ok_inj h
      exact .cons hb (ih.mp hbs)
    · intro h
      cases h with
      | cons hb hbs => rw [hb, ok_bind, ih.mpr hbs, ok_bind, pure_eq_ok]

theorem mapM_of_ok {f : α → Exec ε β} {g : α → β} {l : List α} (h : ∀ a ∈ l, f a = .ok (g a)) :
    l.mapM f = .ok (l.map g) := by
  refine mapM_eq_ok.mpr ?_
  induction l with
  | nil => exact .nil
  | cons a l ih =>
    exact .cons (h a (mem_cons_self ..)) (ih fun b hb => h b (mem_cons_of_mem _ hb))

/-- Loops over lists that agree in what they read. -/
theorem mapM_congr {γ : Type} {f : α → Exec ε γ} {g : β → Exec ε γ} {R : α → β → Prop}
    (hfg : ∀ a b, R a b → f a = g b) {l : List α} {l' : List β} (h : Forall₂ R l l') :
    l.mapM f = l'.mapM g := by
  induction h with
  | nil => rfl
  | cons hab _ ih => rw [mapM_cons, mapM_cons, hfg _ _ hab, ih]

/-- The loop invariant: it holds before, and each step keeps it. -/
theorem foldlM_invariant {f : σ → α → Exec ε σ} {I : List α → σ → Prop}
    (hstep : ∀ done a s s', I done s → f s a = .ok s' → I (done ++ [a]) s')
    {l d : List α} {s s' : σ} (hs : I d s) (h : l.foldlM f s = .ok s') :
    I (d ++ l) s' := by
  induction l generalizing d s with
  | nil =>
    obtain rfl := ok_inj h
    rwa [append_nil]
  | cons a l ih =>
    obtain ⟨s₁, hs₁, h⟩ := of_bind h
    have hnext := ih (hstep d a s s₁ hs hs₁) h
    rwa [append_assoc, singleton_append] at hnext

theorem foldlM_keeps {f : σ → α → Exec ε σ} {P : σ → Prop}
    (hstep : ∀ a s s', P s → f s a = .ok s' → P s') {l : List α} {s s' : σ} (hs : P s)
    (h : l.foldlM f s = .ok s') : P s' :=
  foldlM_invariant (I := fun _ s => P s) (fun _ a s s' => hstep a s s') (d := []) hs h

/-- Two loops in step. -/
theorem foldlM_relates {f : σ → α → Exec ε σ} {g : τ → α → Exec ε τ} {R : σ → τ → Prop}
    {l : List α} (hstep : ∀ a ∈ l, ∀ s s' t t', R s t → f s a = .ok s' → g t a = .ok t' → R s' t')
    {s s' : σ} {t t' : τ} (hst : R s t) (hf : l.foldlM f s = .ok s')
    (hg : l.foldlM g t = .ok t') : R s' t' := by
  induction l generalizing s t with
  | nil =>
    obtain rfl := ok_inj hf
    obtain rfl := ok_inj hg
    exact hst
  | cons a l ih =>
    obtain ⟨s₁, hs₁, hf⟩ := of_bind hf
    obtain ⟨t₁, ht₁, hg⟩ := of_bind hg
    exact ih (fun b hb => hstep b (mem_cons_of_mem _ hb))
      (hstep a (mem_cons_self ..) s s₁ t t₁ hst hs₁ ht₁) hf hg

end MangoV4.Lib.Exec
