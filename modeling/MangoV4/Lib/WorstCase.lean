/-
  MangoV4.Lib.WorstCase

  The value of balances when amounts are pending.

  A balance counts with one weight as an asset and with another, larger one as
  a liability, so its value is a concave function of it.  Each pending amount
  will be added to one of two balances.  `worstCase` is the smallest total over
  all outcomes.  `estimate` looks at each pending amount on its own, as if it
  were added last, on top of everything else that may come: it is never more
  than the worst case, and equal to it if no balance that pending amounts can
  turn from negative to positive has more than one of them pending.
-/

import MangoV4.Lib.Arith

namespace MangoV4.Lib

open List

/-! ## Weights -/

/-- What one unit of a balance counts, as an asset and as a liability. -/
@[ext]
structure Weights where
  asset : ℚ
  liab : ℚ

namespace Weights

def value (w : Weights) (x : ℚ) : ℚ := if x < 0 then x * w.liab else x * w.asset

/-- What `r` units add to the value if they are the last of a balance of `top`. -/
def gain (w : Weights) (top r : ℚ) : ℚ := w.value top - w.value (top - r)

/-- Liabilities count at least as much as assets. -/
@[mk_iff]
structure Prudent (w : Weights) : Prop where
  nonneg : 0 ≤ w.asset
  asset_le : w.asset ≤ w.liab

instance (w : Weights) : Decidable w.Prudent := decidable_of_iff' _ w.prudent_iff

/-- Assets count more and liabilities less. -/
structure Le (w w' : Weights) : Prop where
  asset : w.asset ≤ w'.asset
  liab : w'.liab ≤ w.liab

variable {w w' : Weights} {x y r b top : ℚ}

/-- All units count as assets, and the missing ones once more for what
    liabilities count above assets. -/
theorem value_eq (w : Weights) (x : ℚ) :
    w.value x = x * w.asset + (w.liab - w.asset) * min x 0 := by
  unfold value
  split
  · rename_i hx
    rw [min_eq_left hx.le]
    ring
  · rename_i hx
    rw [min_eq_right (not_lt.mp hx), mul_zero, add_zero]

theorem value_mono (hw : w.Prudent) (hxy : x ≤ y) : w.value x ≤ w.value y := by
  rw [value_eq, value_eq]
  have hasset := mul_le_mul_of_nonneg_right hxy hw.nonneg
  have hmin : min x 0 ≤ min y 0 := min_le_min_right 0 hxy
  have hliab := mul_le_mul_of_nonneg_left hmin (sub_nonneg.mpr hw.asset_le)
  linarith

theorem value_le_of_le (h : w.Le w') (x : ℚ) : w.value x ≤ w'.value x := by
  unfold value
  split
  · next hx => exact mul_le_mul_of_nonpos_left h.liab hx.le
  · next hx => exact mul_le_mul_of_nonneg_left h.asset (not_lt.mp hx)

theorem gain_eq_value (w : Weights) (x r : ℚ) : w.gain (x + r) r = w.value (x + r) - w.value x := by
  rw [gain, add_sub_cancel_right]

theorem gain_zero (w : Weights) (top : ℚ) : w.gain top 0 = 0 := by
  rw [gain, sub_zero, sub_self]

/-- The missing units are filled up first, so the last units gain the least. -/
theorem gain_le (hw : w.asset ≤ w.liab) (hr : 0 ≤ r) (hx : x + r ≤ top) :
    w.gain top r ≤ w.value (x + r) - w.value x := by
  unfold gain
  simp only [value_eq]
  have hmin : min top 0 - min (top - r) 0 ≤ min (x + r) 0 - min x 0 := by
    rcases le_total (x + r) 0 with hxr | hxr
    · have hgap : min top 0 - min (top - r) 0 ≤ r := by
        rcases le_total top 0 with h | h
        · rw [min_eq_left h, min_eq_left (by linarith)]
          linarith
        · rcases le_total (top - r) 0 with h' | h'
          · rw [min_eq_right h, min_eq_left h']
            linarith
          · rw [min_eq_right h, min_eq_right h']
            linarith
      rw [min_eq_left hxr, min_eq_left (by linarith : x ≤ 0)]
      linarith
    · rw [min_eq_right hxr, min_eq_right (by linarith : (0 : ℚ) ≤ top)]
      have hle : min x 0 ≤ min (top - r) 0 := min_le_min_right 0 (by linarith)
      linarith
  have hscaled := mul_le_mul_of_nonneg_left hmin (sub_nonneg.mpr hw)
  linarith

theorem gain_nonneg (hw : w.Prudent) (hr : 0 ≤ r) (top : ℚ) : 0 ≤ w.gain top r :=
  sub_nonneg.mpr (value_mono hw (sub_le_self top hr))

theorem value_mono_asset (hasset : w.asset ≤ w'.asset) (hliab : w.liab = w'.liab) (x : ℚ) :
    w.value x ≤ w'.value x := value_le_of_le ⟨hasset, hliab.ge⟩ x

/-- The asset weight counts for positive balances only. -/
theorem value_eq_iff_of_liab (hliab : w.liab = w'.liab) :
    w.value x = w'.value x ↔ w.asset = w'.asset ∨ x ≤ 0 := by
  unfold value
  rw [hliab]
  constructor
  · intro h
    rcases le_or_gt x 0 with hx | hx
    · exact Or.inr hx
    · rw [if_neg hx.not_gt, if_neg hx.not_gt] at h
      exact Or.inl (mul_left_cancel₀ hx.ne' h)
  · rintro (h | h)
    · rw [h]
    · rcases h.lt_or_eq with hx | rfl
      · rw [if_pos hx, if_pos hx]
      · rw [zero_mul, zero_mul, zero_mul]

/-- Some of the last units are missing ones, and the others count as assets. -/
theorem gain_mono_asset (hasset : w.asset ≤ w'.asset) (hliab : w.liab = w'.liab) (hr : 0 ≤ r)
    (top : ℚ) : w.gain top r ≤ w'.gain top r := by
  have hmissing : min top 0 - min (top - r) 0 ≤ r := by
    rcases min_choice (top - r) 0 with h | h
    · linarith [min_le_left top 0]
    · linarith [min_le_right top 0]
  have hparts : ∀ v : Weights, v.gain top r = (r - (min top 0 - min (top - r) 0)) * v.asset +
      (min top 0 - min (top - r) 0) * v.liab := by
    intro v
    rw [gain, value_eq, value_eq]
    ring
  rw [hparts, hparts, hliab]
  exact add_le_add_left (mul_le_mul_of_nonneg_left hasset (sub_nonneg.mpr hmissing)) _

/-- Nothing depends on the order in which units come: all of them count the
    same, or there are no others. -/
def OrderFree (w : Weights) (b top r : ℚ) : Prop :=
  w.asset = w.liab ∨ 0 ≤ b ∨ top ≤ 0 ∨ r = 0 ∨ r = top - b

instance (w : Weights) (b top r : ℚ) : Decidable (w.OrderFree b top r) :=
  inferInstanceAs (Decidable (_ ∨ _))

theorem gain_of_orderFree (hr : 0 ≤ r) (hb : b ≤ x) (hx : x + r ≤ top)
    (h : w.OrderFree b top r) : w.gain top r = w.value (x + r) - w.value x := by
  obtain hlinear | hassets | hliabs | hnothing | hall := h
  · unfold gain
    simp only [value_eq, hlinear, sub_self, zero_mul, add_zero]
    ring
  · unfold gain value
    rw [if_neg (by linarith), if_neg (by linarith), if_neg (by linarith), if_neg (by linarith)]
    ring
  · unfold gain
    simp only [value_eq]
    rw [min_eq_left hliabs, min_eq_left (by linarith : top - r ≤ 0),
      min_eq_left (by linarith : x + r ≤ 0), min_eq_left (by linarith : x ≤ 0)]
    ring
  · rw [hnothing, gain_zero, add_zero, sub_self]
  · obtain rfl : top = x + r := by linarith
    exact w.gain_eq_value x r

end Weights

/-! ## Pending amounts -/

/-- An amount that will be added to one of two balances. -/
structure Pending (ι : Type) where
  fst : ι
  snd : ι
  toFst : ℚ
  toSnd : ℚ

section Pending

variable {ι : Type} [DecidableEq ι]

/-- What the amount adds to a balance if it adds to it on both sides. -/
def Pending.amountAt (p : Pending ι) (i : ι) : ℚ :=
  (if p.fst = i then p.toFst else 0) + if p.snd = i then p.toSnd else 0

/-- All that may be added to a balance. -/
def reservedAt (ps : List (Pending ι)) (i : ι) : ℚ := (ps.map fun p => p.amountAt i).sum

def credit (x : ι → ℚ) (i : ι) (r : ℚ) : ι → ℚ := Function.update x i (x i + r)

def totalValue (s : Finset ι) (w : ι → Weights) (x : ι → ℚ) : ℚ := ∑ i ∈ s, (w i).value (x i)

/-- The smallest total value over all outcomes. -/
def worstCase (s : Finset ι) (w : ι → Weights) : (ι → ℚ) → List (Pending ι) → ℚ
  | x, [] => totalValue s w x
  | x, p :: ps =>
    min (worstCase s w (credit x p.fst p.toFst) ps) (worstCase s w (credit x p.snd p.toSnd) ps)

/-- What the pending amount gains at least, on top of balances `top`. -/
def Pending.gain (w : ι → Weights) (top : ι → ℚ) (p : Pending ι) : ℚ :=
  min ((w p.fst).gain (top p.fst) p.toFst) ((w p.snd).gain (top p.snd) p.toSnd)

/-- The total value with the gain of each pending amount on its own. -/
def estimate (s : Finset ι) (w : ι → Weights) (top x : ι → ℚ) (ps : List (Pending ι)) : ℚ :=
  totalValue s w x + (ps.map (Pending.gain w top)).sum

/-- Amounts for balances in `s`. -/
structure Pending.Within (s : Finset ι) (p : Pending ι) : Prop where
  fst_mem : p.fst ∈ s
  snd_mem : p.snd ∈ s
  toFst_nonneg : 0 ≤ p.toFst
  toSnd_nonneg : 0 ≤ p.toSnd

variable {s : Finset ι} {w w' : ι → Weights} {x y top top' b : ι → ℚ} {p : Pending ι}
  {ps qs : List (Pending ι)} {i : ι} {r : ℚ}

theorem Pending.Within.amountAt_nonneg (h : p.Within s) (i : ι) : 0 ≤ p.amountAt i := by
  have hfst := h.toFst_nonneg
  have hsnd := h.toSnd_nonneg
  unfold amountAt
  split <;> split <;> linarith

theorem Pending.Within.toFst_le (h : p.Within s) : p.toFst ≤ p.amountAt p.fst := by
  have hsnd := h.toSnd_nonneg
  unfold amountAt
  rw [if_pos rfl]
  split <;> linarith

theorem Pending.Within.toSnd_le (h : p.Within s) : p.toSnd ≤ p.amountAt p.snd := by
  have hfst := h.toFst_nonneg
  unfold amountAt
  rw [if_pos (rfl : p.snd = p.snd)]
  split <;> linarith

theorem reservedAt_cons (p : Pending ι) (ps : List (Pending ι)) (i : ι) :
    reservedAt (p :: ps) i = p.amountAt i + reservedAt ps i := by
  rw [reservedAt, map_cons, sum_cons, reservedAt]

theorem reservedAt_nonneg (h : ∀ p ∈ ps, p.Within s) (i : ι) : 0 ≤ reservedAt ps i := by
  refine sum_nonneg fun a ha => ?_
  obtain ⟨p, hp, rfl⟩ := mem_map.mp ha
  exact (h p hp).amountAt_nonneg i

theorem credit_self (x : ι → ℚ) (i : ι) (r : ℚ) : credit x i r i = x i + r :=
  Function.update_self ..

theorem credit_of_ne {j : ι} (h : j ≠ i) : credit x i r j = x j := Function.update_of_ne h ..

theorem le_credit (hr : 0 ≤ r) (j : ι) : x j ≤ credit x i r j := by
  by_cases h : j = i
  · subst h
    rw [credit_self]
    linarith
  · rw [credit_of_ne h]

theorem credit_mono {r' : ℚ} (hxy : ∀ j, x j ≤ y j) (hr : r ≤ r') (j : ι) :
    credit x i r j ≤ credit y i r' j := by
  by_cases h : j = i
  · subst h
    rw [credit_self, credit_self]
    exact add_le_add (hxy j) hr
  · rw [credit_of_ne h, credit_of_ne h]
    exact hxy j

theorem totalValue_credit (hi : i ∈ s) :
    totalValue s w (credit x i r) =
      totalValue s w x + ((w i).value (x i + r) - (w i).value (x i)) := by
  unfold totalValue
  rw [← Finset.add_sum_erase s _ hi, ← Finset.add_sum_erase s (fun j => (w j).value (x j)) hi,
    credit_self]
  have hrest : ∑ j ∈ s.erase i, (w j).value (credit x i r j) = ∑ j ∈ s.erase i, (w j).value (x j) :=
    Finset.sum_congr rfl fun j hj => by rw [credit_of_ne (Finset.ne_of_mem_erase hj)]
  rw [hrest]
  ring

omit [DecidableEq ι] in
theorem totalValue_mono (hw : ∀ i ∈ s, (w i).Prudent) (hle : ∀ i ∈ s, (w i).Le (w' i))
    (hxy : ∀ i, x i ≤ y i) : totalValue s w x ≤ totalValue s w' y :=
  Finset.sum_le_sum fun i hi =>
    ((w i).value_mono (hw i hi) (hxy i)).trans (Weights.value_le_of_le (hle i hi) (y i))

/-- One amount less is pending after it was added to a balance. -/
theorem room_of_credit (h : p.Within s) (hroom : ∀ i, x i + reservedAt (p :: ps) i ≤ top i)
    (hr : r ≤ p.amountAt i) (j : ι) :
    credit x i r j + reservedAt ps j ≤ top j := by
  have hj := hroom j
  rw [reservedAt_cons] at hj
  by_cases hji : j = i
  · subst hji
    rw [credit_self]
    linarith
  · rw [credit_of_ne hji]
    have hnonneg := h.amountAt_nonneg j
    linarith

/-- Looking at each amount on its own gives no more than the worst case. -/
theorem estimate_le_worstCase (hw : ∀ i ∈ s, (w i).asset ≤ (w i).liab) (hps : ∀ p ∈ ps, p.Within s)
    (hroom : ∀ i, x i + reservedAt ps i ≤ top i) :
    estimate s w top x ps ≤ worstCase s w x ps := by
  -- the amounts are added one after the other; each gains at least what it gains as the last
  induction ps generalizing x with
  | nil => simp [estimate, worstCase]
  | cons p ps ih =>
    have hp := hps p (mem_cons_self ..)
    have hrest : ∀ q ∈ ps, q.Within s := fun q hq => hps q (mem_cons_of_mem _ hq)
    have hreserved := reservedAt_nonneg hrest
    have hfstTop := hroom p.fst
    have hsndTop := hroom p.snd
    rw [reservedAt_cons] at hfstTop hsndTop
    have hfst := (w p.fst).gain_le (hw _ hp.fst_mem) hp.toFst_nonneg
      (by linarith [hp.toFst_le, hreserved p.fst] : x p.fst + p.toFst ≤ top p.fst)
    have hsnd := (w p.snd).gain_le (hw _ hp.snd_mem) hp.toSnd_nonneg
      (by linarith [hp.toSnd_le, hreserved p.snd] : x p.snd + p.toSnd ≤ top p.snd)
    have hcons : estimate s w top x (p :: ps) = totalValue s w x + p.gain w top +
        (ps.map (Pending.gain w top)).sum := by
      rw [estimate, map_cons, sum_cons, add_assoc]
    refine le_min ?_ ?_
    · refine le_trans ?_ (ih hrest (room_of_credit hp hroom hp.toFst_le))
      rw [hcons, estimate, totalValue_credit hp.fst_mem]
      have hgain : p.gain w top ≤ (w p.fst).gain (top p.fst) p.toFst := min_le_left _ _
      linarith
    · refine le_trans ?_ (ih hrest (room_of_credit hp hroom hp.toSnd_le))
      rw [hcons, estimate, totalValue_credit hp.snd_mem]
      have hgain : p.gain w top ≤ (w p.snd).gain (top p.snd) p.toSnd := min_le_right _ _
      linarith

/-- The two sides of the amount gain the same in every order. -/
@[mk_iff]
structure Pending.OrderFree (w : ι → Weights) (b top : ι → ℚ) (p : Pending ι) : Prop where
  fst : (w p.fst).OrderFree (b p.fst) (top p.fst) p.toFst
  snd : (w p.snd).OrderFree (b p.snd) (top p.snd) p.toSnd

instance (p : Pending ι) : Decidable (p.OrderFree w b top) :=
  decidable_of_iff' _ (p.orderFree_iff w b top)

/-- If the order does not matter, nothing is lost by looking at each amount on its own. -/
theorem estimate_eq_worstCase (hps : ∀ p ∈ ps, p.Within s) (hbx : ∀ i, b i ≤ x i)
    (hroom : ∀ i, x i + reservedAt ps i ≤ top i) (hfree : ∀ p ∈ ps, p.OrderFree w b top) :
    estimate s w top x ps = worstCase s w x ps := by
  induction ps generalizing x with
  | nil => simp [estimate, worstCase]
  | cons p ps ih =>
    have hp := hps p (mem_cons_self ..)
    have hpfree := hfree p (mem_cons_self ..)
    have hrest : ∀ q ∈ ps, q.Within s := fun q hq => hps q (mem_cons_of_mem _ hq)
    have hfreeRest : ∀ q ∈ ps, q.OrderFree w b top :=
      fun q hq => hfree q (mem_cons_of_mem _ hq)
    have hreserved := reservedAt_nonneg hrest
    have hfstTop := hroom p.fst
    have hsndTop := hroom p.snd
    rw [reservedAt_cons] at hfstTop hsndTop
    have hfst := (w p.fst).gain_of_orderFree hp.toFst_nonneg (hbx p.fst)
      (by linarith [hp.toFst_le, hreserved p.fst] : x p.fst + p.toFst ≤ top p.fst) hpfree.fst
    have hsnd := (w p.snd).gain_of_orderFree hp.toSnd_nonneg (hbx p.snd)
      (by linarith [hp.toSnd_le, hreserved p.snd] : x p.snd + p.toSnd ≤ top p.snd) hpfree.snd
    rw [worstCase, ← ih hrest (fun i => (hbx i).trans (le_credit hp.toFst_nonneg i))
        (room_of_credit hp hroom hp.toFst_le) hfreeRest,
      ← ih hrest (fun i => (hbx i).trans (le_credit hp.toSnd_nonneg i))
        (room_of_credit hp hroom hp.toSnd_le) hfreeRest,
      estimate, estimate, estimate, totalValue_credit hp.fst_mem, totalValue_credit hp.snd_mem,
      ← hfst, ← hsnd, min_add_add_right, min_add_add_left, map_cons, sum_cons,
      ← add_assoc]
    rfl

/-- Amounts for the same balances, none of them smaller. -/
structure Pending.Le (p q : Pending ι) : Prop where
  fst : q.fst = p.fst
  snd : q.snd = p.snd
  toFst : p.toFst ≤ q.toFst
  toSnd : p.toSnd ≤ q.toSnd

/-- Better weights, larger balances and larger amounts make the worst case better. -/
theorem worstCase_mono (hw : ∀ i ∈ s, (w i).Prudent) (hle : ∀ i ∈ s, (w i).Le (w' i))
    (hps : Forall₂ Pending.Le ps qs) (hxy : ∀ i, x i ≤ y i) :
    worstCase s w x ps ≤ worstCase s w' y qs := by
  induction hps generalizing x y with
  | nil => exact totalValue_mono hw hle hxy
  | cons hp _ ih =>
    rw [worstCase, worstCase, hp.fst, hp.snd]
    exact min_le_min (ih (credit_mono hxy hp.toFst)) (ih (credit_mono hxy hp.toSnd))

/-! ## Outcomes -/

/-- The balances after every amount was added to the side chosen for it. -/
def resolve (x : ι → ℚ) : List (Pending ι) → (Nat → Bool) → ι → ℚ
  | [], _ => x
  | p :: ps, toFst =>
    resolve (if toFst 0 then credit x p.fst p.toFst else credit x p.snd p.toSnd) ps
      fun n => toFst (n + 1)

/-- No outcome is worse than the worst case. -/
theorem worstCase_le_resolve (toFst : Nat → Bool) :
    worstCase s w x ps ≤ totalValue s w (resolve x ps toFst) := by
  induction ps generalizing x toFst with
  | nil => exact le_refl _
  | cons p ps ih =>
    rw [worstCase, resolve]
    split
    · exact (min_le_left _ _).trans (ih _)
    · exact (min_le_right _ _).trans (ih _)

theorem credit_add (z x : ι → ℚ) (i : ι) (r : ℚ) :
    credit (fun j => z j + x j) i r = fun j => z j + credit x i r j := by
  funext j
  by_cases h : j = i
  · subst h
    rw [credit_self, credit_self, add_assoc]
  · rw [credit_of_ne h, credit_of_ne h]

/-- Other balances on top do not change what is added. -/
theorem resolve_add (z : ι → ℚ) (toFst : Nat → Bool) :
    resolve (fun i => z i + x i) ps toFst = fun i => z i + resolve x ps toFst i := by
  induction ps generalizing x toFst with
  | nil => rfl
  | cons p ps ih =>
    rw [resolve, resolve, credit_add, credit_add]
    split
    · exact ih _
    · exact ih _

/-! ## Comparing estimates -/

/-- What the amount gains less on top of `top'` than on top of `top`. -/
def Pending.drop (w : ι → Weights) (top top' : ι → ℚ) (p : Pending ι) : ℚ :=
  p.gain w top - p.gain w top'

omit [DecidableEq ι] in
theorem sum_gain_eq (w : ι → Weights) (top top' : ι → ℚ) (ps : List (Pending ι)) :
    (ps.map (Pending.gain w top)).sum =
      (ps.map (Pending.gain w top')).sum + (ps.map (Pending.drop w top top')).sum := by
  rw [← sum_map_add]
  congr 1
  refine map_congr_left fun p _ => ?_
  rw [Pending.drop, add_sub_cancel]

omit [DecidableEq ι] in
/-- An estimate does not drop if what balances gain makes up for what the
    pending amounts gain less. -/
theorem estimate_le_iff : estimate s w top x ps ≤ estimate s w top' y ps ↔
    (ps.map (Pending.drop w top top')).sum ≤ totalValue s w y - totalValue s w x := by
  unfold estimate
  rw [sum_gain_eq w top top']
  constructor
  · intro h
    linarith
  · intro h
    linarith

/-! ## Parts of an estimate -/

/-- The same amount for balances with other names. -/
def Pending.map {κ : Type} (e : ι → κ) (p : Pending ι) : Pending κ where
  fst := e p.fst
  snd := e p.snd
  toFst := p.toFst
  toSnd := p.toSnd

omit [DecidableEq ι] in
theorem estimate_map {κ : Type} [DecidableEq κ] {e : ι → κ} (he : Set.InjOn e s) (w : κ → Weights)
    (top x : κ → ℚ) (ps : List (Pending ι)) :
    estimate (s.image e) w top x (ps.map (Pending.map e)) =
      estimate s (fun i => w (e i)) (fun i => top (e i)) (fun i => x (e i)) ps := by
  rw [estimate, estimate, totalValue, totalValue, Finset.sum_image he, map_map]
  rfl

omit [DecidableEq ι] in
theorem estimate_congr (hw : ∀ i ∈ s, w i = w' i) (htop : ∀ i ∈ s, top i = top' i)
    (hxy : ∀ i ∈ s, x i = y i) (hps : ∀ p ∈ ps, p.fst ∈ s ∧ p.snd ∈ s) :
    estimate s w top x ps = estimate s w' top' y ps := by
  unfold estimate totalValue
  rw [Finset.sum_congr rfl fun i hi => by rw [hw i hi, hxy i hi]]
  congr 2
  refine map_congr_left fun p hp => ?_
  obtain ⟨hfst, hsnd⟩ := hps p hp
  rw [Pending.gain, Pending.gain, hw _ hfst, hw _ hsnd, htop _ hfst, htop _ hsnd]

theorem sum_map_filter_add {α : Type} (keep : α → Bool) (f : α → ℚ) (l : List α) :
    ((l.filter keep).map f).sum + ((l.filter fun a => !keep a).map f).sum = (l.map f).sum := by
  induction l with
  | nil => simp
  | cons a l ih =>
    rw [map_cons, sum_cons, ← ih, filter_cons, filter_cons]
    cases keep a with
    | false =>
      simp only [Bool.not_false, if_true, Bool.false_eq_true, if_false, map_cons,
        sum_cons]
      ring
    | true =>
      simp only [Bool.not_true, if_true, Bool.false_eq_true, if_false, map_cons, sum_cons]
      ring

/-- Leaving out balances and pending amounts lowers an estimate as long as what
    the remaining amounts gain more is not above what is left out. -/
theorem estimate_filter_le_iff {s' : Finset ι} (hs : s' ⊆ s) (keep : Pending ι → Bool) :
    estimate s' w top' y (ps.filter keep) ≤ estimate s w top x ps ↔
      ((ps.filter keep).map (Pending.drop w top' top)).sum ≤
        ∑ i ∈ s \ s', (w i).value (x i) + ∑ i ∈ s', ((w i).value (x i) - (w i).value (y i)) +
          ((ps.filter fun p => !keep p).map (Pending.gain w top)).sum := by
  unfold estimate totalValue
  rw [sum_gain_eq w top' top, ← sum_map_filter_add keep (Pending.gain w top) ps,
    ← Finset.sum_sdiff hs, Finset.sum_sub_distrib]
  constructor
  · intro h
    linarith
  · intro h
    linarith

omit [DecidableEq ι] in
theorem Pending.gain_mono_asset (hasset : ∀ i, (w i).asset ≤ (w' i).asset)
    (hliab : ∀ i, (w i).liab = (w' i).liab) (hp : p.Within s) : p.gain w top ≤ p.gain w' top :=
  min_le_min (Weights.gain_mono_asset (hasset _) (hliab _) hp.toFst_nonneg _)
    (Weights.gain_mono_asset (hasset _) (hliab _) hp.toSnd_nonneg _)

theorem sum_map_eq_iff_of_le {α : Type} {f g : α → ℚ} {l : List α} (h : ∀ a ∈ l, f a ≤ g a) :
    (l.map f).sum = (l.map g).sum ↔ ∀ a ∈ l, f a = g a := by
  induction l with
  | nil => simp
  | cons a l ih =>
    have hrest : ∀ b ∈ l, f b ≤ g b := fun b hb => h b (mem_cons_of_mem _ hb)
    have hsum : (l.map f).sum ≤ (l.map g).sum := sum_le_sum hrest
    rw [map_cons, map_cons, sum_cons, sum_cons, forall_mem_cons,
      ← ih hrest]
    exact add_eq_add_iff_eq_and_eq (h a (mem_cons_self ..)) hsum

omit [DecidableEq ι] in
/-- If some assets count more, an estimate stays the same only if nothing of it does. -/
theorem estimate_eq_iff_of_asset_le (hasset : ∀ i, (w i).asset ≤ (w' i).asset)
    (hliab : ∀ i, (w i).liab = (w' i).liab) (hps : ∀ p ∈ ps, p.Within s) :
    estimate s w top x ps = estimate s w' top x ps ↔
      (∀ i ∈ s, (w i).value (x i) = (w' i).value (x i)) ∧ ∀ p ∈ ps, p.gain w top = p.gain w' top := by
  have hvalue : ∀ i ∈ s, (w i).value (x i) ≤ (w' i).value (x i) :=
    fun i _ => Weights.value_mono_asset (hasset i) (hliab i) (x i)
  have hgain : ∀ p ∈ ps, p.gain w top ≤ p.gain w' top :=
    fun p hp => p.gain_mono_asset hasset hliab (hps p hp)
  rw [← Finset.sum_eq_sum_iff_of_le hvalue, ← sum_map_eq_iff_of_le hgain]
  exact add_eq_add_iff_eq_and_eq (Finset.sum_le_sum hvalue) (sum_le_sum hgain)

/-- If assets of one balance count differently, an estimate stays the same only if
    there are none: the balance is not positive, and no pending amount counts
    for more than what is missing. -/
theorem estimate_eq_iff_of_asset {k : ι} (hother : ∀ i, i ≠ k → w i = w' i)
    (hliab : (w k).liab = (w' k).liab) (hk : k ∈ s) (hps : ∀ p ∈ ps, p.Within s) :
    estimate s w top x ps = estimate s w' top x ps ↔ (w k).asset = (w' k).asset ∨
      (x k ≤ 0 ∧ ∀ p ∈ ps, p.gain w top = p.gain w' top) := by
  have hliabs : ∀ i, (w i).liab = (w' i).liab := by
    intro i
    by_cases hi : i = k
    · rw [hi, hliab]
    · rw [hother i hi]
  have hle : ∀ {v v' : ι → Weights}, (∀ i, i ≠ k → v i = v' i) → (v k).asset ≤ (v' k).asset →
      ∀ i, (v i).asset ≤ (v' i).asset := by
    intro v v' hv hvk i
    by_cases hi : i = k
    · rwa [hi]
    · rw [hv i hi]
  -- the two estimates are compared term by term, whichever asset weight is larger
  have hterms : estimate s w top x ps = estimate s w' top x ps ↔
      (∀ i ∈ s, (w i).value (x i) = (w' i).value (x i)) ∧ ∀ p ∈ ps, p.gain w top = p.gain w' top := by
    rcases le_total (w k).asset (w' k).asset with hk | hk
    · exact estimate_eq_iff_of_asset_le (hle hother hk) hliabs hps
    · rw [eq_comm]
      refine (estimate_eq_iff_of_asset_le (hle (fun i hi => (hother i hi).symm) hk)
        (fun i => (hliabs i).symm) hps).trans ?_
      simp only [eq_comm]
  rw [hterms]
  constructor
  · rintro ⟨hvalue, hgain⟩
    rcases (Weights.value_eq_iff_of_liab hliab).mp (hvalue k hk) with h | h
    · exact Or.inl h
    · exact Or.inr ⟨h, hgain⟩
  · rintro (h | ⟨hx, hgain⟩)
    · have hw : w = w' := by
        funext i
        by_cases hi : i = k
        · rw [hi]
          exact Weights.ext h hliab
        · exact hother i hi
      rw [hw]
      exact ⟨fun _ _ => rfl, fun _ _ => rfl⟩
    · refine ⟨fun i _ => ?_, hgain⟩
      by_cases hi : i = k
      · rw [hi]
        exact (Weights.value_eq_iff_of_liab hliab).mpr (Or.inr hx)
      · rw [hother i hi]

end Pending

end MangoV4.Lib
