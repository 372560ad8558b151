/-
  MangoV4.Orderbook.OrderTreeExpiry

  The earliest expiries recorded in the inner nodes.

  `Dated s` says that every inner node of the tree `s` records the minimal
  expiry of each of its two subtrees; `CtxDated e c` says the same of a
  context whose hole has minimal expiry `e`.  `update_parent_earliest_expiry`
  takes a context dated for the old expiry of the hole to one dated for the new
  one, and its early stop is right because the recorded expiry is then the new
  one already (`updateExpiry_dated`).
-/

import MangoV4.Orderbook.OrderTreeWalk
import Mathlib.Order.Bounds.Basic

namespace MangoV4

open Lib Lib.Exec Lib.CritBit NodeTree List

/-! ## Expiries of orders and subtrees -/

/-- The time at which the order expires, before the check that it fits. -/
def LeafNode.expiresAt (n : LeafNode) : Nat :=
  if n.timeInForce = 0 then U64_MAX else n.timestamp + n.timeInForce

theorem expiry_eq_ok_iff {n : LeafNode} {e : Nat} :
    n.expiry = .ok e ↔ n.ExpiryFits ∧ e = n.expiresAt := by
  unfold LeafNode.expiry LeafNode.ExpiryFits LeafNode.expiresAt
  by_cases h0 : n.timeInForce = 0
  · rw [if_pos h0, if_pos h0]
    constructor
    · intro h
      exact ⟨Or.inl h0, (ok_inj h).symm⟩
    · rintro ⟨-, rfl⟩
      rfl
  · rw [if_neg h0, if_neg h0, checkU64_eq_ok]
    simp [h0]

theorem InnerNode.earliestExpiry_eq (n : InnerNode) (bit : Bool) :
    n.earliestExpiry = min (n.childEarliestExpiry.get bit) (n.childEarliestExpiry.get (!bit)) := by
  cases bit with
  | false => rfl
  | true => exact Nat.min_comm ..

namespace NodeTree

/-- The minimal expiry of the tree's orders. -/
def minExpiry : NodeTree → Nat
  | .leaf x => x.2.expiresAt
  | .inner _ l r => min (minExpiry l) (minExpiry r)

/-- The expiries of all orders of the tree fit into 64 bits. -/
def ExpiriesFit (t : NodeTree) : Prop := ∀ o ∈ orders t, o.ExpiryFits

/-- Every inner node records the minimal expiries of its two subtrees, and all
    orders below it have an expiry.  A single leaf records nothing. -/
def Dated : NodeTree → Prop
  | .leaf _ => True
  | .inner i l r =>
    (i.2.childEarliestExpiry = ⟨minExpiry l, minExpiry r⟩ ∧ ExpiriesFit l ∧ ExpiriesFit r) ∧
      Dated l ∧ Dated r

theorem orders_inner (i : InnerCell) (l r : NodeTree) :
    orders (.inner i l r) = orders l ++ orders r := map_append ..

theorem expiriesFit_leaf {x : LeafCell} : ExpiriesFit (.leaf x) ↔ x.2.ExpiryFits :=
  forall_mem_singleton

theorem expiriesFit_inner {i : InnerCell} {l r : NodeTree} :
    ExpiriesFit (.inner i l r) ↔ ExpiriesFit l ∧ ExpiriesFit r := by
  unfold ExpiriesFit
  rw [orders_inner, forall_mem_append]

variable {t : NodeTree}

theorem minExpiry_le {o : LeafNode} (ho : o ∈ orders t) :
    minExpiry t ≤ o.expiresAt := by
  induction t with
  | leaf x =>
    obtain rfl := mem_singleton.mp ho
    exact Nat.le_refl _
  | inner i l r ihl ihr =>
    rw [orders_inner] at ho
    rcases mem_append.mp ho with ho | ho
    · exact Nat.le_trans (Nat.min_le_left ..) (ihl ho)
    · exact Nat.le_trans (Nat.min_le_right ..) (ihr ho)

theorem exists_expiresAt_eq_minExpiry (t : NodeTree) :
    ∃ o ∈ orders t, o.expiresAt = minExpiry t := by
  induction t with
  | leaf x => exact ⟨x.2, mem_singleton.mpr rfl, rfl⟩
  | inner i l r ihl ihr =>
    obtain ⟨ol, hol, hel⟩ := ihl
    obtain ⟨or, hor, her⟩ := ihr
    rw [orders_inner]
    rcases Nat.le_total (minExpiry l) (minExpiry r) with hle | hle
    · exact ⟨ol, mem_append_left _ hol, hel.trans (Nat.min_eq_left hle).symm⟩
    · exact ⟨or, mem_append_right _ hor, her.trans (Nat.min_eq_right hle).symm⟩

/-- The minimal expiry is the least of the expiries the orders compute. -/
theorem isLeast_minExpiry (hfit : ExpiriesFit t) :
    IsLeast {e | ∃ o ∈ orders t, o.expiry = .ok e} (minExpiry t) := by
  constructor
  · obtain ⟨o, ho, he⟩ := exists_expiresAt_eq_minExpiry t
    exact ⟨o, ho, expiry_eq_ok_iff.mpr ⟨hfit o ho, he.symm⟩⟩
  · rintro e ⟨o, ho, he⟩
    obtain ⟨-, rfl⟩ := expiry_eq_ok_iff.mp he
    exact minExpiry_le ho

/-- What `earliest_expiry` of a subtree's root reads. -/
theorem Dated.earliestExpiry_eq (h : Dated t) {e : Nat}
    (he : (contents t).earliestExpiry = .ok e) : ExpiriesFit t ∧ e = minExpiry t := by
  cases t with
  | leaf x =>
    obtain ⟨hfits, rfl⟩ := expiry_eq_ok_iff.mp he
    exact ⟨expiriesFit_leaf.mpr hfits, rfl⟩
  | inner i l r =>
    obtain ⟨⟨hpair, hl, hr⟩, -⟩ := h
    refine ⟨expiriesFit_inner.mpr ⟨hl, hr⟩, ?_⟩
    rw [← ok_inj he, InnerNode.earliestExpiry, hpair]
    rfl

/-- An order without an expiry is the only one of its tree. -/
theorem Dated.eq_leaf (h : Dated t) {o : LeafNode} (ho : o ∈ orders t)
    (hbad : ¬ o.ExpiryFits) : ∃ x : LeafCell, t = .leaf x ∧ x.2 = o := by
  cases t with
  | leaf x => exact ⟨x, rfl, (mem_singleton.mp ho).symm⟩
  | inner i l r =>
    obtain ⟨⟨-, hl, hr⟩, -⟩ := h
    exact absurd (expiriesFit_inner.mpr ⟨hl, hr⟩ o ho) hbad

@[simp] theorem minExpiry_moveRoot (h : NodeHandle) (t : NodeTree) :
    minExpiry (moveRoot h t) = minExpiry t := by
  cases t <;> rfl

theorem expiriesFit_moveRoot {h : NodeHandle} :
    ExpiriesFit (moveRoot h t) ↔ ExpiriesFit t := by
  unfold ExpiriesFit
  rw [orders_moveRoot]

theorem dated_moveRoot {h : NodeHandle} : Dated (moveRoot h t) ↔ Dated t := by
  cases t <;> rfl

end NodeTree

/-- An empty tree has nothing to record. -/
def OptDated : Option NodeTree → Prop
  | none => True
  | some s => Dated s

/-! ## Contexts -/

/-- The frame's inner node records `e` for the hole and the minimal expiry of
    the sibling, and the sibling records its own. -/
structure FrameDated (e : Nat) (f : NodeFrame) : Prop where
  taken : f.i.2.childEarliestExpiry.get f.bit = e
  other : f.i.2.childEarliestExpiry.get (!f.bit) = minExpiry f.sib
  fits : ExpiriesFit f.sib
  sib : Dated f.sib

/-- All frames of a context record the right expiries when its hole has
    minimal expiry `e`. -/
def CtxDated : Nat → List NodeFrame → Prop
  | _, [] => True
  | e, f :: c => FrameDated e f ∧ CtxDated (min e (minExpiry f.sib)) c

theorem FrameDated.earliestExpiry_eq {e : Nat} {f : NodeFrame} (h : FrameDated e f) :
    f.i.2.earliestExpiry = min e (minExpiry f.sib) := by
  rw [f.i.2.earliestExpiry_eq f.bit, h.taken, h.other]

theorem Frame.minExpiry_plug (f : NodeFrame) (s : NodeTree) :
    minExpiry (f.plug s) = min (minExpiry s) (minExpiry f.sib) := by
  obtain ⟨i, bit, sib⟩ := f
  cases bit with
  | false => rfl
  | true => exact Nat.min_comm ..

theorem Frame.dated_plug_iff (f : NodeFrame) (s : NodeTree) :
    Dated (f.plug s) ↔
      FrameDated (minExpiry s) f ∧ ExpiriesFit s ∧ Dated s := by
  obtain ⟨i, bit, sib⟩ := f
  cases bit with
  | false =>
    constructor
    · rintro ⟨⟨hpair, hs, hsib⟩, hds, hdsib⟩
      exact ⟨⟨by rw [hpair]; rfl, by rw [hpair]; rfl, hsib, hdsib⟩, hs, hds⟩
    · rintro ⟨⟨htaken, hother, hsib, hdsib⟩, hs, hds⟩
      refine ⟨⟨?_, hs, hsib⟩, hds, hdsib⟩
      rw [← htaken, ← hother]
      rfl
  | true =>
    constructor
    · rintro ⟨⟨hpair, hsib, hs⟩, hdsib, hds⟩
      exact ⟨⟨by rw [hpair]; rfl, by rw [hpair]; rfl, hsib, hdsib⟩, hs, hds⟩
    · rintro ⟨⟨htaken, hother, hsib, hdsib⟩, hs, hds⟩
      refine ⟨⟨?_, hsib, hs⟩, hdsib, hds⟩
      rw [← htaken, ← hother]
      rfl

theorem Frame.expiriesFit_plug_iff (f : NodeFrame) (s : NodeTree) :
    ExpiriesFit (f.plug s) ↔ ExpiriesFit s ∧ ExpiriesFit f.sib := by
  obtain ⟨i, bit, sib⟩ := f
  cases bit with
  | false => exact expiriesFit_inner
  | true => exact expiriesFit_inner.trans and_comm

/-- A tree is dated iff its hole and the context around it are. -/
theorem dated_plug_iff (c : List NodeFrame) (s : NodeTree) :
    Dated (plug c s) ↔ CtxDated (minExpiry s) c ∧
      (c ≠ [] → ExpiriesFit s) ∧ Dated s := by
  induction c generalizing s with
  | nil => simp [plug_nil, CtxDated]
  | cons f c ih =>
    -- the frame becomes part of the hole
    have hplug : plug (f :: c) s = plug c (f.plug s) := rfl
    rw [hplug, ih, Frame.dated_plug_iff, Frame.minExpiry_plug, Frame.expiriesFit_plug_iff]
    constructor
    · rintro ⟨hc, -, hf, hs, hds⟩
      exact ⟨⟨hf, hc⟩, fun _ => hs, hds⟩
    · rintro ⟨⟨hf, hc⟩, hs, hds⟩
      have hs := hs (cons_ne_nil f c)
      exact ⟨hc, fun _ => ⟨hs, hf.fits⟩, hf, hs, hds⟩

namespace OrderTreeNodes

/-- The frames are brought up to date when the walk starts from the recorded
    expiry, and also when the new expiry is the one recorded: there the walk
    stops at once. -/
theorem updateExpiry_dated {c : List NodeFrame} {e o n : Nat} (h : CtxDated e c)
    (heq : e = o ∨ e = n) : CtxDated n (updateExpiry c o n) := by
  induction c generalizing e o n with
  | nil => trivial
  | cons f c ih =>
    obtain ⟨hf, hc⟩ := h
    unfold updateExpiry
    split
    · rename_i hne
      rw [hf.taken] at hne
      obtain rfl : e = n := heq.resolve_left hne
      exact ⟨hf, hc⟩
    · rename_i hnot
      have hf' : FrameDated n { f with i := (f.i.1, { f.i.2 with
          childEarliestExpiry := f.i.2.childEarliestExpiry.set f.bit n }) } :=
        ⟨Two.get_set_self .., (Two.get_set_not ..).trans hf.other, hf.fits, hf.sib⟩
      refine ⟨hf', ?_⟩
      rw [← hf'.earliestExpiry_eq]
      exact ih hc (Or.inl hf.earliestExpiry_eq.symm)

end OrderTreeNodes

end MangoV4
