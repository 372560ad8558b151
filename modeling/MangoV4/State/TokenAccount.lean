/-
  MangoV4.State.TokenAccount

  The token part of a mango account (`mango_account.rs`): spot open orders and
  conditional swaps, and the use counts of the token positions they need.

  `Serves a u` says that the token positions of `a` count the uses `u`: the
  position of a token counts as many as `u` has of it, and there is none only
  if `u` has none.  Every function comes with what it makes of `u`.
-/

import MangoV4.State.BankFaults
import MangoV4.State.BankNative

namespace MangoV4

open Lib Lib.Exec

namespace MangoAccount

/-! ## Use counts -/

/-- `ensure_token_position(..).0.increment_in_use()` -/
def ensureTokenInUse (a : MangoAccount) (tokenIndex : TokenIndex) : Exec MangoAccount := do
  let (p, a) ← a.ensureTokenPosition tokenIndex
  let inUseCount ← checkUnsigned 16 (p.inUseCount + 1)
  return a.setTokenPosition { p with inUseCount }

/-- `token_position_mut(..).0.decrement_in_use()`, which saturates -/
def decrementInUse (a : MangoAccount) (tokenIndex : TokenIndex) : Exec MangoAccount := do
  let p ← a.tokenPositionMut tokenIndex
  return a.setTokenPosition { p with inUseCount := p.inUseCount - 1 }

/-- Decrements the use count for the token of the bank.  At zero the position
    may be dusted and closed. -/
def tokenDecrementDustDeactivate (a : MangoAccount) (bank : Bank) (tokenIndex : TokenIndex)
    (nowTs : Nat) : Exec (Bank × MangoAccount) :=
  match a.tokens.find? fun p => decide (p.tokenIndex = tokenIndex) with
  -- already deactivated is ok
  | none => .ok (bank, a)
  | some p => do
    let (active, bank, p) ← bank.dustIfPossible { p with inUseCount := p.inUseCount - 1 } nowTs
    return (bank, ← (a.setTokenPosition p).deactivateIfInactive tokenIndex active)

/-! ## Spot open orders -/

def serum3Orders (a : MangoAccount) (marketIndex : Serum3MarketIndex) : Exec Serum3Orders :=
  match a.serum3.find? (Serum3Orders.isActiveForMarket marketIndex) with
  | some o => .ok o
  | none => fail .someError

/-- Takes a free entry for `orders`. -/
def createSerum3Orders (a : MangoAccount) (orders : Serum3Orders) : Exec MangoAccount :=
  match a.serum3.find? (Serum3Orders.isActiveForMarket orders.marketIndex) with
  | some _ => fail .serum3OpenOrdersExistAlready
  | none =>
    match a.serum3.find? fun o => !o.isActive with
    | some _ => .ok { a with serum3 := replaceFirst (fun o => !o.isActive) orders a.serum3 }
    | none => fail .noFreeSerum3OpenOrdersIndex

def deactivateSerum3Orders (a : MangoAccount) (marketIndex : Serum3MarketIndex) :
    Exec MangoAccount := do
  let o ← a.serum3Orders marketIndex
  return { a with
    serum3 := replaceFirst (Serum3Orders.isActiveForMarket marketIndex)
      { o with marketIndex := FREE_SERUM3_INDEX } a.serum3 }

/-! ## Conditional swaps -/

def tokenConditionalSwapByIndex (a : MangoAccount) (index : Nat) : Exec TokenConditionalSwap :=
  match a.tokenConditionalSwaps[index]? with
  | some swap => .ok swap
  | none => fail .requireGtViolated

/-- Writes through the reference that `token_conditional_swap_mut_by_index` returned. -/
def setTokenConditionalSwap (a : MangoAccount) (index : Nat) (swap : TokenConditionalSwap) :
    MangoAccount :=
  { a with tokenConditionalSwaps := a.tokenConditionalSwaps.set index swap }

def tokenConditionalSwapFreeIndex (a : MangoAccount) : Exec Nat :=
  match a.tokenConditionalSwaps.findIdx? fun swap => !swap.isConfigured with
  | some index => .ok index
  | none => fail .someError

/-! ## What the positions count -/

/-- The position of a token. -/
def tokenPosition (a : MangoAccount) (tokenIndex : TokenIndex) : Option TokenPosition :=
  a.tokens.find? fun p => decide (p.tokenIndex = tokenIndex)

/-- Number of positions with a token index. -/
def tokenCount (a : MangoAccount) (tokenIndex : TokenIndex) : Nat :=
  a.tokens.countP fun p => decide (p.tokenIndex = tokenIndex)

/-- Use count of the position of a token, zero if there is none. -/
def held (a : MangoAccount) (tokenIndex : TokenIndex) : Nat :=
  (a.tokenPosition tokenIndex).elim 0 TokenPosition.inUseCount

/-- The token positions count the uses `u`. -/
structure Serves (a : MangoAccount) (u : TokenIndex → Nat) : Prop where
  held : ∀ t, t ≠ FREE_TOKEN_INDEX → a.held t = u t
  single : ∀ t, t ≠ FREE_TOKEN_INDEX → a.tokenCount t ≤ 1

/-- One use of `t` more. -/
def bump (u : TokenIndex → Nat) (t : TokenIndex) : TokenIndex → Nat :=
  fun t' => u t' + if t = t' then 1 else 0

theorem tokenPositionMut_eq_ok {a : MangoAccount} {t : TokenIndex} {p : TokenPosition} :
    a.tokenPositionMut t = .ok p ↔ a.tokenPosition t = some p := by
  unfold tokenPositionMut tokenPosition
  cases a.tokens.find? fun p => decide (p.tokenIndex = t) with
  | none => simp [fail]
  | some p' => simp

theorem tokenPosition_tokenIndex {a : MangoAccount} {t : TokenIndex} {p : TokenPosition}
    (h : a.tokenPosition t = some p) : p.tokenIndex = t :=
  of_decide_eq_true (List.find?_some (p := fun p : TokenPosition => decide (p.tokenIndex = t)) h)

theorem held_of_position {a : MangoAccount} {t : TokenIndex} {p : TokenPosition}
    (h : a.tokenPosition t = some p) : a.held t = p.inUseCount := by
  rw [held, h, Option.elim_some]

theorem held_of_none {a : MangoAccount} {t : TokenIndex} (h : a.tokenPosition t = none) :
    a.held t = 0 := by
  rw [held, h, Option.elim_none]

/-- The entries other than token positions are the same. -/
structure SameEntries (a' a : MangoAccount) : Prop where
  perps : a'.perps = a.perps
  serum3 : a'.serum3 = a.serum3
  tokenConditionalSwaps : a'.tokenConditionalSwaps = a.tokenConditionalSwaps

theorem SameEntries.refl (a : MangoAccount) : a.SameEntries a := ⟨rfl, rfl, rfl⟩

theorem SameEntries.trans {a a₁ a₂ : MangoAccount} (h₂ : a₂.SameEntries a₁)
    (h₁ : a₁.SameEntries a) : a₂.SameEntries a :=
  ⟨h₂.perps.trans h₁.perps, h₂.serum3.trans h₁.serum3,
    h₂.tokenConditionalSwaps.trans h₁.tokenConditionalSwaps⟩

theorem setTokenPosition_sameEntries (a : MangoAccount) (p : TokenPosition) :
    (a.setTokenPosition p).SameEntries a := ⟨rfl, rfl, rfl⟩

theorem ensureTokenPosition_sameEntries {a a' : MangoAccount} {t : TokenIndex} {p : TokenPosition}
    (h : a.ensureTokenPosition t = .ok (p, a')) : a'.SameEntries a := by
  unfold ensureTokenPosition at h
  split at h
  · obtain ⟨-, rfl⟩ := ok_inj₂ h
    exact .refl a
  · dsimp only at h
    split at h
    · obtain ⟨-, rfl⟩ := ok_inj₂ h
      exact ⟨rfl, rfl, rfl⟩
    · cases h

section Faults

variable {F : Fault MangoError → Prop} (a : MangoAccount) (t : TokenIndex)

theorem faults_tokenPositionMut (h : F (.error .tokenPositionDoesNotExist)) :
    Faults F (a.tokenPositionMut t) := by
  unfold tokenPositionMut
  split
  · exact .ok _
  · exact Faults.fail_iff.mpr h

theorem faults_ensureTokenPosition (h : F (.error .noFreeTokenPositionIndex)) :
    Faults F (a.ensureTokenPosition t) := by
  unfold ensureTokenPosition
  split
  · exact .ok _
  · dsimp only
    split
    · exact .ok _
    · exact Faults.fail_iff.mpr h

end Faults

/-! ## Positions that are written back -/

section Lookup

variable {a a' : MangoAccount} {t t' : TokenIndex} {p r : TokenPosition}

/-- What is found after a position is written back. -/
theorem tokenPosition_setTokenPosition (hp : a.tokenPosition t = some p) (hr : r.tokenIndex = t) :
    (a.setTokenPosition r).tokenPosition t = some r := by
  subst hr
  exact find?_replaceFirst_self hp (decide_eq_true rfl)

theorem tokenPosition_setTokenPosition_of_ne (hp : a.tokenPosition t = some p)
    (hr : r.tokenIndex = t) (hne : t' ≠ t) :
    (a.setTokenPosition r).tokenPosition t' = a.tokenPosition t' := by
  subst hr
  exact find?_replaceFirst_of_not (q := fun x => decide (x.tokenIndex = t')) hp
    (decide_eq_false fun heq => hne (heq.symm.trans (tokenPosition_tokenIndex hp)))
    (decide_eq_false fun heq => hne heq.symm)

theorem setTokenPosition_setTokenPosition (h : r.tokenIndex = p.tokenIndex) :
    (a.setTokenPosition p).setTokenPosition r = a.setTokenPosition r := by
  have hreplace := replaceFirst_replaceFirst (p := fun x => decide (x.tokenIndex = p.tokenIndex))
    (x := p) (y := r) (l := a.tokens) (decide_eq_true rfl)
  unfold setTokenPosition
  rw [h, hreplace]

/-- The position that is returned is found, and so are those of other tokens; if it
    is new, nothing uses it. -/
theorem tokenPosition_ensureTokenPosition (h : a.ensureTokenPosition t = .ok (p, a')) :
    a'.tokenPosition t = some p ∧ (a.tokenPosition t = some p ∨ a.tokenPosition t = none ∧
      p.inUseCount = 0) ∧
      ∀ t', t' ≠ FREE_TOKEN_INDEX → t' ≠ t → a'.tokenPosition t' = a.tokenPosition t' := by
  unfold MangoAccount.ensureTokenPosition at h
  split at h
  · rename_i hfind
    obtain ⟨rfl, rfl⟩ := ok_inj₂ h
    exact ⟨hfind, .inl hfind, fun _ _ _ => rfl⟩
  · rename_i hfind
    dsimp only at h
    split at h
    · rename_i q hfree
      obtain ⟨rfl, rfl⟩ := ok_inj₂ h
      have hq : q.tokenIndex = FREE_TOKEN_INDEX :=
        of_decide_eq_true
          (List.find?_some (p := fun p : TokenPosition => decide (p.tokenIndex = _)) hfree)
      have hnew := find?_replaceFirst_new (q := fun p => decide (p.tokenIndex = t))
        (x := { tokenIndex := t, inUseCount := 0 }) hfree hfind (decide_eq_true rfl)
      refine ⟨hnew, .inr ⟨hfind, rfl⟩, fun t' ht' hne => ?_⟩
      exact find?_replaceFirst_of_not (q := fun p => decide (p.tokenIndex = t'))
        (x := { tokenIndex := t, inUseCount := 0 }) hfree
        (decide_eq_false fun heq => ht' (heq.symm.trans hq)) (decide_eq_false fun heq => hne heq.symm)
    · cases h

/-- A deactivated position is no longer found, and the others are. -/
theorem tokenPosition_deactivateTokenPosition (ht' : t' ≠ FREE_TOKEN_INDEX)
    (hsingle : a.tokenCount t' ≤ 1) (h : a.deactivateTokenPosition t = .ok a') :
    a'.tokenPosition t' = if t' = t then none else a.tokenPosition t' := by
  obtain ⟨p, hp, h⟩ := of_bind h
  obtain ⟨_, -, h⟩ := of_bind h
  obtain rfl := ok_inj h
  have hp := tokenPositionMut_eq_ok.mp hp
  have hindex := tokenPosition_tokenIndex hp
  have hfree : decide (FREE_TOKEN_INDEX = t') = false := decide_eq_false fun heq => ht' heq.symm
  by_cases hcase : t' = t
  · subst hcase
    rw [if_pos rfl]
    exact find?_replaceFirst_none (x := { p with tokenIndex := FREE_TOKEN_INDEX }) hp hsingle hfree
  · rw [if_neg hcase]
    exact find?_replaceFirst_of_not (q := fun p => decide (p.tokenIndex = t'))
      (x := { p with tokenIndex := FREE_TOKEN_INDEX }) hp
      (decide_eq_false fun heq => hcase (heq.symm.trans hindex)) hfree

end Lookup

namespace Serves

variable {a : MangoAccount} {u u' : TokenIndex → Nat} {t : TokenIndex} {p p' : TokenPosition}

theorem congr (h : a.Serves u) (hu : ∀ t, t ≠ FREE_TOKEN_INDEX → u' t = u t) : a.Serves u' :=
  ⟨fun t ht => (h.held t ht).trans (hu t ht).symm, h.single⟩

/-- Only the token positions matter. -/
theorem of_tokens {b : MangoAccount} (h : a.Serves u) (htokens : b.tokens = a.tokens) :
    b.Serves u := by
  refine ⟨fun t ht => ?_, fun t ht => ?_⟩
  · rw [MangoAccount.held, tokenPosition, htokens]
    exact h.held t ht
  · rw [tokenCount, htokens]
    exact h.single t ht

/-- A position in the list is the one that is found. -/
theorem position_of_mem (h : a.Serves u) (hp : p ∈ a.tokens) (ht : p.tokenIndex ≠ FREE_TOKEN_INDEX) :
    a.tokenPosition p.tokenIndex = some p :=
  find?_of_countP_le_one hp (decide_eq_true rfl) (h.single _ ht)

/-- A position of the same token is written back. -/
theorem set (h : a.Serves u) (hp : a.tokenPosition t = some p) (hp' : p'.tokenIndex = t)
    (hu : ∀ t', t' ≠ FREE_TOKEN_INDEX → u' t' = if t' = t then p'.inUseCount else u t') :
    (a.setTokenPosition p').Serves u' := by
  subst hp'
  have hold := tokenPosition_tokenIndex hp
  refine ⟨fun t' ht' => ?_, fun t' ht' => ?_⟩
  · rw [hu t' ht']
    by_cases hcase : t' = p'.tokenIndex
    · rw [if_pos hcase, hcase]
      exact held_of_position (tokenPosition_setTokenPosition hp rfl)
    · rw [if_neg hcase, ← h.held t' ht', MangoAccount.held, MangoAccount.held,
        tokenPosition_setTokenPosition_of_ne hp rfl hcase]
  · have hcount := countP_replaceFirst (q := fun x => decide (x.tokenIndex = t')) (x := p') hp
    rw [hold] at hcount
    have hsame := Nat.add_right_cancel hcount
    exact hsame.le.trans (h.single t' ht')

/-- The use count is kept. -/
theorem set_same (h : a.Serves u) (hp : a.tokenPosition t = some p) (hp' : p'.tokenIndex = t)
    (hcount : p'.inUseCount = p.inUseCount) : (a.setTokenPosition p').Serves u := by
  refine h.set hp hp' fun t' ht' => ?_
  split
  · rename_i heq
    rw [hcount, ← held_of_position hp, ← heq, h.held t' ht']
  · rfl

theorem ensureTokenPosition {a' : MangoAccount} (h : a.Serves u)
    (hex : a.ensureTokenPosition t = .ok (p, a')) :
    a'.Serves u ∧ a'.tokenPosition t = some p := by
  obtain ⟨hfound, hold, hothers⟩ := tokenPosition_ensureTokenPosition hex
  refine ⟨⟨fun t' ht' => ?_, fun t' ht' => ?_⟩, hfound⟩
  · rw [← h.held t' ht']
    by_cases hcase : t' = t
    · rw [hcase, held_of_position hfound]
      rcases hold with hsame | ⟨hnone, hzero⟩
      · exact (held_of_position hsame).symm
      · rw [held_of_none hnone, hzero]
    · exact congrArg (Option.elim · 0 TokenPosition.inUseCount) (hothers t' ht' hcase)
  · unfold MangoAccount.ensureTokenPosition at hex
    split at hex
    · obtain ⟨-, rfl⟩ := ok_inj₂ hex
      exact h.single t' ht'
    · rename_i hfind
      dsimp only at hex
      split at hex
      · rename_i hfree
        obtain ⟨-, rfl⟩ := ok_inj₂ hex
        have hcount := countP_replaceFirst (q := fun p => decide (p.tokenIndex = t'))
          (x := { tokenIndex := t, inUseCount := 0 }) hfree
        by_cases hcase : t = t'
        · have hzero : a.tokens.countP (fun p => decide (p.tokenIndex = t')) = 0 := by
            rw [List.countP_eq_zero, ← hcase]
            exact List.find?_eq_none.mp hfind
          rw [hzero, if_pos (decide_eq_true hcase)] at hcount
          exact (Nat.le_add_right _ _).trans hcount.le
        · have hnot : ¬ decide (t = t') = true := fun heq => hcase (of_decide_eq_true heq)
          rw [if_neg hnot] at hcount
          exact (Nat.le_add_right _ _).trans (hcount.le.trans (h.single t' ht'))
      · cases hex

theorem deactivateTokenPosition {a' : MangoAccount} (h : a.Serves u)
    (hex : a.deactivateTokenPosition t = .ok a') : a'.Serves u := by
  have hlookup := fun t' ht' => tokenPosition_deactivateTokenPosition ht' (h.single t' ht') hex
  obtain ⟨p, hp, hex⟩ := of_bind hex
  obtain ⟨_, hassert, hex⟩ := of_bind hex
  obtain rfl := ok_inj hex
  have hzero : p.inUseCount = 0 := of_assert hassert
  have hp := tokenPositionMut_eq_ok.mp hp
  refine ⟨fun t' ht' => ?_, fun t' ht' => ?_⟩
  · rw [← h.held t' ht', MangoAccount.held, hlookup t' ht']
    by_cases hcase : t' = t
    · -- the only position of the token goes, and it counted zero
      rw [if_pos hcase, hcase, held_of_position hp, hzero]
      rfl
    · rw [if_neg hcase]
      rfl
  · have hcount := countP_replaceFirst (q := fun p => decide (p.tokenIndex = t'))
      (x := { p with tokenIndex := FREE_TOKEN_INDEX }) hp
    have hnot : decide (FREE_TOKEN_INDEX = t') = false := decide_eq_false fun heq => ht' heq.symm
    simp only [hnot, Bool.false_eq_true, if_false, Nat.add_zero] at hcount
    exact (Nat.le_add_right _ _).trans (hcount.le.trans (h.single t' ht'))

/-- Deactivating fails its assertion only on a position in use, and has no other panics. -/
theorem deactivateIfInactive {q : Panic} (h : a.Serves u) (ht : t ≠ FREE_TOKEN_INDEX)
    {active : Bool} (hidle : active = false → u t = 0) :
    Yields q (a.deactivateIfInactive t active) fun a' =>
      a'.Serves u ∧ a'.SameEntries a := by
  refine Yields.ite (fun _ => Yields.pure ⟨h, .refl a⟩) fun hactive => ⟨?_, fun a' hex => ?_⟩
  · refine Faults.avoids (.bind_of (faults_tokenPositionMut a t (by simp)) fun p hp => ?_)
    have hcount := held_of_position (tokenPositionMut_eq_ok.mp hp)
    have hzero : p.inUseCount = 0 := by
      rw [← hcount, h.held t ht]
      exact hidle (Bool.eq_false_iff.mpr hactive)
    rw [hzero]
    exact .bind (.ok _) fun _ => .ok _
  · refine ⟨h.deactivateTokenPosition hex, ?_⟩
    obtain ⟨_, _, hex⟩ := of_bind hex
    obtain ⟨_, _, hex⟩ := of_bind hex
    obtain rfl := ok_inj hex
    exact ⟨rfl, rfl, rfl⟩

/-- A bank changed the position. -/
theorem changes (h : a.Serves u) (hp : a.tokenPosition t = some p) {b b' : Bank} {active : Bool}
    (hchanges : b.Changes p active b' p') : (a.setTokenPosition p').Serves u :=
  h.set_same hp (hchanges.posts.tokenIndex.trans (tokenPosition_tokenIndex hp))
    hchanges.posts.inUseCount

/-- A bank reports a position as inactive only if nothing uses it. -/
theorem idle_of_changes (h : a.Serves u) (ht : t ≠ FREE_TOKEN_INDEX)
    (hp : a.tokenPosition t = some p) {b b' : Bank} {active : Bool}
    (hchanges : b.Changes p active b' p') (hactive : active = false) : u t = 0 := by
  rw [← h.held t ht, held_of_position hp]
  exact (hchanges.dusted hactive).1

end Serves

/-! ## The functions, with what they make of the uses -/

section Yields

variable {a : MangoAccount} {u : TokenIndex → Nat} {t : TokenIndex} {q : Panic}

theorem tokenPositionMut_yields (a : MangoAccount) (t : TokenIndex) :
    Yields q (a.tokenPositionMut t) fun p => a.tokenPosition t = some p :=
  ⟨Faults.avoids (faults_tokenPositionMut a t (by simp)), fun _ h => tokenPositionMut_eq_ok.mp h⟩

theorem ensureTokenPosition_yields (h : a.Serves u) :
    Yields q (a.ensureTokenPosition t) fun r =>
      r.2.Serves u ∧ r.2.SameEntries a ∧ r.2.tokenPosition t = some r.1 := by
  refine ⟨Faults.avoids (faults_ensureTokenPosition a t (by simp)), ?_⟩
  rintro ⟨p, a'⟩ hex
  obtain ⟨hserves, hp⟩ := h.ensureTokenPosition hex
  exact ⟨hserves, ensureTokenPosition_sameEntries hex, hp⟩

theorem ensureTokenInUse_yields (hq : q.arithmetic = false) (h : a.Serves u) :
    Yields q (a.ensureTokenInUse t) fun a' => a'.Serves (bump u t) ∧ a'.SameEntries a := by
  refine (ensureTokenPosition_yields h).bind ?_
  rintro ⟨p, a₁⟩ ⟨hserves, hentries, hp⟩
  have hindex : p.tokenIndex = t := tokenPosition_tokenIndex hp
  refine Yields.bind_of (by simp [hq]) fun n hn => Yields.pure
    ⟨?_, (setTokenPosition_sameEntries a₁ _).trans hentries⟩
  obtain ⟨-, rfl⟩ := checkUnsigned_eq_ok.mp hn
  refine hserves.set hp hindex fun t' ht' => ?_
  unfold bump
  by_cases hcase : t' = t
  · rw [if_pos hcase.symm, if_pos hcase, ← hserves.held t' ht', hcase, held_of_position hp]
  · rw [if_neg (Ne.symm hcase), if_neg hcase, Nat.add_zero]

/-- The use that is given back is counted, so that the decrement does not saturate. -/
theorem Serves.decrement (ht : t ≠ FREE_TOKEN_INDEX) (h : a.Serves (bump u t)) {p : TokenPosition}
    (hp : a.tokenPosition t = some p) :
    (a.setTokenPosition { p with inUseCount := p.inUseCount - 1 }).Serves u := by
  have hcount : p.inUseCount = u t + 1 := by
    rw [← held_of_position hp, h.held t ht, bump, if_pos rfl]
  have hindex : p.tokenIndex = t := tokenPosition_tokenIndex hp
  refine h.set hp hindex fun t' ht' => ?_
  unfold bump
  by_cases hcase : t' = t
  · rw [if_pos hcase, hcase, hcount, Nat.add_sub_cancel]
  · rw [if_neg hcase, if_neg (Ne.symm hcase), Nat.add_zero]

theorem decrementInUse_yields (ht : t ≠ FREE_TOKEN_INDEX) (h : a.Serves (bump u t)) :
    Yields q (a.decrementInUse t) fun a' => a'.Serves u ∧ a'.SameEntries a :=
  (tokenPositionMut_yields a t).bind fun _ hp =>
    Yields.pure ⟨h.decrement ht hp, setTokenPosition_sameEntries a _⟩

theorem tokenDecrementDustDeactivate_yields {bank : Bank} {nowTs : Nat}
    (hq : q.arithmetic = false) (ht : t ≠ FREE_TOKEN_INDEX) (h : a.Serves (bump u t)) :
    Yields q (a.tokenDecrementDustDeactivate bank t nowTs) fun r =>
      r.2.Serves u ∧ r.2.SameEntries a := by
  unfold tokenDecrementDustDeactivate
  split
  · rename_i hnone
    -- the use is counted, so there is a position
    have hheld := h.held t ht
    rw [held_of_none hnone, bump, if_pos rfl] at hheld
    omega
  · rename_i p hp
    have hserves := h.decrement ht hp
    have hindex : p.tokenIndex = t := tokenPosition_tokenIndex hp
    have hp₁ := tokenPosition_setTokenPosition (r := { p with inUseCount := p.inUseCount - 1 }) hp
      hindex
    refine Yields.bind_of (Bank.faults_dustIfPossible (.avoiding hq) _ _ _) ?_
    rintro ⟨active, b', p'⟩ hdust
    have hchanges := (Bank.dustIfPossible_changes hdust).1
    have hserves' := hserves.changes hp₁ hchanges
    rw [setTokenPosition_setTokenPosition hchanges.posts.tokenIndex] at hserves'
    exact (hserves'.deactivateIfInactive ht (hserves.idle_of_changes ht hp₁ hchanges)).bind
      fun a' ha' => Yields.pure ⟨ha'.1, ha'.2.trans (setTokenPosition_sameEntries a p')⟩

end Yields

end MangoAccount

end MangoV4
