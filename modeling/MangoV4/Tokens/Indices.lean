/-
  MangoV4.Tokens.Indices

  Do all banks of a token have the same indices?

  Interest is written to every bank.  A socialized loss is written bank after
  bank, and the loop ends with the bank on which the last of the loss has been
  credited: banks after it keep their deposit index.  They all agree again
  exactly if the last bank is reached, or if the loss does not move the index.
-/

import MangoV4.Instructions.TokenBanks
import MangoV4.State.BankNative

namespace MangoV4

open Lib Lib.Exec Function List Bank TokenGroup

/-- Deposit and borrow index. -/
def Bank.indices (b : Bank) : I80F48 × I80F48 := (b.depositIndex, b.borrowIndex)

/-- All banks have the same indices. -/
def Agree (banks : List Bank) : Prop := ∀ b ∈ banks, ∀ b' ∈ banks, b.indices = b'.indices

theorem Agree.of_indices {banks banks' : List Bank} (h : Agree banks)
    (heq : banks'.map indices = banks.map indices) : Agree banks' := by
  intro b hb b' hb'
  have hmem : ∀ c ∈ banks', c.indices ∈ banks.map indices := by
    intro c hc
    rw [← heq]
    exact mem_map_of_mem hc
  obtain ⟨c, hc, hc₁⟩ := mem_map.mp (hmem b hb)
  obtain ⟨c', hc', hc₂⟩ := mem_map.mp (hmem b' hb')
  rw [← hc₁, ← hc₂]
  exact h c hc c' hc'

/-- A position is worth the same in each of them. -/
theorem Agree.native_eq {banks : List Bank} (h : Agree banks) {b b' : Bank} (hb : b ∈ banks)
    (hb' : b' ∈ banks) (p : TokenPosition) : p.native b = p.native b' := by
  obtain ⟨hdeposit, hborrow⟩ := Prod.mk.inj (h b hb b' hb')
  unfold TokenPosition.native
  rw [hdeposit, hborrow]

/-! ## Interest -/

theorem Bank.setIndex_indices (b : Bank) (update : IndexUpdate)
    (avgUtilization stablePrice : I80F48) (maintShiftDone : Bool) (nowTs : Nat) :
    (b.setIndex update avgUtilization stablePrice maintShiftDone nowTs).indices =
      (update.depositIndex, update.borrowIndex) := by
  cases maintShiftDone <;> rfl

/-- Every bank gets the same indices. -/
theorem tokenUpdateIndexAndRate_agree {banks banks' : List Bank} {rates : RateUpdate} {nowTs : Nat}
    (h : tokenUpdateIndexAndRate banks rates nowTs = .ok banks') : Agree banks' := by
  obtain ⟨deposits, -, h⟩ := of_bind h
  obtain ⟨borrows, -, h⟩ := of_bind h
  cases banks with
  | nil => cases h
  | cons someBank rest =>
    obtain ⟨_, -, h⟩ := of_bind h
    obtain ⟨diffTs, -, h⟩ := of_bind h
    obtain ⟨update, -, h⟩ := of_bind h
    obtain ⟨fees, -, h⟩ := of_bind h
    obtain ⟨avgUtilization, -, h⟩ := of_bind h
    obtain ⟨_, -, h⟩ := of_bind h
    obtain ⟨_, -, h⟩ := of_bind h
    obtain ⟨age, -, h⟩ := of_bind h
    have hall : ∀ b ∈ banks', b.indices = (update.depositIndex, update.borrowIndex) := by
      split at h
      · obtain rfl := ok_inj h
        intro b hb
        -- the rates are written after the indices
        obtain ⟨b₁, hb₁, rfl⟩ := mem_map.mp hb
        obtain ⟨b₀, -, rfl⟩ := mem_map.mp hb₁
        exact setIndex_indices b₀ _ _ _ _ _
      · obtain rfl := ok_inj h
        intro b hb
        obtain ⟨b₀, -, rfl⟩ := mem_map.mp hb
        exact setIndex_indices b₀ _ _ _ _ _
    intro b hb b' hb'
    rw [hall b hb, hall b' hb']

/-! ## Using the insurance fund -/

namespace TokenGroup

/-- All banks of all tokens have the indices they had. -/
def SameIndices (s s' : TokenGroup) : Prop :=
  ∀ t, (s'.banks t).map Bank.indices = (s.banks t).map Bank.indices

theorem SameIndices.refl (s : TokenGroup) : s.SameIndices s := fun _ => rfl

theorem SameIndices.trans {s s₁ s₂ : TokenGroup} (h : s.SameIndices s₁) (h' : s₁.SameIndices s₂) :
    s.SameIndices s₂ := fun t => (h' t).trans (h t)

theorem mem_storeBank {s : TokenGroup} {t t' : TokenIndex} {i : Nat} {b b' : Bank}
    (h : b' ∈ (s.storeBank t i b).banks t') : b' = b ∨ b' ∈ s.banks t' := by
  replace h : b' ∈ update s.banks t ((s.banks t).set i b) t' := h
  by_cases ht : t' = t
  · subst ht
    rw [update_self] at h
    exact (mem_or_eq_of_mem_set h).symm
  · rw [update_of_ne ht] at h
    exact .inr h

theorem storeBank_of_loaded {s : TokenGroup} {t : TokenIndex} {i : Nat} {b : Bank}
    (hb : (s.banks t)[i]? = some b) (b' : Bank) : ((s.storeBank t i b').banks t)[i]? = some b' := by
  obtain ⟨hlt, -⟩ := List.getElem?_eq_some_iff.mp hb
  show (update s.banks t ((s.banks t).set i b') t)[i]? = some b'
  rw [update_self, List.getElem?_set_self hlt]

theorem storeBank_of_ne {s : TokenGroup} {t t' : TokenIndex} (hne : t' ≠ t) (i : Nat) (b : Bank) :
    (s.storeBank t i b).banks t' = s.banks t' :=
  update_of_ne hne _ s.banks

/-- Writing back a loaded bank that has posted something to a position. -/
theorem SameIndices.storeBank {s : TokenGroup} {t : TokenIndex} {i : Nat} {b b' : Bank}
    {p p' : TokenPosition} (hb : s.loadBank t i = .ok b) (hposts : b.Posts p b' p') :
    s.SameIndices (s.storeBank t i b') := by
  intro t'
  by_cases ht : t' = t
  · subst ht
    have hbank := loadBank_eq_ok.mp hb
    have hindices : b'.indices = b.indices := by
      unfold indices
      rw [hposts.depositIndex, hposts.borrowIndex]
    obtain ⟨hlt, hget⟩ := List.getElem?_eq_some_iff.mp hbank
    show (update s.banks t' _ t').map _ = _
    rw [update_self, List.map_set, hindices, ← hget]
    rw [← getElem_map indices (h := by simpa using hlt), set_getElem_self]
  · show (update s.banks t _ t').map _ = _
    rw [update_of_ne ht]

end TokenGroup

namespace Bankruptcy

variable {x : Bankruptcy} {s s' : TokenGroup} {c : Covered}

theorem payLiqor_sameIndices {insuranceTransfer liabTransfer : I80F48}
    (h : x.payLiqor s insuranceTransfer liabTransfer = .ok s') : s.SameIndices s' := by
  obtain ⟨liqor, -, h⟩ := of_bind h
  obtain ⟨quoteBank, hquote, h⟩ := of_bind h
  obtain ⟨⟨liqorQuote, liqor₁⟩, -, h⟩ := of_bind h
  obtain ⟨⟨quoteActive, quoteBank', liqorQuote'⟩, hdeposit, h⟩ := of_bind h
  obtain ⟨liabBank, hliab, h⟩ := of_bind h
  obtain ⟨⟨liqorLiab, liqor₂⟩, -, h⟩ := of_bind h
  obtain ⟨⟨result, liabBank', liqorLiab'⟩, hwithdraw, h⟩ := of_bind h
  obtain ⟨liqor₃, -, h⟩ := of_bind h
  obtain ⟨liqor₄, -, h⟩ := of_bind h
  obtain rfl := ok_inj h
  have hfirst := SameIndices.storeBank hquote (deposit_changes hdeposit).posts
  have hsecond := SameIndices.storeBank hliab
    (withdrawWithFee_changes hwithdraw).posts
  exact hfirst.trans hsecond

theorem useInsuranceFund_sameIndices {c' : Covered} {liabBank : Bank}
    {initial ratio : I80F48} {transfer : Nat}
    (hliab : c.group.loadBank x.liabTokenIndex x.liabBank = .ok liabBank)
    (h : x.useInsuranceFund c liabBank initial ratio transfer = .ok c') :
    c.group.SameIndices c'.group ∧ c'.liabDepositIndex = c.liabDepositIndex := by
  obtain ⟨_, -, h⟩ := of_bind h
  obtain ⟨liabTransfer, -, h⟩ := of_bind h
  split at h
  · obtain rfl := ok_inj h
    exact ⟨.refl _, rfl⟩
  · obtain ⟨⟨active, liabBank', liqeeLiab'⟩, hdeposit, h⟩ := of_bind h
    obtain ⟨_, -, h⟩ := of_bind h
    obtain ⟨_, -, h⟩ := of_bind h
    obtain ⟨remaining, -, h⟩ := of_bind h
    obtain ⟨s₁, hs₁, h⟩ := of_bind h
    obtain rfl := ok_inj h
    have hstore := SameIndices.storeBank hliab
      (depositWithDusting_changes hdeposit).posts
    refine ⟨hstore.trans ?_, rfl⟩
    split at hs₁
    · obtain ⟨_, -, hs₁⟩ := of_bind hs₁
      obtain rfl := ok_inj hs₁
      exact fun _ => rfl
    · have hpaid := payLiqor_sameIndices hs₁
      exact fun t => hpaid t

/-- No index changes, and the index that will be lowered is that of a bank. -/
theorem coverLoss_sameIndices (h : x.coverLoss s = .ok c) :
    s.SameIndices c.group ∧ ∃ b ∈ s.banks x.liabTokenIndex, b.depositIndex = c.liabDepositIndex := by
  obtain ⟨_, -, h⟩ := of_bind h
  obtain ⟨liqee, -, h⟩ := of_bind h
  obtain ⟨liabBank, hliab, h⟩ := of_bind h
  have hmem : liabBank ∈ s.banks x.liabTokenIndex :=
    mem_of_getElem? (loadBank_eq_ok.mp hliab)
  obtain ⟨liqeeLiab, -, h⟩ := of_bind h
  obtain ⟨initial, -, h⟩ := of_bind h
  obtain ⟨_, -, h⟩ := of_bind h
  obtain ⟨_, -, h⟩ := of_bind h
  obtain ⟨_, -, h⟩ := of_bind h
  obtain ⟨_, -, h⟩ := of_bind h
  obtain ⟨ratio, -, h⟩ := of_bind h
  obtain ⟨_, -, h⟩ := of_bind h
  obtain ⟨_, -, h⟩ := of_bind h
  obtain ⟨_, -, h⟩ := of_bind h
  obtain ⟨hsame, hindex⟩ := useInsuranceFund_sameIndices hliab h
  exact ⟨hsame, liabBank, hmem, hindex.symm⟩

/-! ## Socializing the loss -/

/-- The borrows of all banks but the last, in native tokens. -/
def earlyBorrows (banks : List Bank) : Int :=
  (banks.dropLast.map fun b => max (b.borrowIndex.raw * b.indexedBorrows.raw / 2 ^ 48) 0).sum

theorem earlyBorrows_cons (b b₁ : Bank) (banks : List Bank) :
    earlyBorrows (b :: b₁ :: banks) =
      max (b.borrowIndex.raw * b.indexedBorrows.raw / 2 ^ 48) 0 + earlyBorrows (b₁ :: banks) := rfl

theorem earlyBorrows_nonneg (banks : List Bank) : 0 ≤ earlyBorrows banks :=
  sum_nonneg fun y hy => by
    obtain ⟨b, -, rfl⟩ := mem_map.mp hy
    exact le_max_right _ _

/-- What the loop leaves.  `old` stands for a bank that it has not reached. -/
structure Socialized (newIndex : I80F48) (amount : I80F48) (banks banks' : List Bank) : Prop where
  borrowIndex : banks'.map Bank.borrowIndex = banks.map Bank.borrowIndex
  each : ∀ b ∈ banks', b.depositIndex = newIndex ∨ ∃ old ∈ banks, b.depositIndex = old.depositIndex
  all : earlyBorrows banks < amount.raw → ∀ b ∈ banks', b.depositIndex = newIndex
  split : amount.raw ≤ earlyBorrows banks →
    (∃ b ∈ banks', b.depositIndex = newIndex) ∧
      ∃ old ∈ banks, ∃ b ∈ banks', b.depositIndex = old.depositIndex

/-- The loop goes on to the other banks with what is left to credit. -/
theorem Socialized.cons {newIndex amount rest : I80F48} {b b' : Bank} {banks banks' : List Bank}
    (h : Socialized newIndex rest banks banks') (hrest : 0 < rest.raw)
    (hamount : amount.raw = rest.raw + max (b.borrowIndex.raw * b.indexedBorrows.raw / 2 ^ 48) 0)
    (hindices : b'.indices = (newIndex, b.borrowIndex)) :
    Socialized newIndex amount (b :: banks) (b' :: banks') := by
  obtain ⟨hdeposit, hborrow⟩ := Prod.mk.inj hindices
  cases banks with
  | nil =>
    -- there is no other bank
    have hnil : banks' = [] := by simpa using h.borrowIndex
    subst hnil
    refine ⟨by simp [hborrow], by simp [hdeposit], by simp [hdeposit], fun hle => ?_⟩
    have hzero : earlyBorrows [b] = 0 := rfl
    omega
  | cons b₁ banks =>
    refine ⟨?_, ?_, ?_, ?_⟩
    · rw [map_cons, map_cons, hborrow, h.borrowIndex]
    · rw [forall_mem_cons]
      refine ⟨.inl hdeposit, fun c hc => (h.each c hc).imp id ?_⟩
      rintro ⟨old, hold, heq⟩
      exact ⟨old, mem_cons_of_mem _ hold, heq⟩
    · intro hlt
      rw [earlyBorrows_cons] at hlt
      have hall := h.all (by omega)
      rw [forall_mem_cons]
      exact ⟨hdeposit, hall⟩
    · intro hle
      rw [earlyBorrows_cons] at hle
      obtain ⟨-, old, hold, c, hc, heq⟩ := h.split (by omega)
      exact ⟨⟨b', mem_cons_self .., hdeposit⟩, old, mem_cons_of_mem _ hold, c,
        mem_cons_of_mem _ hc, heq⟩

theorem socializeLoop_socialized {newIndex : I80F48} {nowTs : Nat} :
    ∀ {banks banks' : List Bank} {amount : I80F48} {p p' : TokenPosition} {active active' : Bool},
      0 < amount.raw →
      socializeLoop newIndex nowTs banks amount p active = .ok (banks', p', active') →
      Socialized newIndex amount banks banks' := by
  intro banks
  -- over the banks still to come; the amount shrinks by what each bank takes
  induction banks with
  | nil =>
    intro banks' amount p p' active active' hamount h
    obtain ⟨rfl, -, -⟩ := ok_inj₃ h
    refine ⟨rfl, by simp, by simp, fun hle => ?_⟩
    have hzero : earlyBorrows [] = 0 := rfl
    omega
  | cons b banks ih =>
    intro banks' amount p p' active active' hamount h
    obtain ⟨native, hnative, h⟩ := of_bind h
    have hraw : native.raw = b.borrowIndex.raw * b.indexedBorrows.raw / 2 ^ 48 :=
      Fixed.mul_eq_ok.mp hnative
    have hmin : (amount.min native).raw = min amount.raw native.raw := Fixed.raw_min
    dsimp only at h
    split at h
    · rename_i hpos
      have hpos : 0 < (amount.min native).raw := hpos
      obtain ⟨⟨active₁, b₁, p₁⟩, hdeposit, h⟩ := of_bind h
      have hposts := (depositWithDusting_changes hdeposit).posts
      have hindices : b₁.indices = (newIndex, b.borrowIndex) :=
        Prod.ext hposts.depositIndex hposts.borrowIndex
      obtain ⟨rest, hrest, h⟩ := of_bind h
      rw [Fixed.sub_eq_ok] at hrest
      split at h
      · rename_i hdone
        -- everything has been credited: the other banks are left alone
        have hdone : rest.raw ≤ 0 := hdone
        obtain ⟨rfl, -, -⟩ := ok_inj₃ h
        obtain ⟨hd, hb⟩ := Prod.mk.inj hindices
        refine ⟨by rw [map_cons, map_cons, hb], ?_, fun hlt => ?_, fun hle => ?_⟩
        · rw [forall_mem_cons]
          exact ⟨.inl hd, fun c hc => .inr ⟨c, mem_cons_of_mem _ hc, rfl⟩⟩
        · cases banks with
          | nil => simpa using hd
          | cons b₂ banks =>
            rw [earlyBorrows_cons] at hlt
            have hnonneg := earlyBorrows_nonneg (b₂ :: banks)
            omega
        · cases banks with
          | nil =>
            have hzero : earlyBorrows [b] = 0 := rfl
            omega
          | cons b₂ banks =>
            have hmem : b₂ ∈ b₂ :: banks := mem_cons_self ..
            exact ⟨⟨b₁, mem_cons_self .., hd⟩, b₂, mem_cons_of_mem _ hmem, b₂,
              mem_cons_of_mem _ hmem, rfl⟩
      · rename_i hdone
        have hdone : 0 < rest.raw := not_le.mp hdone
        obtain ⟨⟨banks₁, p₂, active₂⟩, hloop, h⟩ := of_bind h
        obtain ⟨rfl, -, -⟩ := ok_inj₃ h
        exact (ih hdone hloop).cons hdone (by omega) hindices
    · rename_i hpos
      have hpos : ¬ 0 < (amount.min native).raw := hpos
      obtain ⟨⟨banks₁, p₂, active₂⟩, hloop, h⟩ := of_bind h
      obtain ⟨rfl, -, -⟩ := ok_inj₃ h
      exact (ih hamount hloop).cons hamount (by omega) rfl

theorem Socialized.agree_iff {newIndex amount oldIndex : I80F48} {banks banks' : List Bank}
    (h : Socialized newIndex amount banks banks') (hbanks : Agree banks) {b₀ : Bank}
    (hb₀ : b₀ ∈ banks) (hold : b₀.depositIndex = oldIndex) :
    Agree banks' ↔ earlyBorrows banks < amount.raw ∨ newIndex = oldIndex := by
  -- all banks had the old index and the same borrow index
  have hdeposit : ∀ b ∈ banks, b.depositIndex = oldIndex := by
    intro b hb
    rw [← hold]
    exact (Prod.mk.inj (hbanks b hb b₀ hb₀)).1
  have hborrow : ∀ b ∈ banks', b.borrowIndex = b₀.borrowIndex := by
    intro b hb
    have hmem : b.borrowIndex ∈ banks.map Bank.borrowIndex := by
      rw [← h.borrowIndex]
      exact mem_map_of_mem hb
    obtain ⟨b₁, hb₁, heq⟩ := mem_map.mp hmem
    rw [← heq]
    exact (Prod.mk.inj (hbanks b₁ hb₁ b₀ hb₀)).2
  constructor
  · intro hagree
    by_contra hnot
    obtain ⟨hle, hne⟩ := not_or.mp hnot
    obtain ⟨⟨b, hb, hnew⟩, old, hold', b', hb', heq⟩ := h.split (not_lt.mp hle)
    refine hne ?_
    rw [← hnew, (Prod.mk.inj (hagree b hb b' hb')).1, heq, hdeposit old hold']
  · intro hor
    have hsame : ∀ b ∈ banks', b.depositIndex = newIndex := by
      rcases hor with hlt | rfl
      · exact h.all hlt
      · intro b hb
        rcases h.each b hb with hnew | ⟨old, hold', heq⟩
        · exact hnew
        · rw [heq, hdeposit old hold']
    intro b hb b' hb'
    exact Prod.ext ((hsame b hb).trans (hsame b' hb').symm)
      ((hborrow b hb).trans (hborrow b' hb').symm)

/-- If a loss is socialized, the borrows of all banks but the last do not cover
    it, so that the last bank is reached; or the loss is too small to move the
    index. -/
def ReachesAllBanks (x : Bankruptcy) (s : TokenGroup) : Prop :=
  ∀ c newIndex, x.coverLoss s = .ok c → c.insuranceFundExhausted = true →
    .zero < c.remainingLiabLoss → x.newDepositIndex c = .ok newIndex →
    earlyBorrows (c.group.banks x.liabTokenIndex) < c.remainingLiabLoss.raw ∨
      newIndex = c.liabDepositIndex

/-- Banks that agree still agree after a bankruptcy exactly if the loss reaches
    all of them. -/
theorem tokenLiqBankruptcy_agree_iff (hs : ∀ t, Agree (s.banks t))
    (h : x.tokenLiqBankruptcy s = .ok s') :
    (∀ t, Agree (s'.banks t)) ↔ x.ReachesAllBanks s := by
  obtain ⟨c, hcover, h⟩ := of_bind h
  obtain ⟨⟨s₁, liqeeLiab, active⟩, hsocialize, h⟩ := of_bind h
  obtain ⟨liqee, -, h⟩ := of_bind h
  obtain ⟨liqee', -, h⟩ := of_bind h
  obtain rfl := ok_inj h
  show (∀ t, Agree (s₁.banks t)) ↔ _
  obtain ⟨hsame, b, hb, hindex⟩ := coverLoss_sameIndices hcover
  have hgroup : ∀ t, Agree (c.group.banks t) := fun t => (hs t).of_indices (hsame t)
  unfold socializeLoss at hsocialize
  split at hsocialize
  · rename_i hloss
    obtain ⟨newIndex, hnew, hsocialize⟩ := of_bind hsocialize
    obtain ⟨⟨banks, p, active'⟩, hloop, hsocialize⟩ := of_bind hsocialize
    obtain ⟨_, -, hsocialize⟩ := of_bind hsocialize
    obtain ⟨rfl, -, -⟩ := ok_inj₃ hsocialize
    -- the bank the old index comes from is still there
    obtain ⟨b', hb', heq⟩ := mem_map.mp
      (hsame x.liabTokenIndex ▸ mem_map_of_mem (f := indices) hb)
    have hiff := (socializeLoop_socialized hloss.2 hloop).agree_iff (hgroup x.liabTokenIndex) hb'
      ((Prod.mk.inj heq).1.trans hindex)
    constructor
    · intro hagree c' newIndex' hcover' _ _ hnew'
      obtain rfl : c = c' := ok_unique hcover hcover'
      obtain rfl : newIndex = newIndex' := ok_unique hnew hnew'
      refine hiff.mp ?_
      have hall : Agree (update c.group.banks x.liabTokenIndex banks x.liabTokenIndex) :=
        hagree x.liabTokenIndex
      rwa [update_self] at hall
    · intro hreach t
      show Agree (update c.group.banks x.liabTokenIndex banks t)
      by_cases ht : t = x.liabTokenIndex
      · subst ht
        rw [update_self]
        exact hiff.mpr (hreach c newIndex hcover hloss.1 hloss.2 hnew)
      · rw [update_of_ne ht]
        exact hgroup t
  · rename_i hloss
    obtain ⟨rfl, -, -⟩ := ok_inj₃ hsocialize
    refine ⟨fun _ c' newIndex' hcover' hexhausted hpos _ => ?_, fun _ => hgroup⟩
    obtain rfl : c = c' := ok_unique hcover hcover'
    exact absurd ⟨hexhausted, hpos⟩ hloss

end Bankruptcy

/-! ## Runs -/

namespace TokenGroup

/-- A bankruptcy has to reach all banks. -/
def Reaches : Op → TokenGroup → Prop
  | .tokenUpdateIndexAndRate .., _ => True
  | .tokenLiqBankruptcy x, s => x.ReachesAllBanks s

theorem exec_agree {op : Op} {s s' : TokenGroup} (hs : ∀ t, Agree (s.banks t))
    (hop : Reaches op s) (h : exec op s = .ok ((), s')) : ∀ t, Agree (s'.banks t) := by
  cases op with
  | tokenUpdateIndexAndRate tokenIndex rates nowTs =>
    obtain ⟨banks, hbanks, h⟩ := of_bind h
    obtain ⟨-, rfl⟩ := ok_inj₂ h
    intro t
    show Agree (update s.banks tokenIndex banks t)
    by_cases ht : t = tokenIndex
    · subst ht
      rw [update_self]
      exact tokenUpdateIndexAndRate_agree hbanks
    · rw [update_of_ne ht]
      exact hs t
  | tokenLiqBankruptcy x =>
    obtain ⟨s₁, hs₁, h⟩ := of_bind h
    obtain ⟨-, rfl⟩ := ok_inj₂ h
    exact (Bankruptcy.tokenLiqBankruptcy_agree_iff hs hs₁).mpr hop

/-- A bank of token 1 with deposits of 1000 and the given borrows. -/
def plainBank (borrows : Fin (2 ^ 32)) : Bank :=
  { Bank.plain 1 with
    indexedDeposits := .ofSmall 1000
    indexedBorrows := .ofSmall borrows }

/-- Two banks of token 1, and account 2 that owes 100 tokens and nothing else. -/
def bankruptAccount (firstBorrows secondBorrows : Fin (2 ^ 32)) : TokenGroup where
  banks := Function.update (fun _ => []) 1 [plainBank firstBorrows, plainBank secondBorrows]
  accounts := Function.update
    (Function.update (fun _ => none) 1 (some (MangoAccount.plain 0))) 2
    (some { MangoAccount.plain 0 with
      tokens := [{ indexedPosition := ⟨-100 * 2 ^ 48, by decide⟩, tokenIndex := 1, inUseCount := 0 }] })
  insuranceVault := 0

/-- The bankruptcy of account 2; there is nothing in the insurance fund. -/
def plainBankruptcy : Bankruptcy where
  liqor := 1
  liqee := 2
  liabTokenIndex := 1
  liabBank := 0
  quoteBank := 0
  maxLiabTransfer := .ofSmall 100
  liabHealthBalance := ⟨-100 * 2 ^ 48, by decide⟩
  liabOraclePrice := .ofSmall 1
  quoteOraclePrice := .ofSmall 1
  elligibleForGroupInsuranceFund := true
  nowTs := 5

theorem bankruptAccount_agree (firstBorrows secondBorrows : Fin (2 ^ 32)) (t : TokenIndex) :
    Agree ((bankruptAccount firstBorrows secondBorrows).banks t) := by
  show Agree (update (fun _ => []) 1 [plainBank firstBorrows, plainBank secondBorrows] t)
  by_cases ht : t = 1
  · subst ht
    intro b hb b' hb'
    have hone : ∀ c ∈ [plainBank firstBorrows, plainBank secondBorrows],
        c.indices = (I80F48.ONE, I80F48.ONE) := by simp [plainBank, indices, plain]
    rw [hone b hb, hone b' hb']
  · rw [update_of_ne ht]
    intro b hb
    cases hb

end TokenGroup

end MangoV4
