/-
  MangoV4.Spot.Entries

  What the spot instructions do to the entry of a market in an account and to
  the banks of its two tokens.

  Every function changes one entry in place (`Rewrites`).  A bank is changed by
  a deposit or a withdrawal, which leaves its potential tokens alone, or by the
  tracking, which changes nothing else: the potential tokens of the bank follow
  those of the entry (`Tracks`).
-/

import MangoV4.Instructions.Serum3
import MangoV4.Lib.FixedRat
import MangoV4.Lib.Tally
import MangoV4.State.BankNative

namespace MangoV4

open Lib Lib.Exec Fixed MangoAccount Serum3Orders

theorem unwrapResult_eq_ok {α : Type} {x : Exec α} {r : α} :
    unwrapResult x = .ok r ↔ x = .ok r := by
  cases x with
  | ok a => rfl
  | error f =>
    cases f with
    | error e => simp [unwrapResult, Exec.panic]
    | panic q => simp [unwrapResult]
    | diverge => simp [unwrapResult]

/-! ## One entry changes -/

namespace MangoAccount

variable {a a₁ a' : MangoAccount} {m : Serum3MarketIndex} {o o₁ o' : Serum3Orders}

theorem serum3Orders_eq_ok :
    a.serum3Orders m = .ok o ↔ a.serum3.find? (isActiveForMarket m) = some o := by
  unfold serum3Orders
  cases a.serum3.find? (isActiveForMarket m) with
  | none => simp [fail]
  | some o' => simp

theorem marketIndex_of_find
    (h : a.serum3.find? (isActiveForMarket m) = some o) : o.marketIndex = m :=
  of_decide_eq_true (List.find?_some (p := isActiveForMarket m) h)

/-- The entry of market `m` changes from `o` to `o'`, and no other entry does. -/
structure Rewrites (a a' : MangoAccount) (m : Serum3MarketIndex) (o o' : Serum3Orders) : Prop where
  found : a.serum3.find? (Serum3Orders.isActiveForMarket m) = some o
  market : o'.marketIndex = m
  opened : o'.openOrders = o.openOrders
  tokens : ∀ side, o'.tokenIndex side = o.tokenIndex side
  entries : a'.serum3 = replaceFirst (Serum3Orders.isActiveForMarket m) o' a.serum3

namespace Rewrites

theorem of_same (hfound : a.serum3.find? (isActiveForMarket m) = some o)
    (hsame : a'.serum3 = a.serum3) : Rewrites a a' m o o where
  found := hfound
  market := marketIndex_of_find hfound
  opened := rfl
  tokens := fun _ => rfl
  entries := by rw [hsame, replaceFirst_self hfound]

theorem found_after (h : Rewrites a a' m o o') :
    a'.serum3.find? (isActiveForMarket m) = some o' := by
  rw [h.entries]
  exact find?_replaceFirst_self h.found (decide_eq_true h.market)

theorem trans (h : Rewrites a a₁ m o o₁) (h' : Rewrites a₁ a' m o₁ o') : Rewrites a a' m o o' where
  found := h.found
  market := h'.market
  opened := h'.opened.trans h.opened
  tokens := fun side => (h'.tokens side).trans (h.tokens side)
  entries := by
    rw [h'.entries, h.entries, replaceFirst_replaceFirst]
    exact decide_eq_true h.market

/-- Composition along whatever entry the second change found. -/
theorem trans' {o₂ : Serum3Orders} (h : Rewrites a a₁ m o o₁) (h' : Rewrites a₁ a' m o₂ o') :
    o₂ = o₁ ∧ Rewrites a a' m o o' := by
  obtain rfl : o₂ = o₁ := Option.some.inj (h'.found.symm.trans h.found_after)
  exact ⟨rfl, h.trans h'⟩

/-- Only the entries matter. -/
theorem congr {b b' : MangoAccount} (h : Rewrites a a' m o o') (hb : b.serum3 = a.serum3)
    (hb' : b'.serum3 = a'.serum3) : Rewrites b b' m o o' where
  found := hb ▸ h.found
  market := h.market
  opened := h.opened
  tokens := h.tokens
  entries := by rw [hb', h.entries, hb]

end Rewrites

theorem setSerum3Orders_rewrites
    (hfound : a.serum3.find? (isActiveForMarket m) = some o)
    (hmarket : o'.marketIndex = o.marketIndex) (hopened : o'.openOrders = o.openOrders)
    (htokens : ∀ side, o'.tokenIndex side = o.tokenIndex side) :
    Rewrites a (a.setSerum3Orders o') m o o' where
  found := hfound
  market := hmarket.trans (marketIndex_of_find hfound)
  opened := hopened
  tokens := htokens
  entries := by
    unfold setSerum3Orders
    rw [hmarket, marketIndex_of_find hfound]

theorem setBorrowsWithoutFee_rewrites
    (hfound : a.serum3.find? (isActiveForMarket m) = some o) (n : Nat)
    (side : TokenSide) :
    Rewrites a (a.setSerum3Orders (o.setBorrowsWithoutFee n side)) m o
      (o.setBorrowsWithoutFee n side) :=
  setSerum3Orders_rewrites hfound (by simp) (by simp) (by simp)

theorem expireBuybackFees_serum3 {nowTs interval : Nat}
    (h : a.expireBuybackFees nowTs interval = .ok a') : a'.serum3 = a.serum3 := by
  unfold expireBuybackFees at h
  split at h
  · obtain rfl := ok_inj h
    rfl
  · obtain ⟨_, -, h⟩ := of_bind h
    obtain ⟨_, -, h⟩ := of_bind h
    obtain rfl := ok_inj h
    rfl

end MangoAccount

open MangoAccount (Rewrites)

/-! ## Potential tokens -/

section Potential

variable {o o' : Serum3Orders} {b b' baseBank baseBank' quoteBank quoteBank' : Bank}
  {oo : OpenOrdersSlim} {products : Products} {side : TokenSide} {n : Nat}

/-- The potential tokens of the bank follow those of the entry on one side. -/
structure Tracks (o o' : Serum3Orders) (side : TokenSide) (b b' : Bank) : Prop where
  token : o.tokenIndex side = b.tokenIndex
  bank : b' = { b with
    potentialSerumTokens :=
      follow b.potentialSerumTokens (o.potentialTokens side) (o'.potentialTokens side) }

theorem Tracks.indexed (h : Tracks o o' side b b') (hb : b.Indexed) : b'.Indexed := by
  rw [h.bank]
  exact hb

/-- Only potential tokens change in the entry. -/
structure SameBorrows (o o' : Serum3Orders) : Prop where
  market : o'.marketIndex = o.marketIndex
  opened : o'.openOrders = o.openOrders
  tokens : ∀ side, o'.tokenIndex side = o.tokenIndex side
  borrows : ∀ side, o'.borrowsWithoutFee side = o.borrowsWithoutFee side

theorem updatePotentialSerumTokens_eq_ok {old new : Nat}
    (h : b.updatePotentialSerumTokens old new = .ok b') :
    b' = { b with potentialSerumTokens := follow b.potentialSerumTokens old new } := by
  unfold Bank.updatePotentialSerumTokens at h
  unfold follow
  split at h
  · rename_i hle
    obtain ⟨-, h⟩ := of_checkU64 h
    rw [if_pos hle]
    exact (ok_inj h).symm
  · rename_i hle
    rw [if_neg hle]
    exact (ok_inj h).symm

/-- An empty account has no potential tokens, at any price. -/
theorem newPotentialTokens_of_isEmpty (hempty : oo.isEmpty = true)
    (h : newPotentialTokens oo products side = .ok n) : n = 0 := by
  obtain ⟨reserved, hreserved, h⟩ := of_bind h
  obtain ⟨-, rfl⟩ := checkU64_eq_ok.mp h
  obtain ⟨-, rfl⟩ := subUnsigned_eq_ok.mp hreserved
  rw [OpenOrdersSlim.total_of_isEmpty hempty, OpenOrdersSlim.total_of_isEmpty hempty, Nat.zero_sub]
  rfl

theorem updateBankPotentialTokensPayerOnly_eq_ok
    (h : updateBankPotentialTokensPayerOnly o b oo products = .ok (o', b')) :
    ∃ side, Tracks o o' side b b' ∧ SameBorrows o o' ∧
      newPotentialTokens oo products side = .ok (o'.potentialTokens side) ∧
      o'.potentialTokens side.other = o.potentialTokens side.other := by
  unfold updateBankPotentialTokensPayerOnly at h
  split at h
  · rename_i hbase
    obtain ⟨newBase, hnew, h⟩ := of_bind h
    obtain ⟨b₁, hb₁, h⟩ := of_bind h
    obtain ⟨rfl, rfl⟩ := ok_inj₂ h
    exact ⟨.base, ⟨hbase, updatePotentialSerumTokens_eq_ok hb₁⟩,
      ⟨by simp, by simp, by simp, by simp⟩, hnew, rfl⟩
  · obtain ⟨_, hquote, h⟩ := of_bind h
    obtain ⟨newQuote, hnew, h⟩ := of_bind h
    obtain ⟨b₁, hb₁, h⟩ := of_bind h
    obtain ⟨rfl, rfl⟩ := ok_inj₂ h
    exact ⟨.quote, ⟨of_assert hquote, updatePotentialSerumTokens_eq_ok hb₁⟩,
      ⟨by simp, by simp, by simp, by simp⟩, hnew, rfl⟩

theorem updateBankPotentialTokens_eq_ok
    (h : updateBankPotentialTokens o baseBank quoteBank oo products =
      .ok (o', baseBank', quoteBank')) :
    Tracks o o' .base baseBank baseBank' ∧ Tracks o o' .quote quoteBank quoteBank' ∧
      SameBorrows o o' ∧
      ∀ side, newPotentialTokens oo products side = .ok (o'.potentialTokens side) := by
  obtain ⟨_, hbase, h⟩ := of_bind h
  obtain ⟨_, hquote, h⟩ := of_bind h
  obtain ⟨newBase, hnewBase, h⟩ := of_bind h
  obtain ⟨newQuote, hnewQuote, h⟩ := of_bind h
  obtain ⟨b₁, hb₁, h⟩ := of_bind h
  obtain ⟨b₂, hb₂, h⟩ := of_bind h
  obtain ⟨rfl, rfl, rfl⟩ := ok_inj₃ h
  refine ⟨⟨of_assert hbase, updatePotentialSerumTokens_eq_ok hb₁⟩,
    ⟨of_assert hquote, updatePotentialSerumTokens_eq_ok hb₂⟩,
    ⟨by simp, by simp, by simp, by simp⟩, fun side => ?_⟩
  cases side with
  | base => exact hnewBase
  | quote => exact hnewQuote

end Potential

/-! ## Vault differences and fees -/

section Borrows

variable {a a' : MangoAccount} {m : Serum3MarketIndex} {b b' : Bank} {after before nowTs : Nat}

/-- A vault difference posts the difference to the token position, and counts
    as borrowed at most what the position lost. -/
theorem applyVaultDifference_eq_ok
    (h : applyVaultDifference a m b after before nowTs = .ok (b', a')) :
    ∃ (needed native native' : I80F48) (p p' : TokenPosition) (active : Bool) (o : Serum3Orders)
      (side : TokenSide) (newBorrows n : Nat),
      needed.raw = ((after : Int) - before) * 2 ^ 48 ∧
      p.native b = .ok native ∧ b.changeWithoutFee p needed nowTs = .ok (active, b', p') ∧
      p'.native b' = .ok native' ∧
      (∀ k : Nat, native.raw ≤ native'.raw + k * 2 ^ 48 ∨ 0 ≤ native'.raw → newBorrows ≤ k) ∧
      countBorrows (o.borrowsWithoutFee side) newBorrows needed = .ok n ∧
      o.tokenIndex side = b'.tokenIndex ∧
      Rewrites a a' m o (o.setBorrowsWithoutFee n side) := by
  obtain ⟨after', hafter, h⟩ := of_bind h
  obtain ⟨before', hbefore, h⟩ := of_bind h
  obtain ⟨needed, hneeded, h⟩ := of_bind h
  obtain ⟨p, -, h⟩ := of_bind h
  obtain ⟨native, hnative, h⟩ := of_bind h
  obtain ⟨⟨active, b₁, p'⟩, hchange, h⟩ := of_bind h
  obtain ⟨native', hnative', h⟩ := of_bind h
  obtain ⟨change, hdiff, h⟩ := of_bind h
  obtain ⟨loss, hloss, h⟩ := of_bind h
  obtain ⟨newBorrows, hnew, h⟩ := of_bind h
  obtain ⟨o, ho, h⟩ := of_bind h
  obtain ⟨side, hside, h⟩ := of_bind h
  obtain ⟨n, hn, h⟩ := of_bind h
  obtain ⟨rfl, rfl⟩ := ok_inj₂ h
  have hfound := serum3Orders_eq_ok.mp (unwrapResult_eq_ok.mp ho)
  have htoken : o.tokenIndex side = b₁.tokenIndex := by
    split at hside
    · rename_i hbase
      obtain rfl := ok_inj hside
      exact hbase.symm
    · split at hside
      · rename_i hquote
        obtain rfl := ok_inj hside
        exact hquote.symm
      · cases hside
  refine ⟨needed, native, native', p, p', active, o, side, newBorrows, n, ?_, hnative, hchange,
    hnative', ?_, hn, htoken, ?_⟩
  · rw [sub_eq_ok.mp hneeded, isWhole_ofInt hafter, isWhole_ofInt hbefore]
    ring
  · -- the loss is rounded down to whole tokens
    intro k hk
    have hlossRaw : loss.raw = ((change.max native').min .zero).raw.natAbs := ofRaw_eq_ok.mp hloss
    rw [raw_min, raw_max, raw_zero, sub_eq_ok.mp hdiff] at hlossRaw
    have hfloor : newBorrows = (loss.raw / 2 ^ 48).toNat := by
      unfold toU64 toInt at hnew
      split at hnew
      · exact (checkU64_eq_ok.mp hnew).2
      · cases hnew
    omega
  · exact (setBorrowsWithoutFee_rewrites hfound n side).congr rfl rfl

/-- Vault differences and fees leave potential tokens alone. -/
theorem applyVaultDifference_rewrites
    (h : applyVaultDifference a m b after before nowTs = .ok (b', a')) :
    b.SameTerms b' ∧ ∃ o o', Rewrites a a' m o o' ∧
      ∀ side, o'.potentialTokens side = o.potentialTokens side := by
  obtain ⟨needed, native, native', p, p', active, o, side, newBorrows, n, -, -, hchange, -, -, -, -,
    hrewrites⟩ := applyVaultDifference_eq_ok h
  exact ⟨(Bank.changeWithoutFee_changes hchange).2, o, _, hrewrites, fun side' => by simp⟩

theorem chargeLoanOriginationFee_rewrites {oo : OpenOrdersSlim} {side : TokenSide}
    (h : chargeLoanOriginationFee a m b oo side nowTs = .ok (b', a')) :
    b.SameTerms b' ∧ ∃ o o', Rewrites a a' m o o' ∧
      ∀ side, o'.potentialTokens side = o.potentialTokens side := by
  obtain ⟨o, ho, h⟩ := of_bind h
  have hfound := serum3Orders_eq_ok.mp (unwrapResult_eq_ok.mp ho)
  dsimp only at h
  split at h
  · obtain ⟨p, -, h⟩ := of_bind h
    obtain ⟨loan, -, h⟩ := of_bind h
    obtain ⟨⟨result, b₁, p'⟩, hfee, h⟩ := of_bind h
    obtain ⟨rfl, rfl⟩ := ok_inj₂ h
    exact ⟨(Bank.withdrawLoanOriginationFee_changes hfee).2, o, _,
      (setBorrowsWithoutFee_rewrites hfound (oo.total side) side).congr rfl rfl,
      fun side' => by simp⟩
  · obtain ⟨rfl, rfl⟩ := ok_inj₂ h
    exact ⟨.refl b, o, o, .of_same hfound rfl, fun _ => rfl⟩

end Borrows

/-! ## Placing and settling -/

section Instructions

variable {a a' : MangoAccount} {m : Serum3MarketIndex} {b b' c c' : Bank}

/-- The potential tokens of one or of two banks follow those of an entry, which
    are computed from the amounts `oo`. -/
inductive Follows (oo : OpenOrdersSlim) (products : Products) (o o' : Serum3Orders)
    (b b' c c' : Bank) : Prop where
  | one (side : TokenSide) (htoken : o.tokenIndex side = b.tokenIndex)
      (hb : b'.potentialSerumTokens =
        follow b.potentialSerumTokens (o.potentialTokens side) (o'.potentialTokens side))
      (hc : c'.potentialSerumTokens = c.potentialSerumTokens)
      (hnew : newPotentialTokens oo products side = .ok (o'.potentialTokens side))
      (hother : o'.potentialTokens side.other = o.potentialTokens side.other)
  | both (side : TokenSide) (htoken : o.tokenIndex side = b.tokenIndex)
      (htoken' : o.tokenIndex side.other = c.tokenIndex)
      (hb : b'.potentialSerumTokens =
        follow b.potentialSerumTokens (o.potentialTokens side) (o'.potentialTokens side))
      (hc : c'.potentialSerumTokens =
        follow c.potentialSerumTokens (o.potentialTokens side.other) (o'.potentialTokens side.other))
      (hnew : ∀ side, newPotentialTokens oo products side = .ok (o'.potentialTokens side))

/-- Entries and banks that differ from those only in other fields. -/
theorem Follows.congr {oo : OpenOrdersSlim} {products : Products} {o o₁ o' o₁' : Serum3Orders}
    {b₁ b₁' c₁ c₁' : Bank} (h : Follows oo products o o' b b' c c')
    (ho : ∀ side, o₁.potentialTokens side = o.potentialTokens side)
    (ho' : ∀ side, o₁'.potentialTokens side = o'.potentialTokens side)
    (htokens : ∀ side, o₁.tokenIndex side = o.tokenIndex side)
    (hb : b.SameTerms b₁ ∨ b₁.SameTerms b) (hb' : b'.SameTerms b₁')
    (hc : c.SameTerms c₁ ∨ c₁.SameTerms c) (hc' : c'.SameTerms c₁') :
    Follows oo products o₁ o₁' b₁ b₁' c₁ c₁' := by
  have hbank : ∀ {d d₁ : Bank}, d.SameTerms d₁ ∨ d₁.SameTerms d →
      d₁.tokenIndex = d.tokenIndex ∧ d₁.potentialSerumTokens = d.potentialSerumTokens := by
    rintro d d₁ (h | h)
    · exact ⟨h.tokenIndex, h.potentialSerumTokens⟩
    · exact ⟨h.tokenIndex.symm, h.potentialSerumTokens.symm⟩
  obtain ⟨hbToken, hbPotential⟩ := hbank hb
  obtain ⟨hcToken, hcPotential⟩ := hbank hc
  cases h with
  | one side htoken hfollow hsame hnew hother =>
    refine .one side ?_ ?_ ?_ ?_ ?_
    · rw [htokens, htoken, hbToken]
    · rw [hb'.potentialSerumTokens, hfollow, hbPotential, ho, ho']
    · rw [hc'.potentialSerumTokens, hsame, hcPotential]
    · rw [hnew, ho']
    · rw [ho, ho', hother]
  | both side htoken htoken' hfollow hfollow' hnew =>
    refine .both side ?_ ?_ ?_ ?_ fun side' => ?_
    · rw [htokens, htoken, hbToken]
    · rw [htokens, htoken', hcToken]
    · rw [hb'.potentialSerumTokens, hfollow, hbPotential, ho, ho']
    · rw [hc'.potentialSerumTokens, hfollow', hcPotential, ho, ho']
    · rw [hnew, ho']

theorem PlaceOrder.updatePotentialTokens_follows {x : PlaceOrder} {o o' : Serum3Orders}
    (h : x.updatePotentialTokens o b c = .ok (o', b', c')) :
    Follows x.afterOo x.products o o' b b' c c' ∧ SameBorrows o o' ∧
      b'.tokenIndex = b.tokenIndex ∧ (b.Indexed → b'.Indexed) ∧ (c.Indexed → c'.Indexed) := by
  unfold updatePotentialTokens at h
  split at h
  · split at h
    · obtain ⟨⟨o₁, c₁, b₁⟩, hupdate, h⟩ := of_bind h
      obtain ⟨rfl, rfl, rfl⟩ := ok_inj₃ h
      obtain ⟨hbase, hquote, hsame, hnew⟩ := updateBankPotentialTokens_eq_ok hupdate
      exact ⟨.both .quote hquote.token hbase.token (by rw [hquote.bank]) (by rw [hbase.bank]; rfl)
        hnew, hsame, by rw [hquote.bank], hquote.indexed, hbase.indexed⟩
    · obtain ⟨hbase, hquote, hsame, hnew⟩ := updateBankPotentialTokens_eq_ok h
      exact ⟨.both .base hbase.token hquote.token (by rw [hbase.bank]) (by rw [hquote.bank]; rfl)
        hnew, hsame, by rw [hbase.bank], hbase.indexed, hquote.indexed⟩
  · obtain ⟨⟨o₁, b₁⟩, hupdate, h⟩ := of_bind h
    obtain ⟨rfl, rfl, rfl⟩ := ok_inj₃ h
    obtain ⟨side, htracks, hsame, hnew, hother⟩ := updateBankPotentialTokensPayerOnly_eq_ok hupdate
    exact ⟨.one side htracks.token (by rw [htracks.bank]) rfl hnew hother, hsame,
      by rw [htracks.bank], htracks.indexed, id⟩

/-- Placing an order: first the tracking, then the vault difference. -/
theorem PlaceOrder.track_eq_ok {x : PlaceOrder} (h : x.track a m b c = .ok (b', c', a')) :
    ∃ o o₁ b₁, a.serum3.find? (isActiveForMarket m) = some o ∧
      x.afterVault ≤ x.beforeVault ∧ x.updatePotentialTokens o b c = .ok (o₁, b₁, c') ∧
      applyVaultDifference (a.setSerum3Orders o₁) m b₁ x.afterVault x.beforeVault x.nowTs =
        .ok (b', a') := by
  obtain ⟨o, ho, h⟩ := of_bind h
  obtain ⟨_, hvault, h⟩ := of_bind h
  obtain ⟨⟨o₁, b₁, c₁⟩, hupdate, h⟩ := of_bind h
  obtain ⟨_, -, h⟩ := of_bind h
  obtain ⟨_, -, h⟩ := of_bind h
  obtain ⟨⟨b₂, a₁⟩, hdifference, h⟩ := of_bind h
  obtain ⟨_, -, h⟩ := of_bind h
  obtain ⟨_, -, h⟩ := of_bind h
  obtain ⟨_, -, h⟩ := of_bind h
  obtain ⟨rfl, rfl, rfl⟩ := ok_inj₃ h
  exact ⟨o, o₁, b₁, serum3Orders_eq_ok.mp ho, of_require hvault, hupdate, hdifference⟩

theorem PlaceOrder.track_follows {x : PlaceOrder} (h : x.track a m b c = .ok (b', c', a')) :
    ∃ o o', Rewrites a a' m o o' ∧ Follows x.afterOo x.products o o' b b' c c' := by
  obtain ⟨o, o₁, b₁, hfound, -, hupdate, hdifference⟩ := track_eq_ok h
  obtain ⟨hfollows, hsame, -⟩ := updatePotentialTokens_follows hupdate
  obtain ⟨hterms, o₂, o', hrewrites', hpotential⟩ := applyVaultDifference_rewrites hdifference
  have hrewrites := setSerum3Orders_rewrites hfound hsame.market hsame.opened hsame.tokens
  obtain ⟨rfl, hboth⟩ := hrewrites.trans' hrewrites'
  exact ⟨o, o', hboth, hfollows.congr (fun _ => rfl) hpotential (fun _ => rfl)
    (Or.inl (.refl b)) hterms (Or.inl (.refl c)) (.refl c')⟩

variable {feesToDao : Bool} {quoteOracle : Option I80F48}

theorem SettleFunds.collectFees_eq_ok {x : SettleFunds} {fees : Nat} (h : x.collectFees a b fees feesToDao quoteOracle = .ok (b', a')) :
    b.SameTerms b' ∧ a'.serum3 = a.serum3 := by
  unfold collectFees at h
  split at h
  · obtain ⟨_, -, h⟩ := of_bind h
    obtain ⟨collected, -, h⟩ := of_bind h
    split at h
    · obtain ⟨a₁, haccrue, h⟩ := of_bind h
      obtain ⟨rfl, rfl⟩ := ok_inj₂ h
      obtain ⟨a₂, hexpire, haccrue⟩ := of_bind haccrue
      obtain ⟨_, -, haccrue⟩ := of_bind haccrue
      obtain ⟨_, -, haccrue⟩ := of_bind haccrue
      obtain rfl := ok_inj haccrue
      have hentries := expireBuybackFees_serum3 hexpire
      exact ⟨⟨rfl, rfl, rfl, rfl, rfl⟩, hentries⟩
    · obtain ⟨rfl, rfl⟩ := ok_inj₂ h
      exact ⟨⟨rfl, rfl, rfl, rfl, rfl⟩, rfl⟩
  · obtain ⟨rfl, rfl⟩ := ok_inj₂ h
    exact ⟨.refl b, rfl⟩

/-- Settling: first the vault differences of both tokens, then the tracking. -/
theorem SettleFunds.applySettleChanges_eq_ok {x : SettleFunds} {oo : OpenOrdersSlim}
    (h : x.applySettleChanges a m b c oo feesToDao quoteOracle = .ok (b', c', a')) :
    ∃ c₁ a₁ b₂ a₂ c₃ a₃ o o', c.SameTerms c₁ ∧ a₁.serum3 = a.serum3 ∧
      x.receivedFees oo feesToDao ≤ x.afterQuoteVault ∧ x.beforeBaseVault ≤ x.afterBaseVault ∧
      x.beforeQuoteVault ≤ x.afterQuoteVault - x.receivedFees oo feesToDao ∧
      applyVaultDifference a₁ m b x.afterBaseVault x.beforeBaseVault x.nowTs = .ok (b₂, a₂) ∧
      applyVaultDifference a₂ m c₁ (x.afterQuoteVault - x.receivedFees oo feesToDao)
        x.beforeQuoteVault x.nowTs = .ok (c₃, a₃) ∧
      a₃.serum3.find? (isActiveForMarket m) = some o ∧
      updateBankPotentialTokens o b₂ c₃ x.afterOo x.products = .ok (o', b', c') ∧
      a' = a₃.setSerum3Orders o' := by
  obtain ⟨⟨c₁, a₁⟩, hcollect, h⟩ := of_bind h
  obtain ⟨adjusted, hadjusted, h⟩ := of_bind h
  obtain ⟨_, hbaseVault, h⟩ := of_bind h
  obtain ⟨_, hquoteVault, h⟩ := of_bind h
  obtain ⟨⟨b₂, a₂⟩, hbase, h⟩ := of_bind h
  obtain ⟨⟨c₃, a₃⟩, hquote, h⟩ := of_bind h
  obtain ⟨o, ho, h⟩ := of_bind h
  obtain ⟨⟨o', b₄, c₄⟩, hupdate, h⟩ := of_bind h
  obtain ⟨rfl, rfl, rfl⟩ := ok_inj₃ h
  obtain ⟨hterms, hentries⟩ := collectFees_eq_ok hcollect
  obtain ⟨hfees, rfl⟩ := subUnsigned_eq_ok.mp hadjusted
  exact ⟨c₁, a₁, b₂, a₂, c₃, a₃, o, o', hterms, hentries, hfees,
    of_require hbaseVault,
    of_require hquoteVault, hbase, hquote,
    serum3Orders_eq_ok.mp ho, hupdate, rfl⟩

theorem SettleFunds.applySettleChanges_follows {x : SettleFunds} {oo : OpenOrdersSlim}
    (h : x.applySettleChanges a m b c oo feesToDao quoteOracle = .ok (b', c', a')) :
    ∃ o o', Rewrites a a' m o o' ∧ Follows x.afterOo x.products o o' b b' c c' ∧
      ∀ side, newPotentialTokens x.afterOo x.products side = .ok (o'.potentialTokens side) := by
  obtain ⟨c₁, a₁, b₂, a₂, c₃, a₃, o₃, o', hterms₁, hentries, -, -, -, hbase, hquote, hfound, hupdate,
    rfl⟩ := applySettleChanges_eq_ok h
  obtain ⟨hterms₂, o, o₂, hrewrites, hpotential₂⟩ := applyVaultDifference_rewrites hbase
  obtain ⟨hterms₃, o₂', o₃', hrewrites₃, hpotential₃⟩ := applyVaultDifference_rewrites hquote
  obtain ⟨rfl, hboth⟩ := hrewrites.trans' hrewrites₃
  obtain rfl : o₃ = o₃' := Option.some.inj (hfound.symm.trans hrewrites₃.found_after)
  obtain ⟨htracks, htracks', hsame, hnew⟩ := updateBankPotentialTokens_eq_ok hupdate
  have hfollows : Follows x.afterOo x.products o₃ o' b₂ b' c₃ c' :=
    .both .base htracks.token htracks'.token (by rw [htracks.bank]) (by rw [htracks'.bank]; rfl) hnew
  refine ⟨o, o', ?_, hfollows.congr (fun side => ?_) (fun _ => rfl) (fun side => ?_)
    (Or.inr hterms₂) (.refl b') (Or.inr (hterms₁.trans hterms₃)) (.refl c'), hnew⟩
  · exact (hboth.trans (setSerum3Orders_rewrites hfound hsame.market hsame.opened
      hsame.tokens)).congr hentries.symm rfl
  · rw [hpotential₃, hpotential₂]
  · exact (hboth.tokens side).symm

theorem chargeLoanOriginationFees_rewrites {oo : OpenOrdersSlim} {nowTs : Nat}
    (h : chargeLoanOriginationFees a m b c oo nowTs = .ok (b', c', a')) :
    b.SameTerms b' ∧ c.SameTerms c' ∧ ∃ o o', Rewrites a a' m o o' ∧
      ∀ side, o'.potentialTokens side = o.potentialTokens side := by
  obtain ⟨⟨b₁, a₁⟩, hbase, h⟩ := of_bind h
  obtain ⟨⟨c₁, a₂⟩, hquote, h⟩ := of_bind h
  obtain ⟨rfl, rfl, rfl⟩ := ok_inj₃ h
  obtain ⟨hterms, o, o₁, hrewrites, hpotential⟩ := chargeLoanOriginationFee_rewrites hbase
  obtain ⟨hterms', o₁', o', hrewrites', hpotential'⟩ := chargeLoanOriginationFee_rewrites hquote
  obtain ⟨rfl, hboth⟩ := hrewrites.trans' hrewrites'
  exact ⟨hterms, hterms', o, o', hboth, fun side => by rw [hpotential', hpotential]⟩

end Instructions

end MangoV4
