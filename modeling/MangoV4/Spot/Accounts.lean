/-
  MangoV4.Spot.Accounts

  What the spot instructions do to a group, and the rule for proving something
  about all spot entries.

  `SpotGroup.Entries P` says `P` of every active entry and its open orders
  account.  An instruction changes at most one entry, so it keeps `P` of all of
  them if it does for that one: `Entries.rewrite` for placing and settling,
  `Entries.create` for opening.  Closing needs nothing (`Entries.close`).
-/

import MangoV4.Spot.Entries

namespace MangoV4

open Lib Lib.Exec MangoAccount Serum3Orders List Function TokenGroup Option

variable {s s' : SpotGroup} {a a' : MangoAccount} {m : Serum3MarketIndex} {o o' : Serum3Orders}
  {b b' c c' : Bank} {key : Pubkey} {t : TokenIndex} {i : Nat}
  {P : Serum3MarketIndex → Serum3Orders → OpenOrdersAccount → Prop}
  {accounts : Serum3MarketIndex → OpenOrdersAccount}

/-! ## All entries -/

theorem isActiveForMarket_iff : o.isActiveForMarket m = true ↔ o.marketIndex = m :=
  decide_eq_true_iff

theorem isActiveForMarket_eq_false (h : o.marketIndex ≠ m) : o.isActiveForMarket m = false :=
  decide_eq_false h

/-- The spot entries of an account satisfy `P`, together with their open orders
    accounts.  There is one entry for a market, and none was opened on the market
    of free entries. -/
structure MangoAccount.Entries (a : MangoAccount)
    (P : Serum3MarketIndex → Serum3Orders → OpenOrdersAccount → Prop)
    (accounts : Serum3MarketIndex → OpenOrdersAccount) : Prop where
  opened : ∀ o ∈ a.serum3, o.openOrders ≠ some FREE_SERUM3_INDEX
  single : ∀ m, m ≠ FREE_SERUM3_INDEX → a.serum3.countP (Serum3Orders.isActiveForMarket m) ≤ 1
  entry : ∀ m o, m ≠ FREE_SERUM3_INDEX →
    a.serum3.find? (Serum3Orders.isActiveForMarket m) = some o → P m o (accounts m)

namespace MangoAccount.Entries

/-- The market of an entry with an open orders account is not the one of free entries. -/
theorem market_ne (h : a.Entries P accounts)
    (hfound : a.serum3.find? (isActiveForMarket m) = some o)
    (hopened : o.openOrders = some m) : m ≠ FREE_SERUM3_INDEX := by
  rintro rfl
  exact h.opened o (mem_of_find?_eq_some hfound) hopened

/-- Only the entries matter. -/
theorem congr (h : a.Entries P accounts) (hentries : a'.serum3 = a.serum3) :
    a'.Entries P accounts := by
  refine ⟨?_, ?_, ?_⟩ <;> rw [hentries]
  · exact h.opened
  · exact h.single
  · exact h.entry

theorem rewrite (h : a.Entries P accounts) (hrewrites : Rewrites a a' m o o')
    {oo : OpenOrdersAccount} (hP : P m o' oo) : a'.Entries P (update accounts m oo) := by
  have ho := marketIndex_of_find hrewrites.found
  refine ⟨fun x hx => ?_, fun m' hm' => ?_, fun m' x hm' hx => ?_⟩
  · rw [hrewrites.entries] at hx
    rcases mem_of_mem_replaceFirst hx with rfl | hx
    · rw [hrewrites.opened]
      exact h.opened o (mem_of_find?_eq_some hrewrites.found)
    · exact h.opened x hx
  · have hcount := countP_replaceFirst (q := isActiveForMarket m') (x := o')
      hrewrites.found
    have hsame : o'.isActiveForMarket m' = o.isActiveForMarket m' := by
      unfold isActiveForMarket
      rw [hrewrites.market, ho]
    rw [hsame] at hcount
    have hone := h.single m' hm'
    rw [hrewrites.entries]
    omega
  · by_cases hmm : m' = m
    · subst hmm
      obtain rfl := some.inj (hx.symm.trans hrewrites.found_after)
      rw [update_self]
      exact hP
    · rw [update_of_ne hmm]
      rw [hrewrites.entries, find?_replaceFirst_of_not hrewrites.found] at hx
      · exact h.entry m' x hm' hx
      · exact isActiveForMarket_eq_false (ho ▸ Ne.symm hmm)
      · exact isActiveForMarket_eq_false (hrewrites.market ▸ Ne.symm hmm)

/-- A new entry takes the place of a free one. -/
theorem create (h : a.Entries P accounts) {free entry : Serum3Orders} {oo : OpenOrdersAccount}
    (hnone : a.serum3.find? (isActiveForMarket m) = none)
    (hfree : a.serum3.find? (fun o => !o.isActive) = some free) (hmarket : entry.marketIndex = m)
    (hopened : entry.openOrders = some m)
    (hentries : a'.serum3 = replaceFirst (fun o => !o.isActive) entry a.serum3)
    (hP : P m entry oo) : a'.Entries P (update accounts m oo) := by
  have hfreeMarket : free.marketIndex = FREE_SERUM3_INDEX := by
    simpa [isActive] using find?_some hfree
  -- a free entry would be found for the market of free entries
  have hm : m ≠ FREE_SERUM3_INDEX := by
    rintro rfl
    have hnot := find?_eq_none.mp hnone free (mem_of_find?_eq_some hfree)
    exact hnot (isActiveForMarket_iff.mpr hfreeMarket)
  have hfree' : ∀ m', m' ≠ FREE_SERUM3_INDEX → free.isActiveForMarket m' = false := fun m' hm' =>
    isActiveForMarket_eq_false (hfreeMarket ▸ Ne.symm hm')
  refine ⟨fun x hx => ?_, fun m' hm' => ?_, fun m' x hm' hx => ?_⟩
  · rw [hentries] at hx
    rcases mem_of_mem_replaceFirst hx with rfl | hx
    · rw [hopened]
      exact fun heq => hm (some.inj heq)
    · exact h.opened x hx
  · have hcount := countP_replaceFirst (q := isActiveForMarket m') (x := entry) hfree
    have hone := h.single m' hm'
    rw [hfree' m' hm'] at hcount
    rw [hentries]
    by_cases hmm : m' = m
    · subst hmm
      have hcountNone : a.serum3.countP (isActiveForMarket m') = 0 :=
        countP_eq_zero.mpr (find?_eq_none.mp hnone)
      rw [isActiveForMarket_iff.mpr hmarket] at hcount
      simp only [if_true, Bool.false_eq_true, if_false] at hcount
      omega
    · rw [isActiveForMarket_eq_false (hmarket ▸ Ne.symm hmm)] at hcount
      omega
  · by_cases hmm : m' = m
    · subst hmm
      rw [hentries, find?_replaceFirst_new hfree hnone (isActiveForMarket_iff.mpr hmarket)] at hx
      obtain rfl := some.inj hx
      rw [update_self]
      exact hP
    · rw [update_of_ne hmm]
      rw [hentries, find?_replaceFirst_of_not hfree (hfree' m' hm')] at hx
      · exact h.entry m' x hm' hx
      · exact isActiveForMarket_eq_false (hmarket ▸ Ne.symm hmm)

/-- The entry of a market is freed. -/
theorem close (h : a.Entries P accounts)
    (hfound : a.serum3.find? (isActiveForMarket m) = some o)
    (hentries : a'.serum3 = replaceFirst (isActiveForMarket m)
      { o with marketIndex := FREE_SERUM3_INDEX } a.serum3) : a'.Entries P accounts := by
  have ho := marketIndex_of_find hfound
  have hfreed : ∀ m', m' ≠ FREE_SERUM3_INDEX → isActiveForMarket m'
      { o with marketIndex := FREE_SERUM3_INDEX } = false := fun m' hm' =>
    isActiveForMarket_eq_false (Ne.symm hm')
  refine ⟨fun x hx => ?_, fun m' hm' => ?_, fun m' x hm' hx => ?_⟩
  · rw [hentries] at hx
    rcases mem_of_mem_replaceFirst hx with rfl | hx
    · exact h.opened o (mem_of_find?_eq_some hfound)
    · exact h.opened x hx
  · have hcount := countP_replaceFirst (q := isActiveForMarket m')
      (x := { o with marketIndex := FREE_SERUM3_INDEX }) hfound
    rw [hfreed m' hm'] at hcount
    simp only [Bool.false_eq_true, if_false] at hcount
    have hone := h.single m' hm'
    rw [hentries]
    omega
  · by_cases hmm : m' = m
    · subst hmm
      rw [hentries, find?_replaceFirst_none hfound (h.single m' hm') (hfreed m' hm')] at hx
      cases hx
    · rw [hentries, find?_replaceFirst_of_not hfound _ (hfreed m' hm')] at hx
      · exact h.entry m' x hm' hx
      · exact isActiveForMarket_eq_false (ho ▸ Ne.symm hmm)

end MangoAccount.Entries

namespace SpotGroup

/-- All accounts have entries that satisfy `P`. -/
def Entries (s : SpotGroup) (P : Serum3MarketIndex → Serum3Orders → OpenOrdersAccount → Prop) : Prop :=
  ∀ key a, s.accounts key = some a → a.Entries P (s.openOrders key)

/-- Changing one account and its open orders accounts. -/
theorem Entries.update (h : s.Entries P) (ha' : a'.Entries P accounts)
    (haccounts : s'.accounts = update s.accounts key (some a'))
    (hopenOrders : s'.openOrders = update s.openOrders key accounts) : s'.Entries P := by
  intro key' a'' hkey'
  rw [haccounts] at hkey'
  rw [hopenOrders]
  by_cases hkey : key' = key
  · subst hkey
    rw [update_self] at hkey' ⊢
    obtain rfl := some.inj hkey'
    exact ha'
  · rw [update_of_ne hkey] at hkey' ⊢
    exact h key' a'' hkey'

/-- Changing one account only. -/
theorem Entries.setAccount (h : s.Entries P) (ha' : a'.Entries P (s.openOrders key)) :
    (s.setAccount key a').Entries P :=
  h.update ha' rfl (update_eq_self key s.openOrders).symm

/-- Changing one open orders account only. -/
theorem Entries.setOpenOrders (h : s.Entries P) {oo : OpenOrdersAccount}
    (hP : ∀ o, P m o (s.openOrders key m) → P m o oo) : (s.setOpenOrders key m oo).Entries P := by
  intro key' a ha
  have hentries := h key' a ha
  refine ⟨hentries.opened, hentries.single, fun m' o hm' hfound => ?_⟩
  have hold := hentries.entry m' o hm' hfound
  by_cases hkey : key' = key
  · subst hkey
    by_cases hmm : m' = m
    · subst hmm
      simp only [SpotGroup.setOpenOrders, update_self]
      exact hP o hold
    · simpa only [SpotGroup.setOpenOrders, update_self, update_of_ne hmm] using hold
  · simpa only [SpotGroup.setOpenOrders, update_of_ne hkey] using hold

/-! ## Reading instructions -/

theorem requireDistinct_eq_ok {t₁ i₁ t₂ i₂ : Nat} {u : Unit}
    (h : requireDistinct t₁ i₁ t₂ i₂ = .ok u) : ¬ (t₁ = t₂ ∧ i₁ = i₂) :=
  of_require h

theorem load_eq_ok (h : s.accounts.load key = .ok a) : s.accounts key = some a := by
  unfold Accounts.load at h
  split at h
  · rename_i a' ha
    rw [ha, ok_inj h]
  · cases h

theorem loadSerum3Market_eq_ok {market : Serum3Market} (h : s.loadSerum3Market m = .ok market) :
    s.serum3Markets m = some market := by
  unfold Group.loadSerum3Market at h
  split at h
  · rename_i market' hmarket
    rw [hmarket, ok_inj h]
  · cases h

theorem loadOpenOrders_eq_ok {market : Serum3Market} (h : loadOpenOrders a market = .ok o) :
    a.serum3.find? (isActiveForMarket market.marketIndex) = some o ∧
      o.openOrders = some market.marketIndex := by
  obtain ⟨o₁, ho, h⟩ := of_bind h
  obtain ⟨_, hopened, h⟩ := of_bind h
  obtain rfl := ok_inj h
  exact ⟨serum3Orders_eq_ok.mp ho, of_require hopened⟩

/-- The accounts an instruction on a market works with: the entry with its open
    orders account, and a bank of each side, which are not the same. -/
structure Loaded (s : SpotGroup) (marketIndex : Serum3MarketIndex) (key : Pubkey) (side : TokenSide)
    (i i' : Nat) (market : Serum3Market) (a : MangoAccount) (o : Serum3Orders) (b c : Bank) : Prop where
  registered : s.serum3Markets marketIndex = some market
  account : s.accounts key = some a
  found : a.serum3.find? (Serum3Orders.isActiveForMarket market.marketIndex) = some o
  opened : o.openOrders = some market.marketIndex
  bank : (s.banks (market.tokenIndex side))[i]? = some b
  bankToken : b.tokenIndex = market.tokenIndex side
  other : (s.banks (market.tokenIndex side.other))[i']? = some c
  otherToken : c.tokenIndex = market.tokenIndex side.other
  distinct : ¬ (market.tokenIndex side = market.tokenIndex side.other ∧ i = i')

/-- The group after an instruction on a market. -/
def stored (s : SpotGroup) (market : Serum3Market) (key : Pubkey) (side : TokenSide) (i i' : Nat)
    (a' : MangoAccount) (b' c' : Bank) (oo : OpenOrdersAccount) : SpotGroup :=
  (((s.setBank (market.tokenIndex side) i b').setBank (market.tokenIndex side.other) i'
    c').setAccount key a').setOpenOrders key market.marketIndex oo

theorem serum3PlaceOrder_eq_ok {x : PlaceOrder} (h : s.serum3PlaceOrder x = .ok s') :
    ∃ market a o b c a₁ b' c' a', s.Loaded x.marketIndex x.key x.side.payer x.payerBank
        x.receiverBank market a o b c ∧ a₁.serum3 = a.serum3 ∧
      x.track a₁ market.marketIndex b c = .ok (b', c', a') ∧
      s' = s.stored market x.key x.side.payer x.payerBank x.receiverBank a' b' c'
        ((s.openOrders x.key market.marketIndex).trade x.afterOo) := by
  obtain ⟨market, hmarket, h⟩ := of_bind h
  obtain ⟨a, ha, h⟩ := of_bind h
  obtain ⟨o, hload, h⟩ := of_bind h
  obtain ⟨b, hb, h⟩ := of_bind h
  obtain ⟨_, hbToken, h⟩ := of_bind h
  obtain ⟨⟨_, a₁⟩, hensure, h⟩ := of_bind h
  obtain ⟨c, hc, h⟩ := of_bind h
  obtain ⟨_, hcToken, h⟩ := of_bind h
  obtain ⟨_, hne, h⟩ := of_bind h
  obtain ⟨⟨b', c', a'⟩, htrack, h⟩ := of_bind h
  obtain ⟨hfound, hopened⟩ := loadOpenOrders_eq_ok hload
  exact ⟨market, a, o, b, c, a₁, b', c', a',
    ⟨loadSerum3Market_eq_ok hmarket, load_eq_ok ha, hfound, hopened, loadBank_eq_ok.mp hb,
      of_require hbToken, loadBank_eq_ok.mp hc,
      of_assert hcToken, requireDistinct_eq_ok hne⟩,
    (ensureTokenPosition_sameEntries hensure).serum3, htrack, (ok_inj h).symm⟩

theorem chargeAndSettle_eq_ok {x : SettleFunds} {feesToDao : Bool} {quoteOracle : Option I80F48}
    (h : s.chargeAndSettle x feesToDao quoteOracle = .ok s') :
    ∃ market a o b c b₁ c₁ a₁ b' c' a', s.Loaded x.marketIndex x.key .base x.baseBank x.quoteBank
        market a o b c ∧
      chargeLoanOriginationFees a market.marketIndex b c
        (s.openOrders x.key market.marketIndex).amounts x.nowTs = .ok (b₁, c₁, a₁) ∧
      x.applySettleChanges a₁ market.marketIndex b₁ c₁
        (s.openOrders x.key market.marketIndex).amounts feesToDao quoteOracle = .ok (b', c', a') ∧
      s' = s.stored market x.key .base x.baseBank x.quoteBank a' b' c' (.settle x.afterOo) := by
  obtain ⟨market, hmarket, h⟩ := of_bind h
  obtain ⟨a, ha, h⟩ := of_bind h
  obtain ⟨o, hload, h⟩ := of_bind h
  obtain ⟨c, hc, h⟩ := of_bind h
  obtain ⟨_, hcToken, h⟩ := of_bind h
  obtain ⟨b, hb, h⟩ := of_bind h
  obtain ⟨_, hbToken, h⟩ := of_bind h
  obtain ⟨_, hne, h⟩ := of_bind h
  obtain ⟨⟨b₁, c₁, a₁⟩, hcharge, h⟩ := of_bind h
  obtain ⟨⟨b', c', a'⟩, hsettle, h⟩ := of_bind h
  obtain ⟨hfound, hopened⟩ := loadOpenOrders_eq_ok hload
  exact ⟨market, a, o, b, c, b₁, c₁, a₁, b', c', a',
    ⟨loadSerum3Market_eq_ok hmarket, load_eq_ok ha, hfound, hopened, loadBank_eq_ok.mp hb,
      of_require hbToken, loadBank_eq_ok.mp hc,
      of_require hcToken, requireDistinct_eq_ok hne⟩,
    hcharge, hsettle, (ok_inj h).symm⟩

theorem ensureTokenInUse_serum3 (h : a.ensureTokenInUse t = .ok a') : a'.serum3 = a.serum3 := by
  obtain ⟨⟨p, a₁⟩, hensure, h⟩ := of_bind h
  obtain ⟨_, -, h⟩ := of_bind h
  obtain rfl := ok_inj h
  have hentries := ensureTokenPosition_sameEntries hensure
  exact hentries.serum3

theorem decrementInUse_serum3 (h : a.decrementInUse t = .ok a') : a'.serum3 = a.serum3 := by
  obtain ⟨p, -, h⟩ := of_bind h
  obtain rfl := ok_inj h
  rfl

/-- The entry of a market that has just been opened. -/
def openedOn (market : Serum3Market) : Serum3Orders where
  openOrders := some market.marketIndex
  marketIndex := market.marketIndex
  baseTokenIndex := market.baseTokenIndex
  quoteTokenIndex := market.quoteTokenIndex

/-- A new entry takes the place of a free one; the market had none. -/
theorem serum3CreateOpenOrders_eq_ok (h : s.serum3CreateOpenOrders key m = .ok s') :
    ∃ market a a' free, s.serum3Markets m = some market ∧ s.accounts key = some a ∧
      a.serum3.find? (isActiveForMarket market.marketIndex) = none ∧
      a.serum3.find? (fun o => !o.isActive) = some free ∧
      a'.serum3 = replaceFirst (fun o => !o.isActive) (openedOn market) a.serum3 ∧
      s' = (s.setAccount key a').setOpenOrders key market.marketIndex .new := by
  obtain ⟨group, hgroup, h⟩ := of_bind h
  obtain ⟨market', hmarket', h⟩ := of_bind h
  obtain rfl := ok_inj h
  obtain ⟨market, hmarket, hgroup⟩ := of_bind hgroup
  obtain rfl : market' = market := ok_unique hmarket' hmarket
  obtain ⟨a, ha, hgroup⟩ := of_bind hgroup
  obtain ⟨a₁, hcreate, hgroup⟩ := of_bind hgroup
  obtain ⟨a₂, hquote, hgroup⟩ := of_bind hgroup
  obtain ⟨a₃, hbase, hgroup⟩ := of_bind hgroup
  obtain rfl := ok_inj hgroup
  have hentries := (ensureTokenInUse_serum3 hbase).trans (ensureTokenInUse_serum3 hquote)
  unfold createSerum3Orders at hcreate
  split at hcreate
  · cases hcreate
  · rename_i hnone
    split at hcreate
    · rename_i free hfree
      obtain rfl := ok_inj hcreate
      exact ⟨market', a, a₃, free, loadSerum3Market_eq_ok hmarket, load_eq_ok ha, hnone, hfree,
        hentries, rfl⟩
    · cases hcreate

/-- The entry is freed, if the open orders account could be closed. -/
theorem serum3CloseOpenOrders_eq_ok (h : s.serum3CloseOpenOrders key m = .ok s') :
    ∃ market a a' o, s.accounts key = some a ∧ (s.openOrders key market).closable = true ∧
      a.serum3.find? (isActiveForMarket market) = some o ∧
      o.openOrders = some market ∧
      a'.serum3 = replaceFirst (isActiveForMarket market)
        { o with marketIndex := FREE_SERUM3_INDEX } a.serum3 ∧
      s' = s.setAccount key a' := by
  obtain ⟨market', hmarket', h⟩ := of_bind h
  obtain ⟨_, hclosable, h⟩ := of_bind h
  obtain ⟨group, hgroup, h⟩ := of_bind h
  obtain rfl := ok_inj h
  obtain ⟨a, ha, hgroup⟩ := of_bind hgroup
  obtain ⟨market, hmarket, hgroup⟩ := of_bind hgroup
  obtain rfl : market' = market := ok_unique hmarket' hmarket
  obtain ⟨o, ho, hgroup⟩ := of_bind hgroup
  obtain ⟨_, hopened, hgroup⟩ := of_bind hgroup
  obtain ⟨a₁, hbase, hgroup⟩ := of_bind hgroup
  obtain ⟨a₂, hquote, hgroup⟩ := of_bind hgroup
  obtain ⟨a₃, hdeactivate, hgroup⟩ := of_bind hgroup
  obtain rfl := ok_inj hgroup
  have hentries := (decrementInUse_serum3 hquote).trans (decrementInUse_serum3 hbase)
  obtain ⟨o₂, ho₂, hdeactivate⟩ := of_bind hdeactivate
  obtain rfl := ok_inj hdeactivate
  rw [serum3Orders_eq_ok] at ho ho₂
  rw [hentries, ho] at ho₂
  obtain rfl := some.inj ho₂
  exact ⟨market'.marketIndex, a, _, o, load_eq_ok ha, require_eq_ok.mp hclosable, ho,
    of_require hopened, by rw [← hentries], rfl⟩

theorem tokenAddBank_eq_ok {existing bankNum : Nat} (h : s.tokenAddBank t existing bankNum = .ok s') :
    s.testing = true ∧ ∃ b, (s.banks t)[existing]? = some b ∧
      s' = { s with banks := update s.banks t (s.banks t ++ [b.fromExistingBank]) } := by
  obtain ⟨_, htesting, h⟩ := of_bind h
  obtain ⟨b, hb, h⟩ := of_bind h
  obtain ⟨_, -, h⟩ := of_bind h
  obtain ⟨_, -, h⟩ := of_bind h
  exact ⟨require_eq_ok.mp htesting, b, loadBank_eq_ok.mp hb, (ok_inj h).symm⟩

end SpotGroup

end MangoV4
