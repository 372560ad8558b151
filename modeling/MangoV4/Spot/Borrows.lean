/-
  MangoV4.Spot.Borrows

  Loan origination fees of spot orders.

  Tokens that an account borrows for an order cost a loan origination fee once
  they are spent.  Until then the entry of the market counts them in
  `borrows_without_fee`, and the fee is due for what exceeds the total of the
  open orders account.  As long as nothing is filled, there is no such excess:
  an order takes what it counts from the vault into the open orders account,
  and what a settlement pays out is taken off the count.
-/

import MangoV4.Spot.Potential

namespace MangoV4

open Lib Lib.Exec MangoAccount List Function Option Serum3Orders

variable {s s' : SpotGroup} {a a' : MangoAccount} {m : Serum3MarketIndex} {o o' : Serum3Orders}
  {b b' c c' : Bank} {after before nowTs : Nat}

/-! ## What is counted -/

/-- The counter takes in at most what left the vault and gives back what came
    into it. -/
theorem countBorrows_le {borrows new n : Nat} {needed : I80F48}
    (hneeded : needed.raw = ((after : Int) - before) * 2 ^ 48)
    (h : countBorrows borrows new needed = .ok n) : n = borrows + new - (after - before) := by
  obtain ⟨-, h⟩ := of_checkU64 h
  split at h
  · rename_i hpos
    obtain ⟨change, hchange, h⟩ := of_bind h
    obtain rfl := ok_inj h
    unfold Fixed.toU64 Fixed.toInt at hchange
    split at hchange
    · obtain ⟨-, rfl⟩ := checkU64_eq_ok.mp hchange
      omega
    · cases hchange
  · rename_i hpos
    obtain rfl := ok_inj h
    have hle : ¬ 0 < needed.raw := hpos
    omega

theorem applyVaultDifference_borrows (hb : b.Indexed)
    (h : applyVaultDifference a m b after before nowTs = .ok (b', a')) :
    ∃ o side n, o.tokenIndex side = b.tokenIndex ∧
      Rewrites a a' m o (o.setBorrowsWithoutFee n side) ∧
      n ≤ o.borrowsWithoutFee side + (before - after) - (after - before) := by
  obtain ⟨needed, native, native', p, p', active, o, side, newBorrows, n, hneeded, hnative, hchange,
    hnative', hnew, hcount, htoken, hrewrites⟩ := applyVaultDifference_eq_ok h
  have hloss := Bank.changeWithoutFee_native_le hb hchange hnative hnative'
  have hborrows : newBorrows ≤ before - after := by
    refine hnew _ (hloss.imp_left fun hle => ?_)
    omega
  refine ⟨o, side, n, htoken.trans (Bank.changeWithoutFee_changes hchange).2.tokenIndex, hrewrites, ?_⟩
  rw [countBorrows_le hneeded hcount]
  omega

variable {side : TokenSide} {oo : OpenOrdersSlim}

/-- Borrows that the open orders account covers cost nothing. -/
theorem chargeLoanOriginationFee_of_covered
    (hfound : a.serum3.find? (isActiveForMarket m) = some o)
    (hcovered : o.borrowsWithoutFee side ≤ oo.total side) :
    chargeLoanOriginationFee a m b oo side nowTs = .ok (b, a) := by
  unfold chargeLoanOriginationFee
  rw [serum3Orders_eq_ok.mpr hfound]
  exact if_neg (by omega)

theorem chargeLoanOriginationFees_of_covered
    (hfound : a.serum3.find? (isActiveForMarket m) = some o)
    (hcovered : ∀ side, o.borrowsWithoutFee side ≤ oo.total side) :
    chargeLoanOriginationFees a m b c oo nowTs = .ok (b, c, a) := by
  unfold chargeLoanOriginationFees
  rw [chargeLoanOriginationFee_of_covered hfound (hcovered .base)]
  show (chargeLoanOriginationFee a m c oo .quote nowTs >>= _) = _
  rw [chargeLoanOriginationFee_of_covered hfound (hcovered .quote)]
  rfl

/-- A token belongs to one side of an entry. -/
theorem side_eq {side' : TokenSide} (htokens : o.tokenIndex .base ≠ o.tokenIndex .quote)
    (h : o.tokenIndex side = o.tokenIndex side') : side = side' := by
  cases side <;> cases side'
  · rfl
  · exact absurd h htokens
  · exact absurd h.symm htokens
  · rfl

theorem applyVaultDifference_side (hb : b.Indexed)
    (htokens : o.tokenIndex .base ≠ o.tokenIndex .quote) (htoken : o.tokenIndex side = b.tokenIndex)
    (hfound : a.serum3.find? (isActiveForMarket m) = some o)
    (h : applyVaultDifference a m b after before nowTs = .ok (b', a')) :
    b'.Indexed ∧ ∃ o', Rewrites a a' m o o' ∧
      o'.borrowsWithoutFee side ≤ o.borrowsWithoutFee side + (before - after) - (after - before) ∧
      ∀ side', side' ≠ side → o'.borrowsWithoutFee side' = o.borrowsWithoutFee side' := by
  obtain ⟨o₁, side₁, n, htoken₁, hrewrites, hn⟩ := applyVaultDifference_borrows hb h
  obtain rfl : o = o₁ := some.inj (hfound.symm.trans hrewrites.found)
  obtain rfl := side_eq htokens (htoken₁.trans htoken.symm)
  refine ⟨(applyVaultDifference_rewrites h).1.indexed_iff.mpr hb, _, hrewrites, ?_, fun side' hside => ?_⟩
  · rw [borrowsWithoutFee_setBorrowsWithoutFee, if_pos rfl]
    exact hn
  · rw [borrowsWithoutFee_setBorrowsWithoutFee, if_neg hside]

/-- Placing an order counts what it takes from the vault on the side that pays. -/
theorem PlaceOrder.track_borrows {x : PlaceOrder} (hb : b.Indexed) (hc : c.Indexed)
    (htokens : o.tokenIndex .base ≠ o.tokenIndex .quote) (htoken : o.tokenIndex side = b.tokenIndex)
    (hfound : a.serum3.find? (isActiveForMarket m) = some o)
    (h : x.track a m b c = .ok (b', c', a')) :
    b'.Indexed ∧ c'.Indexed ∧ ∃ o', Rewrites a a' m o o' ∧
      o'.borrowsWithoutFee side ≤ o.borrowsWithoutFee side + (x.beforeVault - x.afterVault) ∧
      ∀ side', side' ≠ side → o'.borrowsWithoutFee side' = o.borrowsWithoutFee side' := by
  obtain ⟨o₀, o₁, b₁, hfound₀, hvault, hupdate, hdifference⟩ := track_eq_ok h
  obtain rfl : o = o₀ := some.inj (hfound.symm.trans hfound₀)
  obtain ⟨-, hsame, hbToken, hb₁, hc'⟩ := updatePotentialTokens_follows hupdate
  have hrewrites := setSerum3Orders_rewrites hfound hsame.market hsame.opened hsame.tokens
  have htokens₁ : o₁.tokenIndex .base ≠ o₁.tokenIndex .quote := by
    rw [hsame.tokens, hsame.tokens]
    exact htokens
  have htoken₁ : o₁.tokenIndex side = b₁.tokenIndex := by rw [hsame.tokens, htoken, hbToken]
  obtain ⟨hb', o', hrewrites', hpayer, hother⟩ :=
    applyVaultDifference_side (hb₁ hb) htokens₁ htoken₁ hrewrites.found_after hdifference
  refine ⟨hb', hc' hc, o', hrewrites.trans hrewrites', ?_, fun side' hside => ?_⟩
  · rw [hsame.borrows] at hpayer
    omega
  · rw [hother side' hside, hsame.borrows]

/-- Settling takes off what the vaults have received. -/
theorem SettleFunds.applySettleChanges_borrows {x : SettleFunds}
    {feesToDao : Bool} {quoteOracle : Option I80F48} (hb : b.Indexed) (hc : c.Indexed)
    (htokens : o.tokenIndex .base ≠ o.tokenIndex .quote) (hbase : o.tokenIndex .base = b.tokenIndex)
    (hquote : o.tokenIndex .quote = c.tokenIndex)
    (hfound : a.serum3.find? (isActiveForMarket m) = some o)
    (h : x.applySettleChanges a m b c oo feesToDao quoteOracle = .ok (b', c', a')) :
    b'.Indexed ∧ c'.Indexed ∧ ∃ o', Rewrites a a' m o o' ∧
      o'.borrowsWithoutFee .base ≤
        o.borrowsWithoutFee .base - (x.afterBaseVault - x.beforeBaseVault) ∧
      o'.borrowsWithoutFee .quote ≤ o.borrowsWithoutFee .quote -
        (x.afterQuoteVault - x.receivedFees oo feesToDao - x.beforeQuoteVault) := by
  obtain ⟨c₁, a₁, b₂, a₂, c₃, a₃, o₃, o', hterms, hentries, -, hbaseVault, hquoteVault, hdifference,
    hdifference', hfound₃, hupdate, rfl⟩ := applySettleChanges_eq_ok h
  rw [← hentries] at hfound
  obtain ⟨hb₂, o₁, hrewrites₁, hle₁, hother₁⟩ :=
    applyVaultDifference_side hb htokens hbase hfound hdifference
  have htokens₁ : o₁.tokenIndex .base ≠ o₁.tokenIndex .quote := by
    rw [hrewrites₁.tokens, hrewrites₁.tokens]
    exact htokens
  have hquote₁ : o₁.tokenIndex .quote = c₁.tokenIndex := by
    rw [hrewrites₁.tokens, hquote, hterms.tokenIndex]
  obtain ⟨hc₃, o₂, hrewrites₂, hle₂, hother₂⟩ := applyVaultDifference_side
    (hterms.indexed_iff.mpr hc) htokens₁ hquote₁ hrewrites₁.found_after hdifference'
  obtain rfl : o₃ = o₂ := some.inj (hfound₃.symm.trans hrewrites₂.found_after)
  obtain ⟨htracks, htracks', hsame, -⟩ := updateBankPotentialTokens_eq_ok hupdate
  have hrewrites := (hrewrites₁.trans hrewrites₂).trans
    (setSerum3Orders_rewrites hfound₃ hsame.market hsame.opened hsame.tokens)
  refine ⟨htracks.indexed hb₂, htracks'.indexed hc₃, o', hrewrites.congr hentries.symm rfl, ?_, ?_⟩
  · rw [hsame.borrows, hother₂ .base (by decide)]
    omega
  · rw [hother₁ .quote (by decide)] at hle₂
    rw [hsame.borrows]
    omega

/-! ## The invariant -/

/-- The entry lists the tokens of its market, and the open orders account has
    what was borrowed for it. -/
structure BorrowsCovered (markets : Serum3MarketIndex → Option Serum3Market) (m : Serum3MarketIndex)
    (o : Serum3Orders) (oo : OpenOrdersAccount) : Prop where
  listed : ∃ market, markets m = some market ∧ ∀ side, o.tokenIndex side = market.tokenIndex side
  borrows : ∀ side, o.borrowsWithoutFee side ≤ oo.amounts.total side

namespace SpotGroup

variable {key : Pubkey} {t : TokenIndex} {i : Nat}

def Indexed (s : SpotGroup) : Prop := ∀ t, ∀ b ∈ s.banks t, b.Indexed

/-- Nothing borrowed for spot orders has been spent.  A market trades two
    different tokens. -/
structure Unspent (s : SpotGroup) : Prop where
  indexed : s.Indexed
  registered : ∀ m market, s.serum3Markets m = some market →
    market.marketIndex = m ∧ market.baseTokenIndex ≠ market.quoteTokenIndex
  entries : s.Entries (BorrowsCovered s.serum3Markets)

theorem Indexed.setBank (h : s.Indexed) (hb : b.Indexed) : (s.setBank t i b).Indexed := by
  intro t' d hd
  replace hd : d ∈ update s.banks t ((s.banks t).set i b) t' := hd
  by_cases ht : t' = t
  · subst ht
    rw [update_self] at hd
    rcases mem_or_eq_of_mem_set hd with hd | rfl
    · exact h t' d hd
    · exact hb
  · rw [update_of_ne ht] at hd
    exact h t' d hd

/-- What a settlement of the spot market program does: the vaults receive what
    leaves the open orders account, and rebates go to the vault of the quote
    token.  A settlement pays out what is free; a forced cancel frees first. -/
def Pays (x : SettleFunds) (oo : OpenOrdersSlim) : Prop :=
  ∃ paid : TokenSide → Nat, (∀ side, x.afterOo.total side + paid side = oo.total side) ∧
    x.afterBaseVault = x.beforeBaseVault + paid .base ∧
    x.afterQuoteVault = x.beforeQuoteVault + paid .quote +
      (oo.referrerRebatesAccrued - x.afterOo.referrerRebatesAccrued)

/-- What the spot market program does as long as orders only rest on the book:
    an order moves what it needs from the vault into the open orders account,
    and a cancel keeps the totals. -/
def Rests : Op → SpotGroup → Prop
  | .serum3PlaceOrder x, s => ∃ needed, x.beforeVault = x.afterVault + needed ∧
      ∀ side, x.afterOo.total side = (s.openOrders x.key x.marketIndex).amounts.total side +
        if side = x.side.payer then needed else 0
  | .serum3SettleFunds x _ _, s => Pays x (s.openOrders x.key x.marketIndex).amounts
  | .serum3LiqForceCancelOrders x _, s => Pays x (s.openOrders x.key x.marketIndex).amounts
  | .openOrdersChange key m after, s =>
    ∀ side, after.total side = (s.openOrders key m).amounts.total side
  -- indices of a bank are positive
  | .bankChange _ _ b, _ => b.Indexed
  | _, _ => True

/-- What an instruction on a market finds. -/
theorem Unspent.loaded {marketIndex : Serum3MarketIndex} {side : TokenSide} {i' : Nat}
    {market : Serum3Market} (hs : s.Unspent)
    (h : s.Loaded marketIndex key side i i' market a o b c) :
    market.marketIndex = marketIndex ∧ b.Indexed ∧ c.Indexed ∧
      a.Entries (BorrowsCovered s.serum3Markets) (s.openOrders key) ∧
      BorrowsCovered s.serum3Markets market.marketIndex o (s.openOrders key market.marketIndex) ∧
      (∀ side, o.tokenIndex side = market.tokenIndex side) ∧
      o.tokenIndex .base ≠ o.tokenIndex .quote := by
  obtain ⟨rfl, htokens⟩ := hs.registered marketIndex market h.registered
  have hentries := hs.entries key a h.account
  have hcovered := hentries.entry _ o (hentries.market_ne h.found h.opened) h.found
  obtain ⟨market', hmarket', hlisted⟩ := hcovered.listed
  obtain rfl : market = market' := some.inj (h.registered.symm.trans hmarket')
  refine ⟨rfl, hs.indexed _ b (mem_of_getElem? h.bank), hs.indexed _ c (mem_of_getElem? h.other),
    hentries, hcovered, hlisted, ?_⟩
  rw [hlisted, hlisted]
  exact htokens

/-- Storing an entry that is covered. -/
theorem Unspent.stored {market : Serum3Market} {side : TokenSide} {i' : Nat} {oo : OpenOrdersAccount}
    (hs : s.Unspent) (hb' : b'.Indexed) (hc' : c'.Indexed)
    (ha : a.Entries (BorrowsCovered s.serum3Markets) (s.openOrders key))
    (hrewrites : Rewrites a a' market.marketIndex o o')
    (hcovered : BorrowsCovered s.serum3Markets market.marketIndex o' oo) :
    (s.stored market key side i i' a' b' c' oo).Unspent where
  indexed := (hs.indexed.setBank hb').setBank hc'
  registered := hs.registered
  entries := Entries.update hs.entries (ha.rewrite hrewrites hcovered) rfl rfl

theorem Unspent.serum3PlaceOrder {x : PlaceOrder} (hs : s.Unspent)
    (hrests : Rests (.serum3PlaceOrder x) s) (h : s.serum3PlaceOrder x = .ok s') : s'.Unspent := by
  obtain ⟨market, a, o, b, c, a₁, b', c', a', hloaded, hentries, htrack, rfl⟩ :=
    serum3PlaceOrder_eq_ok h
  obtain ⟨needed, hvault, htotal⟩ := hrests
  obtain ⟨hmarket, hb, hc, ha, hcovered, hlisted, htokens⟩ := hs.loaded hloaded
  obtain ⟨hb', hc', o', hrewrites, hpayer, hother⟩ := PlaceOrder.track_borrows hb hc htokens
    ((hlisted _).trans hloaded.bankToken.symm) (hentries ▸ hloaded.found) htrack
  refine hs.stored hb' hc' ha (hrewrites.congr hentries.symm rfl) ⟨?_, fun side => ?_⟩
  · obtain ⟨_, hregistered, hlisted'⟩ := hcovered.listed
    exact ⟨_, hregistered, fun side => (hrewrites.tokens side).trans (hlisted' side)⟩
  · show o'.borrowsWithoutFee side ≤ x.afterOo.total side
    have hbefore := hcovered.borrows side
    rw [htotal, ← hmarket]
    by_cases hside : side = x.side.payer
    · subst hside
      rw [if_pos rfl]
      omega
    · rw [if_neg hside, hother side hside]
      exact hbefore

theorem Unspent.chargeAndSettle {x : SettleFunds} {feesToDao : Bool} {quoteOracle : Option I80F48}
    (hs : s.Unspent) (hpays : Pays x (s.openOrders x.key x.marketIndex).amounts)
    (h : s.chargeAndSettle x feesToDao quoteOracle = .ok s') : s'.Unspent := by
  obtain ⟨market, a, o, b, c, b₁, c₁, a₁, b', c', a', hloaded, hcharge, hsettle, rfl⟩ :=
    chargeAndSettle_eq_ok h
  obtain ⟨paid, hpaid, hbaseVault, hquoteVault⟩ := hpays
  obtain ⟨hmarket, hb, hc, ha, hcovered, hlisted, htokens⟩ := hs.loaded hloaded
  rw [← hmarket] at hpaid hquoteVault
  -- no fee is charged, so nothing has changed before the settlement
  rw [chargeLoanOriginationFees_of_covered hloaded.found hcovered.borrows] at hcharge
  obtain ⟨rfl, rfl, rfl⟩ := ok_inj₃ hcharge
  obtain ⟨hb', hc', o', hrewrites, hbase, hquote⟩ := SettleFunds.applySettleChanges_borrows hb hc
    htokens ((hlisted _).trans hloaded.bankToken.symm) ((hlisted _).trans hloaded.otherToken.symm)
    hloaded.found hsettle
  refine hs.stored hb' hc' ha hrewrites ⟨?_, fun side => ?_⟩
  · obtain ⟨_, hregistered, hlisted'⟩ := hcovered.listed
    exact ⟨_, hregistered, fun side => (hrewrites.tokens side).trans (hlisted' side)⟩
  · show o'.borrowsWithoutFee side ≤ x.afterOo.total side
    have hbefore := hcovered.borrows side
    have htotal := hpaid side
    cases side with
    | base => omega
    | quote =>
      have hfees : x.receivedFees (s.openOrders x.key market.marketIndex).amounts feesToDao ≤
          (s.openOrders x.key market.marketIndex).amounts.referrerRebatesAccrued -
            x.afterOo.referrerRebatesAccrued := by
        unfold SettleFunds.receivedFees
        split <;> omega
      omega

theorem Unspent.apply {op : Op} (hs : s.Unspent) (hrests : Rests op s) (h : apply op s = .ok s') :
    s'.Unspent := by
  cases op with
  | serum3CreateOpenOrders key m =>
    obtain ⟨market, a, a', free, hmarket, ha, hnone, hfree, hentries, rfl⟩ :=
      serum3CreateOpenOrders_eq_ok h
    obtain ⟨rfl, htokens⟩ := hs.registered m market hmarket
    have hcovered : BorrowsCovered s.serum3Markets market.marketIndex (openedOn market) .new := by
      refine ⟨⟨market, hmarket, fun side => ?_⟩, fun side => ?_⟩ <;> cases side
      · rfl
      · rfl
      · exact Nat.zero_le _
      · exact Nat.zero_le _
    exact ⟨hs.indexed, hs.registered, Entries.update hs.entries
      ((hs.entries key a ha).create hnone hfree rfl rfl hentries hcovered) rfl rfl⟩
  | serum3PlaceOrder x => exact hs.serum3PlaceOrder hrests h
  | serum3SettleFunds x feesToDao price => exact hs.chargeAndSettle hrests h
  | serum3LiqForceCancelOrders x canForceCancel =>
    replace h : s.serum3LiqForceCancelOrders x canForceCancel = .ok s' := h
    unfold serum3LiqForceCancelOrders at h
    split at h
    · exact hs.chargeAndSettle hrests h
    · obtain rfl := ok_inj h
      exact hs
  | serum3CloseOpenOrders key m =>
    obtain ⟨market, a, a', o, ha, -, hfound, -, hentries, rfl⟩ := serum3CloseOpenOrders_eq_ok h
    exact ⟨hs.indexed, hs.registered,
      Entries.setAccount hs.entries ((hs.entries key a ha).close hfound hentries)⟩
  | openOrdersChange key m after =>
    obtain rfl := ok_inj h
    refine ⟨hs.indexed, hs.registered, Entries.setOpenOrders hs.entries fun o hcovered => ?_⟩
    refine ⟨hcovered.listed, fun side => ?_⟩
    show o.borrowsWithoutFee side ≤ after.total side
    rw [hrests side]
    exact hcovered.borrows side
  | balanceChange key p =>
    obtain ⟨a, ha, h⟩ := of_bind h
    obtain rfl := ok_inj h
    exact ⟨hs.indexed, hs.registered,
      Entries.setAccount hs.entries ((hs.entries key a (load_eq_ok ha)).congr rfl)⟩
  | bankChange t i b =>
    obtain ⟨old, -, h⟩ := of_bind h
    obtain rfl := ok_inj h
    exact ⟨hs.indexed.setBank hrests, hs.registered, hs.entries⟩
  | tokenAddBank t existing bankNum =>
    obtain ⟨-, b, hb, rfl⟩ := tokenAddBank_eq_ok h
    refine ⟨fun t' d hd => ?_, hs.registered, hs.entries⟩
    replace hd : d ∈ update s.banks t (s.banks t ++ [b.fromExistingBank]) t' := hd
    by_cases ht : t' = t
    · subst ht
      rw [update_self] at hd
      rcases mem_append.mp hd with hd | hd
      · exact hs.indexed t' d hd
      · rw [mem_singleton.mp hd]
        exact hs.indexed t' b (mem_of_getElem? hb)
    · rw [update_of_ne ht] at hd
      exact hs.indexed t' d hd

/-! ## Runs -/

/-- As long as orders only rest on the book, are cancelled and settled, the
    borrows of every entry stay within the open orders account, and there is no
    loan origination fee to charge. -/
theorem no_loan_origination_fees {s₀ : SpotGroup} (hs₀ : s₀.Unspent) (ops : List Op)
    (hrests : Guarded exec Rests s₀ ops) {key : Pubkey} {a : MangoAccount} {m : Serum3MarketIndex}
    {o : Serum3Orders} (ha : (run exec s₀ ops).accounts key = some a) (hm : m ≠ FREE_SERUM3_INDEX)
    (hfound : a.serum3.find? (Serum3Orders.isActiveForMarket m) = some o) :
    (∀ side, o.borrowsWithoutFee side ≤ ((run exec s₀ ops).openOrders key m).amounts.total side) ∧
    ∀ baseBank quoteBank nowTs,
      chargeLoanOriginationFees a m baseBank quoteBank ((run exec s₀ ops).openOrders key m).amounts
        nowTs = .ok (baseBank, quoteBank, a) := by
  have hunspent : (run exec s₀ ops).Unspent := by
    refine run_preserves_of_guarded (fun op s r s' hs hrests h => ?_) ops s₀ hs₀ hrests
    obtain ⟨s₁, happly, h⟩ := of_bind h
    obtain ⟨-, rfl⟩ := ok_inj₂ h
    exact hs.apply hrests happly
  have hcovered := (hunspent.entries key a ha).entry m o hm hfound
  exact ⟨hcovered.borrows, fun _ _ _ => chargeLoanOriginationFees_of_covered hfound hcovered.borrows⟩

theorem oneMarket_unspent (banks : Nat) (testing : Bool) : (oneMarket banks testing).Unspent where
  indexed := by
    intro t b hb
    simp only [oneMarket] at hb
    split at hb
    · rw [mem_singleton.mp hb]
      decide
    · split at hb
      · rw [eq_of_mem_replicate hb]
        decide
      · cases hb
  registered := by
    intro m market hmarket
    obtain ⟨rfl, rfl⟩ := (ite_none_right_eq_some.mp hmarket).imp_right some.inj
    exact ⟨rfl, by decide⟩
  entries := oneMarket_entries banks testing _

/-- A bid for 150 tokens of an account that has 100 of them borrows 50. -/
theorem no_loan_origination_fees_of_bid :
    ∃ a o, (run exec (oneMarket 1 false) (restingBid 150)).accounts 0 = some a ∧
      a.serum3.find? (Serum3Orders.isActiveForMarket 0) = some o ∧ o.borrowsWithoutFee .quote = 50 ∧
      ∀ baseBank quoteBank nowTs, chargeLoanOriginationFees a 0 baseBank quoteBank
        ((run exec (oneMarket 1 false) (restingBid 150)).openOrders 0 0).amounts nowTs =
          .ok (baseBank, quoteBank, a) := by
  have hrests : Guarded exec Rests (oneMarket 1 false) (restingBid 150) := by
    refine ⟨trivial, ⟨150, rfl, fun side => ?_⟩, trivial⟩
    cases side <;> decide +kernel
  have hsome : ((run exec (oneMarket 1 false) (restingBid 150)).accounts 0).isSome := by
    decide +kernel
  obtain ⟨a, ha⟩ := isSome_iff_exists.mp hsome
  have hborrows : (((run exec (oneMarket 1 false) (restingBid 150)).accounts 0).bind fun a =>
      a.serum3.find? (isActiveForMarket 0)).map
        (borrowsWithoutFee · .quote) = some 50 := by decide +kernel
  rw [ha] at hborrows
  obtain ⟨o, ho, hborrows⟩ := map_eq_some_iff.mp hborrows
  exact ⟨a, o, ha, ho, hborrows,
    (no_loan_origination_fees (oneMarket_unspent 1 false) _ hrests ha (by decide) ho).2⟩

end SpotGroup

end MangoV4
