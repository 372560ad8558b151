/-
  MangoV4.Health.Skipping

  The health cache that skips missing banks and bad oracles.

  Skipped are tokens without a borrow, and with them all their serum3 markets.
  What they count is left out.  But the markets that are left are counted on top
  of less: reserved amounts that came on top of a repaid borrow, with the asset
  weight, may now repay it, with the liability weight.
-/

import MangoV4.Health.ByToken
import MangoV4.Health.NewCacheSpec

namespace MangoV4

open Lib Lib.Exec List TokenInfo Serum3Info

/-- Both tokens of a market are there. -/
def Serum3Info.between {N : Type} (tokens : List TokenIndex) (m : Serum3Info N) : Bool :=
  decide (m.baseInfoIndex ∈ tokens ∧ m.quoteInfoIndex ∈ tokens)

namespace HealthCache

/-- Both tokens of a pending amount are there. -/
def Holds (c : HealthCache ℚ) (p : Pending TokenIndex) : Bool :=
  decide (p.fst ∈ c.tokenIndices ∧ p.snd ∈ c.tokenIndices)

/-- `c'` has some of the tokens of `c`, with other balances, and the markets
    between them. -/
structure Reduces (c c' : HealthCache ℚ) : Prop where
  nodup : c.tokenIndices.Nodup
  nodup' : c'.tokenIndices.Nodup
  token : ∀ info' ∈ c'.tokenInfos, ∃ info ∈ c.tokenInfos, info.static = info'.static
  markets : c'.tokenMarkets = c.tokenMarkets.filter (Serum3Info.between c'.tokenIndices)

namespace Reduces

variable {c c' : HealthCache ℚ} {T : HealthType} (h : Reduces c c')

include h

/-- A token that is left is the same up to its balance. -/
theorem exists_token {t : TokenIndex} (ht : t ∈ c'.tokenIndices) :
    ∃ info info', c.tokenInfos[c.place t]? = some info ∧ c'.tokenInfos[c'.place t]? = some info' ∧
      info.tokenIndex = t ∧ info.static = info'.static := by
  obtain ⟨info', hinfo', rfl⟩ := exists_info ht
  obtain ⟨info, hmem, hsame⟩ := h.token info' (mem_of_getElem? hinfo')
  obtain ⟨i, hi⟩ := mem_iff_getElem?.mp hmem
  have htoken : info.tokenIndex = info'.tokenIndex := (congrArg tokenIndex hsame :)
  refine ⟨info, info', ?_, hinfo', htoken, hsame⟩
  rw [← htoken, place_of_info h.nodup hi, hi]

theorem tokens_subset : c'.tokenIndices.toFinset ⊆ c.tokenIndices.toFinset := by
  intro t ht
  obtain ⟨info, -, hinfo, -, htoken, -⟩ := h.exists_token (mem_toFinset.mp ht)
  exact mem_toFinset.mpr (mem_map.mpr ⟨info, mem_of_getElem? hinfo, htoken⟩)

theorem weightsOf_eq {t : TokenIndex} (ht : t ∈ c'.tokenIndices) :
    c'.weightsOf T t = c.weightsOf T t := by
  obtain ⟨info, info', hinfo, hinfo', -, hsame⟩ := h.exists_token ht
  rw [weightsOf, weightsOf, weights_of_tokenInfo hinfo, weights_of_tokenInfo hinfo']
  exact (congrArg (TokenInfo.weights · T) hsame :).symm

theorem pricesOf_eq {t : TokenIndex} (ht : t ∈ c'.tokenIndices) : c'.pricesOf t = c.pricesOf t := by
  obtain ⟨info, info', hinfo, hinfo', -, hsame⟩ := h.exists_token ht
  rw [pricesOf, pricesOf, hinfo, hinfo']
  exact (congrArg prices hsame :).symm

theorem priced (hc : c.Priced) : c'.Priced := by
  refine ⟨fun info' hinfo' => ?_, fun s hs => ?_⟩
  · obtain ⟨info, hinfo, hsame⟩ := h.token info' hinfo'
    have hprices : info.prices = info'.prices := (congrArg prices hsame :)
    exact hprices ▸ hc.tokens info hinfo
  · have hmem' : s.rename c'.tokenIndices ∈ c'.tokenMarkets := mem_map_of_mem hs
    have hmem : s.rename c'.tokenIndices ∈ c.tokenMarkets :=
      mem_of_mem_filter (h.markets ▸ hmem')
    obtain ⟨s₀, hs₀, heq⟩ := mem_map.mp hmem
    have hnonneg := hc.markets s₀ hs₀
    have hbase : s₀.reservedBase = s.reservedBase := (congrArg reservedBase heq :)
    have hquote : s₀.reservedQuote = s.reservedQuote := (congrArg reservedQuote heq :)
    have hask : s₀.reservedBaseAsQuoteLowestAsk = s.reservedBaseAsQuoteLowestAsk :=
      (congrArg reservedBaseAsQuoteLowestAsk heq :)
    have hbid : s₀.reservedQuoteAsBaseHighestBid = s.reservedQuoteAsBaseHighestBid :=
      (congrArg reservedQuoteAsBaseHighestBid heq :)
    exact ⟨hbase ▸ hnonneg.base, hquote ▸ hnonneg.quote, hask ▸ hnonneg.ask, hbid ▸ hnonneg.bid⟩

/-- The markets that are left have the same amounts. -/
theorem tokenPendings_eq : c'.tokenPendings T = (c.tokenPendings T).filter c'.Holds := by
  unfold tokenPendings
  rw [h.markets, filter_map]
  refine map_congr_left fun m hm => ?_
  obtain ⟨hbase, hquote⟩ := of_decide_eq_true (mem_filter.mp hm).2
  unfold pendingAt
  rw [h.pricesOf_eq hbase, h.pricesOf_eq hquote]

end Reduces

end HealthCache

/-! ## Building both caches -/

namespace Health

/-- Whatever `reduced` finds, `full` finds too; banks may be missing in `reduced`
    and oracles may be bad. -/
structure AccountRetriever.FindsLess {N : Type} (reduced full : AccountRetriever N) : Prop where
  bankAndOracle : ∀ {i t found}, reduced.bankAndOracle i t = .ok found →
    full.bankAndOracle i t = .ok found
  serumOo : reduced.serumOo = full.serumOo

section Build

variable {N : Type} [Arith N] [Doubles N] {reduced full : AccountRetriever N} {nowTs : Nat}

/-- Tokens are skipped, but not changed. -/
theorem loadTokens_sublist (h : reduced.FindsLess full) {available : List TokenIndex}
    {xs : List (TokenPosition N × Nat)} {infos : List (TokenInfo N)}
    {os : List (Option (TokenInfo N))} (hfull : Forall₂ (Loads full nowTs) xs infos)
    (hos : Forall₂ (fun x o => loadToken reduced nowTs true available x = .ok o) xs os) :
    os.reduceOption.Sublist infos := by
  induction hfull generalizing os with
  | nil =>
    cases hos
    exact .slnil
  | cons hloads _ ih =>
    cases hos with
    | cons ho hos =>
      rcases loadToken_cases ho with ⟨rfl, -⟩ | ⟨info, rfl, bank, price, hbank, hinfo⟩
      · exact (ih hos).cons _
      · rw [reduceOption_cons_of_some,
          hloads.unique ⟨bank, price, h.bankAndOracle hbank, hinfo⟩]
        exact (ih hos).cons_cons _

/-- A market with its tokens in place of their places. -/
theorem rename_newSerum3Info {s : Serum3Orders} {oo : OpenOrders} {base quote : Nat}
    {info : Serum3Info N} (h : newSerum3Info s oo base quote = .ok info) {tokens : List TokenIndex}
    (hbase : tokens[base]? = some s.baseTokenIndex)
    (hquote : tokens[quote]? = some s.quoteTokenIndex) :
    newSerum3Info s oo s.baseTokenIndex s.quoteTokenIndex = .ok (info.rename tokens) := by
  obtain ⟨rfl, rfl, hplaces⟩ := newSerum3Info_places h s.baseTokenIndex s.quoteTokenIndex
  rw [hplaces, rename, getD_eq_getElem?_getD, getD_eq_getElem?_getD, hbase,
    hquote]
  rfl

/-- The loops over markets in step: the tokens stay where they are, and there are
    the markets between them. -/
structure InStep (tokens tokens' : List TokenIndex)
    (st st' : List (TokenInfo N) × List (Serum3Info N)) : Prop where
  full : st.1.map TokenInfo.tokenIndex = tokens
  reduced : st'.1.map TokenInfo.tokenIndex = tokens'
  markets : st'.2.map (Serum3Info.rename tokens') =
    (st.2.map (Serum3Info.rename tokens)).filter (Serum3Info.between tokens')

theorem loadSerum3_inStep (h : reduced.FindsLess full) {tokens tokens' : List TokenIndex}
    {st st₁ st' st₁' : List (TokenInfo N) × List (Serum3Info N)} {x : Serum3Orders × Nat}
    (hst : InStep tokens tokens' st st') (hfull : loadSerum3 full false st x = .ok st₁)
    (hreduced : loadSerum3 reduced true st' x = .ok st₁') : InStep tokens tokens' st₁ st₁' := by
  refine ⟨?_, ?_, ?_⟩
  · rw [← (sameStatic_loadSerum3 hfull).sameTokens.tokenIndices, hst.full]
  · rw [← (sameStatic_loadSerum3 hreduced).sameTokens.tokenIndices, hst.reduced]
  obtain ⟨oo, base, quote, hoo, hbase, hquote, hadd⟩ := loadSerum3_eq_ok hfull
  obtain ⟨info, hinfo, hmarkets⟩ := addSerum3_eq_ok hadd
  have hrename := rename_newSerum3Info hinfo (hst.full ▸ findTokenInfoIndex_some hbase)
    (hst.full ▸ findTokenInfoIndex_some hquote)
  obtain ⟨hbaseToken, hquoteToken, -⟩ := newSerum3Info_places hrename 0 0
  rw [hmarkets, map_append, filter_append, ← hst.markets, map_singleton]
  rcases loadSerum3_cases hreduced with ⟨oo', base', quote', hoo', hbase', hquote', hadd'⟩ |
    ⟨hmissing, -, rfl⟩
  · obtain ⟨info', hinfo', hmarkets'⟩ := addSerum3_eq_ok hadd'
    rw [h.serumOo] at hoo'
    obtain rfl := ok_unique hoo hoo'
    have hbaseAt := hst.reduced ▸ findTokenInfoIndex_some hbase'
    have hquoteAt := hst.reduced ▸ findTokenInfoIndex_some hquote'
    have hrename' := rename_newSerum3Info hinfo' hbaseAt hquoteAt
    rw [hmarkets', map_append, map_singleton,
      ← ok_unique hrename hrename', filter_singleton, between,
      hbaseToken, hquoteToken, decide_eq_true
        ⟨mem_of_getElem? hbaseAt, mem_of_getElem? hquoteAt⟩]
    rfl
  · have hout : (info.rename tokens).between tokens' = false := by
      rw [between, hbaseToken, hquoteToken]
      refine decide_eq_false fun hin => ?_
      rcases hmissing with hmissing | hmissing
      · exact findTokenInfoIndex_none hmissing (hst.reduced ▸ hin.1)
      · exact findTokenInfoIndex_none hmissing (hst.reduced ▸ hin.2)
    rw [filter_singleton, hout]
    exact (append_nil _).symm

end Build

/-- The skipping cache is a reduction of the full one. -/
theorem reduces_of_skipping {account : Account ℚ} {reduced full : AccountRetriever ℚ} {nowTs : Nat}
    (h : reduced.FindsLess full) {c c' : HealthCache ℚ}
    (hc : newHealthCache account full nowTs = .ok c)
    (hc' : newHealthCacheSkippingMissingBanksAndBadOracles account reduced nowTs = .ok c') :
    c.Reduces c' := by
  obtain ⟨infos, hinfos, hserum3, -⟩ := newHealthCache_eq_ok hc
  obtain ⟨available, -, hc'⟩ := of_bind hc'
  obtain ⟨os, hos, hc'⟩ := of_bind hc'
  obtain ⟨⟨tokenInfos', serum3Infos'⟩, hserum3', hc'⟩ := of_bind hc'
  obtain ⟨perpInfos', -, hc'⟩ := of_bind hc'
  obtain rfl := ok_inj hc'
  have hsublist := loadTokens_sublist h hinfos (mapM_eq_ok.mp hos)
  have hstatic := sameStatic_serum3 hserum3
  have hstatic' := sameStatic_serum3 hserum3'
  have hnodup : (c.tokenInfos.map tokenIndex).Nodup :=
    tokenIndices_newHealthCache hc ▸ account.nodup
  have htokens := hstatic.sameTokens.tokenIndices
  have htokens' := hstatic'.sameTokens.tokenIndices
  have hloop : InStep c.tokenIndices (tokenInfos'.map tokenIndex)
      (c.tokenInfos, c.serum3Infos) (tokenInfos', serum3Infos') := by
    refine foldlM_relates (R := InStep c.tokenIndices (tokenInfos'.map tokenIndex)) ?_ ?_
      hserum3 hserum3'
    · intro x _ st st₁ st' st₁' hst hfull hreduced
      exact loadSerum3_inStep h hst hfull hreduced
    · exact ⟨htokens, htokens', rfl⟩
  refine ⟨hnodup, ?_, ?_, hloop.markets⟩
  · show (tokenInfos'.map tokenIndex).Nodup
    rw [← htokens']
    exact (htokens ▸ hnodup : (infos.map tokenIndex).Nodup).sublist
      (hsublist.map tokenIndex)
  · intro info' hinfo'
    have hmem : info'.static ∈ os.reduceOption.map static :=
      hstatic' ▸ mem_map_of_mem hinfo'
    have hmem : info'.static ∈ c.tokenInfos.map static :=
      hstatic ▸ (hsublist.map static).subset hmem
    obtain ⟨info, hinfo, hsame⟩ := mem_map.mp hmem
    exact ⟨info, hinfo, hsame⟩

/-! ## An account with a borrow and bids on two markets -/

/-- A bank with the same weights in all types. -/
def Bank.plain (tokenIndex : TokenIndex) (assetWeight liabWeight : ℚ) : Bank ℚ where
  tokenIndex := tokenIndex
  depositIndex := 1
  borrowIndex := 1
  indexedDeposits := 0
  indexedBorrows := 0
  potentialSerumTokens := 0
  initAssetWeight := assetWeight
  initLiabWeight := liabWeight
  maintAssetWeight := assetWeight
  maintLiabWeight := liabWeight
  maintWeightShiftStart := 0
  maintWeightShiftEnd := 0
  maintWeightShiftDurationInv := 0
  maintWeightShiftAssetTarget := 0
  maintWeightShiftLiabTarget := 0
  depositWeightScaleStartQuote := F64_MAX
  borrowWeightScaleStartQuote := F64_MAX
  stablePrice := 1

/-- Bids on markets for the first token; the quote tokens are the other two. -/
def Account.bidsForFirst (indexedPosition : ℚ) : Account ℚ where
  activeTokenPositions := [⟨0, indexedPosition⟩, ⟨1, 0⟩, ⟨2, 0⟩]
  activeSerum3Orders := [⟨some 0, 0, 1, 0, 0⟩, ⟨some 1, 0, 2, 0, 0⟩]
  activePerpPositions := []
  nodup := (by decide : ([0, 1, 2] : List TokenIndex).Nodup)

/-- The banks that are passed, with oracle prices of one; six quote tokens are
    reserved on each market. -/
def AccountRetriever.withBanks (banks : List (Bank ℚ)) : AccountRetriever ℚ where
  availableBanks := .ok (banks.map Bank.tokenIndex)
  bankAndOracle _ t := match banks.find? fun bank => decide (bank.tokenIndex = t) with
    | some bank => .ok (bank, 1)
    | none => fail .invalidBank
  serumOo _ _ := .ok ⟨0, 0, 0, 6⟩
  perpMarketAndOraclePrice _ _ := fail .someError
  bank_tokenIndex := by
    intro i t bank price h
    split at h
    · rename_i bank' hfind
      obtain ⟨rfl, -⟩ := ok_inj₂ h
      exact of_decide_eq_true (List.find?_some hfind :)
    · cases h

theorem AccountRetriever.withBanks_findsLess (banks more : List (Bank ℚ)) :
    (AccountRetriever.withBanks banks).FindsLess (.withBanks (banks ++ more)) := by
  refine ⟨?_, rfl⟩
  intro i t found h
  unfold withBanks at h ⊢
  dsimp only at h ⊢
  split at h
  · next bank hfind => rw [find?_append, hfind, Option.some_or, ← h]
  · cases h

/-- The bank of the third token is missing. -/
def missingThird : AccountRetriever ℚ := .withBanks [.plain 0 0 (6 / 5), .plain 1 1 1]

def allBanks : AccountRetriever ℚ :=
  .withBanks [.plain 0 0 (6 / 5), .plain 1 1 1, .plain 2 0 1]

theorem missingThird_findsLess : missingThird.FindsLess allBanks :=
  AccountRetriever.withBanks_findsLess _ [.plain 2 0 1]

/-- The two caches. -/
def fullCache (balance : ℚ) : HealthCache ℚ where
  tokenInfos := [.plain 0 0 (6 / 5) ⟨1, 1⟩ balance, .plain 1 1 1 ⟨1, 1⟩ 0, .plain 2 0 1 ⟨1, 1⟩ 0]
  serum3Infos := [.bids 6 0 1, .bids 6 0 2]
  perpInfos := []

def reducedCache (balance : ℚ) : HealthCache ℚ where
  tokenInfos := [.plain 0 0 (6 / 5) ⟨1, 1⟩ balance, .plain 1 1 1 ⟨1, 1⟩ 0]
  serum3Infos := [.bids 6 0 1]
  perpInfos := []

end Health

end MangoV4
