/-
  MangoV4.Health.Adjust

  Adjusting a health cache after a token balance changed, instead of building a
  new one.

  `adjust_token_balance` updates the spot balance and the scaled weights of one
  token.  The balance and the liability weight come out as in a new cache.  The
  asset weight is scaled at the asset price, where a new cache scales it at the
  liability price.
-/

import MangoV4.Health.Exact
import MangoV4.Health.NewCacheSpec

namespace MangoV4

open Lib Lib.Exec List Option Arith

/-- Changes the cached token balance; `bank` has to be the bank after the change. -/
def HealthCache.adjustTokenBalance {N : Type} [Arith N] [Doubles N] (c : HealthCache N)
    (bank : Health.Bank N) (change : N) : Exec (HealthCache N) := do
  let entryIndex ← c.tokenInfoIndex bank.tokenIndex
  let entry ← nth c.tokenInfos entryIndex
  let scaledAssetWeight ← bank.scaledInitAssetWeight (entry.prices.asset .init)
  let scaledLiabWeight ← bank.scaledInitLiabWeight (entry.prices.liab .init)
  let removedContribution ← Arith.neg change
  let balanceSpot ← Arith.sub entry.balanceSpot removedContribution
  return { c with tokenInfos := c.tokenInfos.set entryIndex { entry with
    initScaledAssetWeight := scaledAssetWeight
    initScaledLiabWeight := scaledLiabWeight
    balanceSpot := balanceSpot } }

namespace Health

variable {N : Type}

/-- What a bank is configured to; deposits, borrows and indices change. -/
structure Bank.SameConfig (bank bank' : Bank N) : Prop where
  initAssetWeight : bank'.initAssetWeight = bank.initAssetWeight
  initLiabWeight : bank'.initLiabWeight = bank.initLiabWeight
  maintAssetWeight : bank'.maintAssetWeight = bank.maintAssetWeight
  maintLiabWeight : bank'.maintLiabWeight = bank.maintLiabWeight
  shiftStart : bank'.maintWeightShiftStart = bank.maintWeightShiftStart
  shiftEnd : bank'.maintWeightShiftEnd = bank.maintWeightShiftEnd
  shiftDurationInv : bank'.maintWeightShiftDurationInv = bank.maintWeightShiftDurationInv
  shiftAssetTarget : bank'.maintWeightShiftAssetTarget = bank.maintWeightShiftAssetTarget
  shiftLiabTarget : bank'.maintWeightShiftLiabTarget = bank.maintWeightShiftLiabTarget
  stablePrice : bank'.stablePrice = bank.stablePrice

theorem Bank.SameConfig.maintWeights [Arith N] {bank bank' : Bank N} (h : bank.SameConfig bank')
    (nowTs : Nat) : bank'.maintWeights nowTs = bank.maintWeights nowTs := by
  unfold Bank.maintWeights
  rw [h.maintAssetWeight, h.maintLiabWeight, h.shiftStart, h.shiftEnd, h.shiftDurationInv,
    h.shiftAssetTarget, h.shiftLiabTarget]

/-- A change of the position at one place and of its bank; `after` and `found'`
    are the account and what the retriever finds after it. -/
structure TokenChange (N : Type) where
  before : Account N
  after : Account N
  found : AccountRetriever N
  found' : AccountRetriever N
  place : Nat
  position : TokenPosition N
  position' : TokenPosition N
  bank : Bank N
  bank' : Bank N
  price : N
  nowTs : Nat
  positionBefore : before.activeTokenPositions[place]? = some position
  positionAfter : after.activeTokenPositions = before.activeTokenPositions.set place position'
  sameToken : position'.tokenIndex = position.tokenIndex
  sameOrders : after.activeSerum3Orders = before.activeSerum3Orders
  samePerps : after.activePerpPositions = before.activePerpPositions
  bankBefore : found.bankAndOracle place position.tokenIndex = .ok (bank, price)
  bankAfter : found'.bankAndOracle place position.tokenIndex = .ok (bank', price)
  sameConfig : bank.SameConfig bank'
  otherBanks : ∀ i t, t ≠ position.tokenIndex → found'.bankAndOracle i t = found.bankAndOracle i t
  sameOpenOrders : found'.serumOo = found.serumOo
  sameMarkets : found'.perpMarketAndOraclePrice = found.perpMarketAndOraclePrice

namespace TokenChange

variable [Arith N] [Doubles N]

/-- The cache before the change, adjusted by the change of native tokens. -/
def adjusted (ch : TokenChange N) : Exec (HealthCache N) := do
  let cache ← newHealthCache ch.before ch.found ch.nowTs
  let native ← ch.position.native ch.bank
  let native' ← ch.position'.native ch.bank'
  cache.adjustTokenBalance ch.bank' (← Arith.sub native' native)

/-- A new cache after the change. -/
def rebuilt (ch : TokenChange N) : Exec (HealthCache N) :=
  newHealthCache ch.after ch.found' ch.nowTs

/-- The prices of the token. -/
def prices (ch : TokenChange N) : Prices N := ⟨ch.price, ch.bank.stablePrice⟩

/-- The asset weight is scaled the same at the asset price and at the liability price. -/
def WeightsAgree (ch : TokenChange N) : Prop :=
  ch.bank'.scaledInitAssetWeight (ch.prices.asset .init) =
    ch.bank'.scaledInitAssetWeight (ch.prices.liab .init)

end TokenChange

/-- The tokens at one place differ in the scaled weights and by `d` in the spot
    balance; the others are the same. -/
structure Shifted [Arith N] (u : TokenInfo N) (asset liab : N) (k : Nat) (d : ℚ)
    (l l' : List (TokenInfo N)) : Prop where
  intro ::
  entry : ∃ x y, l[k]? = some { u with balanceSpot := x } ∧
    l' = l.set k { u with
      initScaledAssetWeight := asset, initScaledLiabWeight := liab, balanceSpot := y } ∧
    Arith.toRat y = Arith.toRat x + d

namespace TokenChange

variable [Arith N] [Doubles N]

/-- The tokens before and after the change. -/
theorem shifted_tokens (ch : TokenChange N) {l l' : List (TokenInfo N)}
    (hl : Forall₂ (Loads ch.found ch.nowTs) ch.before.activeTokenPositions.zipIdx l)
    (hl' : Forall₂ (Loads ch.found' ch.nowTs) ch.after.activeTokenPositions.zipIdx l') :
    ∃ u asset liab native native', u.tokenIndex = ch.bank'.tokenIndex ∧ u.prices = ch.prices ∧
      ch.bank'.scaledInitAssetWeight (ch.prices.liab .init) = .ok asset ∧
      ch.bank'.scaledInitLiabWeight (ch.prices.liab .init) = .ok liab ∧
      ch.position.native ch.bank = .ok native ∧ ch.position'.native ch.bank' = .ok native' ∧
      Shifted u asset liab ch.place (toRat native' - toRat native) l l' := by
  have hafter : ch.after.activeTokenPositions[ch.place]? = some ch.position' := by
    rw [ch.positionAfter, List.getElem?_set_self (List.getElem?_eq_some_iff.mp ch.positionBefore).1]
  obtain ⟨u, hu, bank, price, hbank, hinfo⟩ := loads_at hl ch.positionBefore
  obtain ⟨u', hu', bank', price', hbank', hinfo'⟩ := loads_at hl' hafter
  obtain ⟨rfl, rfl⟩ := Prod.mk.inj (ok_unique hbank ch.bankBefore)
  rw [ch.sameToken] at hbank'
  obtain ⟨rfl, rfl⟩ := Prod.mk.inj (ok_unique hbank' ch.bankAfter)
  obtain ⟨native, maint, asset, liab, hnative, hmaint, -, -, rfl⟩ := tokenInfo_eq_ok hinfo
  obtain ⟨native', maint', asset', liab', hnative', hmaint', hasset, hliab, rfl⟩ :=
    tokenInfo_eq_ok hinfo'
  rw [ch.sameConfig.maintWeights, hmaint] at hmaint'
  obtain rfl := ok_inj hmaint'
  rw [ch.sameConfig.stablePrice] at hasset hliab hu'
  rw [ch.sameConfig.initAssetWeight, ch.sameConfig.initLiabWeight] at hu'
  have htoken : ch.bank'.tokenIndex = ch.bank.tokenIndex :=
    (ch.found'.bank_tokenIndex ch.bankAfter).trans (ch.found.bank_tokenIndex ch.bankBefore).symm
  rw [htoken] at hu'
  refine ⟨⟨ch.bank.tokenIndex, maint.1, ch.bank.initAssetWeight, asset, maint.2,
    ch.bank.initLiabWeight, liab, ch.prices, native⟩, asset', liab', native, native', htoken.symm,
    rfl, hasset, hliab, hnative, hnative', native, native', hu, ?_, by ring⟩
  -- the tokens at other places are loaded from the same accounts
  refine ext_getElem? fun i => ?_
  by_cases hi : ch.place = i
  · subst hi
    exact hu'.trans (List.getElem?_set_self (List.getElem?_eq_some_iff.mp hu).1).symm
  · rw [List.getElem?_set_ne hi]
    cases hposition : ch.before.activeTokenPositions[i]? with
    | none =>
      have hlength := getElem?_eq_none_iff.mp hposition
      rw [getElem?_eq_none, getElem?_eq_none]
      · rwa [← hl.length_eq, length_zipIdx]
      · rwa [← hl'.length_eq, length_zipIdx, ch.positionAfter, length_set]
    | some position =>
      have hposition' : ch.after.activeTokenPositions[i]? = some position := by
        rwa [ch.positionAfter, getElem?_set_ne hi]
      obtain ⟨info, hget, hloads⟩ := loads_at hl hposition
      obtain ⟨info', hget', bank, price, hbank, hinfo⟩ := loads_at hl' hposition'
      have hne : position.tokenIndex ≠ ch.position.tokenIndex :=
        ne_of_nodup_map ch.before.nodup hposition ch.positionBefore (Ne.symm hi)
      rw [ch.otherBanks i _ hne] at hbank
      rw [hget, hget', hloads.unique ⟨bank, price, hbank, hinfo⟩]

end TokenChange

/-! ## The loop over serum3 markets -/

section Serum3

variable [Arith N] {u : TokenInfo N} {asset liab : N} {k : Nat} {d : ℚ}

theorem Shifted.sameTokens {l l' : List (TokenInfo N)} (h : Shifted u asset liab k d l l') :
    SameTokens l l' := by
  obtain ⟨x, y, hl, rfl, -⟩ := h.entry
  exact sameTokens_set hl rfl rfl

variable [LawfulArith N]

/-- Free funds are added to both. -/
theorem Shifted.addSpot {l l' l₁ l₁' : List (TokenInfo N)} {i : Nat} {amount : N}
    (h : Shifted u asset liab k d l l') (hadd : addSpot l i amount = .ok l₁)
    (hadd' : addSpot l' i amount = .ok l₁') : Shifted u asset liab k d l₁ l₁' := by
  obtain ⟨x, y, hl, rfl, hxy⟩ := h.entry
  obtain ⟨info, z, hinfo, hz, rfl⟩ := addSpot_eq_ok hadd
  obtain ⟨info', z', hinfo', hz', rfl⟩ := addSpot_eq_ok hadd'
  have hk := (List.getElem?_eq_some_iff.mp hl).1
  by_cases hik : i = k
  · subst hik
    rw [List.getElem?_set_self hk] at hinfo'
    obtain rfl := some.inj (hinfo.symm.trans hl)
    obtain rfl := some.inj hinfo'
    refine ⟨z, z', List.getElem?_set_self hk, ?_, ?_⟩
    · rw [List.set_set, List.set_set]
    · rw [LawfulArith.toRat_add hz, LawfulArith.toRat_add hz', hxy]
      ring
  · rw [List.getElem?_set_ne (Ne.symm hik)] at hinfo'
    obtain rfl := some.inj (hinfo.symm.trans hinfo')
    obtain rfl := ok_unique hz hz'
    refine ⟨x, y, ?_, ?_, hxy⟩
    · rwa [List.getElem?_set_ne hik]
    · exact List.set_comm _ _ (Ne.symm hik)

variable [Doubles N] {r : AccountRetriever N}

theorem Shifted.addSerum3 {s : Serum3Orders} {oo : OpenOrders} {base quote : Nat}
    {st st₁ st' st₁' : List (TokenInfo N) × List (Serum3Info N)}
    (hst : Shifted u asset liab k d st.1 st'.1) (hmarkets : st.2 = st'.2)
    (h : addSerum3 s oo base quote st = .ok st₁) (h' : addSerum3 s oo base quote st' = .ok st₁') :
    Shifted u asset liab k d st₁.1 st₁'.1 ∧ st₁.2 = st₁'.2 := by
  obtain ⟨baseFree, hbaseFree, h⟩ := of_bind h
  obtain ⟨quoteFree, hquoteFree, h⟩ := of_bind h
  obtain ⟨infos, hinfos, h⟩ := of_bind h
  obtain ⟨infos₁, hinfos₁, h⟩ := of_bind h
  obtain ⟨info, hinfo, h⟩ := of_bind h
  unfold Health.addSerum3 at h'
  rw [hbaseFree, ok_bind, hquoteFree, ok_bind] at h'
  obtain ⟨infos', hinfos', h'⟩ := of_bind h'
  obtain ⟨infos₁', hinfos₁', h'⟩ := of_bind h'
  rw [hinfo, ok_bind] at h'
  obtain rfl := ok_inj h
  obtain rfl := ok_inj h'
  exact ⟨(hst.addSpot hinfos hinfos').addSpot hinfos₁ hinfos₁', by rw [hmarkets]⟩

/-- The markets are the same, and so is what they add. -/
theorem loadSerum3_shifted {r' : AccountRetriever N} (hoo : r'.serumOo = r.serumOo)
    {x : Serum3Orders × Nat} {st st₁ st' st₁' : List (TokenInfo N) × List (Serum3Info N)}
    (hst : Shifted u asset liab k d st.1 st'.1 ∧ st.2 = st'.2)
    (h : loadSerum3 r false st x = .ok st₁) (h' : loadSerum3 r' false st' x = .ok st₁') :
    Shifted u asset liab k d st₁.1 st₁'.1 ∧ st₁.2 = st₁'.2 := by
  obtain ⟨oo, base, quote, ho, hbase, hquote, h⟩ := loadSerum3_eq_ok h
  obtain ⟨oo', base', quote', ho', hbase', hquote', h'⟩ := loadSerum3_eq_ok h'
  have hfind : findTokenInfoIndex st.1 = findTokenInfoIndex st'.1 :=
    funext hst.1.sameTokens.findIdx?_eq
  rw [hoo] at ho'
  rw [← hfind] at hbase' hquote'
  obtain rfl := ok_unique ho ho'
  obtain rfl := some.inj (hbase.symm.trans hbase')
  obtain rfl := some.inj (hquote.symm.trans hquote')
  exact hst.1.addSerum3 hst.2 h h'

end Serum3

end Health

/-- Another scaled asset weight for one token. -/
def HealthCache.withAssetWeight {N : Type} (c : HealthCache N) (k : Nat) (weight : N) :
    HealthCache N :=
  { c with tokenInfos := c.tokenInfos.modify k fun t => { t with initScaledAssetWeight := weight } }

theorem forall₂_modify {α : Type} {R : α → α → Prop} {f : α → α} (hsame : ∀ a, R a a)
    (hchange : ∀ a, R a (f a)) (l : List α) (i : Nat) : Forall₂ R l (l.modify i f) := by
  induction l generalizing i with
  | nil =>
    rw [modify_nil]
    exact .nil
  | cons a l ih =>
    cases i with
    | zero => exact .cons (hchange a) (forall₂_same.mpr fun b _ => hsame b)
    | succ i => exact .cons (hsame a) (ih i)

theorem modify_set {α : Type} (l : List α) (i : Nat) (a : α) (f : α → α) :
    (l.set i a).modify i f = l.set i (f a) := by
  refine ext_getElem? fun j => ?_
  rw [getElem?_modify, getElem?_set, getElem?_set]
  by_cases hij : i = j
  · split
    · simp [hij]
    · simp
  · simp [hij]

namespace Health.TokenChange

variable {N : Type} [Arith N] [LawfulArith N] [Doubles N] (ch : TokenChange N)

/-- The adjusted cache is the new one up to the scaled asset weight. -/
theorem adjusted_eq {c c' : HealthCache N} (h : ch.adjusted = .ok c) (h' : ch.rebuilt = .ok c') :
    ∃ asset asset' info, ch.bank'.scaledInitAssetWeight (ch.prices.asset .init) = .ok asset ∧
      ch.bank'.scaledInitAssetWeight (ch.prices.liab .init) = .ok asset' ∧
      c'.tokenInfos[ch.place]? = some info ∧ info.initScaledAssetWeight = asset' ∧
      info.prices = ch.prices ∧ c = c'.withAssetWeight ch.place asset := by
  obtain ⟨cache, hcache, h⟩ := of_bind h
  obtain ⟨infos, hinfos, hserum3, hperps⟩ := newHealthCache_eq_ok hcache
  obtain ⟨infos', hinfos', hserum3', hperps'⟩ := newHealthCache_eq_ok h'
  obtain ⟨u, asset', liab, native, native', htoken, hprices, hasset', hliab, hnative, hnative',
    hshifted⟩ := ch.shifted_tokens hinfos hinfos'
  rw [hnative, ok_bind, hnative', ok_bind] at h
  obtain ⟨change, hchange, h⟩ := of_bind h
  rw [ch.sameOrders] at hserum3'
  rw [ch.samePerps, loadPerp_congr ch.sameMarkets cache.tokenInfos] at hperps'
  have hperpsEq := ok_unique hperps hperps'
  have hloop : Shifted u asset' liab ch.place (toRat native' - toRat native)
      cache.tokenInfos c'.tokenInfos ∧ cache.serum3Infos = c'.serum3Infos := by
    refine foldlM_relates (R := fun st st' => Shifted u asset' liab ch.place
      (toRat native' - toRat native) st.1 st'.1 ∧ st.2 = st'.2) ?_ ?_ hserum3 hserum3'
    · intro x _ st st₁ st' st₁' hst hstep hstep'
      exact loadSerum3_shifted ch.sameOpenOrders hst hstep hstep'
    · exact ⟨hshifted, rfl⟩
  obtain ⟨⟨x, y, hx, htokens', hxy⟩, hmarkets⟩ := hloop
  have hplace := (List.getElem?_eq_some_iff.mp hx).1
  have hnodup : (cache.tokenInfos.map TokenInfo.tokenIndex).Nodup :=
    tokenIndices_newHealthCache hcache ▸ ch.before.nodup
  -- the adjusted entry is the one at the place of the position
  obtain ⟨k, hk, h⟩ := of_bind h
  obtain rfl : k = ch.place := by
    have hfind := findIdx?_of_nodup hnodup hx
    simp only [htoken] at hfind
    rw [HealthCache.tokenInfoIndex, hfind] at hk
    exact (ok_inj hk).symm
  obtain ⟨entry, hentry, h⟩ := of_bind h
  obtain rfl := some.inj ((nth_eq_ok.mp hentry).symm.trans hx)
  obtain ⟨asset, hasset, h⟩ := of_bind h
  obtain ⟨liab', hliab', h⟩ := of_bind h
  obtain ⟨removed, hremoved, h⟩ := of_bind h
  obtain ⟨z, hz, h⟩ := of_bind h
  simp only [hprices] at hasset hliab'
  obtain rfl := ok_unique hliab hliab'
  obtain rfl : z = y := by
    apply LawfulArith.toRat_injective
    rw [LawfulArith.toRat_sub hz, LawfulArith.toRat_neg hremoved, LawfulArith.toRat_sub hchange, hxy]
    ring
  have hinfo : c'.tokenInfos[ch.place]? = some { u with
      initScaledAssetWeight := asset', initScaledLiabWeight := liab, balanceSpot := z } := by
    rw [htokens', List.getElem?_set_self hplace]
  refine ⟨asset, asset', _, hasset, hasset', hinfo, rfl, hprices, ?_⟩
  rw [← ok_inj h, HealthCache.withAssetWeight, htokens', ← hmarkets, ← hperpsEq, modify_set]

end Health.TokenChange

/-! ## Health with another asset weight -/

namespace HealthCache

section Weight

variable {N : Type} (c : HealthCache N) (k : Nat) (weight : N)

theorem getElem?_withAssetWeight (i : Nat) : (c.withAssetWeight k weight).tokenInfos[i]? =
    if k = i then c.tokenInfos[i]?.map fun t => { t with initScaledAssetWeight := weight }
    else c.tokenInfos[i]? := by
  by_cases hi : k = i
  · subst hi
    rw [if_pos rfl]
    exact getElem?_modify_eq ..
  · rw [if_neg hi]
    exact getElem?_modify_ne _ _ hi

theorem withAssetWeight_self {info : TokenInfo N} (h : c.tokenInfos[k]? = some info) :
    c.withAssetWeight k info.initScaledAssetWeight = c := by
  have htokens : (c.withAssetWeight k info.initScaledAssetWeight).tokenInfos = c.tokenInfos := by
    refine ext_getElem? fun i => ?_
    rw [getElem?_withAssetWeight]
    by_cases hi : k = i
    · subst hi
      rw [if_pos rfl, h]
      rfl
    · rw [if_neg hi]
  exact congrArg (fun infos => ({ c with tokenInfos := infos } : HealthCache N)) htokens

theorem sameFor_withAssetWeight {T : HealthType} (hT : T ≠ .init) :
    Forall₂ (TokenInfo.SameFor T) c.tokenInfos (c.withAssetWeight k weight).tokenInfos := by
  refine forall₂_modify (fun t => ⟨rfl, rfl, rfl, rfl, rfl⟩) (fun t => ⟨rfl, rfl, rfl, ?_, rfl⟩) _ k
  cases T with
  | init => exact absurd rfl hT
  | maint => rfl
  | liquidationEnd => rfl

end Weight

variable {c : HealthCache ℚ} {k : Nat} {weight : ℚ} {info : TokenInfo ℚ}

/-- Only the asset weight of the token is another one. -/
theorem weights_withAssetWeight (h : c.tokenInfos[k]? = some info) (i : Nat) :
    (c.withAssetWeight k weight).weights .init i = if k = i then
      ⟨weight * info.prices.asset .init, (c.weights .init k).liab⟩ else c.weights .init i := by
  unfold weights
  rw [getElem?_withAssetWeight]
  by_cases hi : k = i
  · subst hi
    rw [if_pos rfl, if_pos rfl, h]
    rfl
  · rw [if_neg hi, if_neg hi]

/-- Initial health stays the same only if the weight does, or if nothing of the
    token counts as an asset. -/
theorem health_withAssetWeight (hc : c.Priced) (hk : c.tokenInfos[k]? = some info)
    {balances tokenMaxReserved : List ℚ} {reserved : List (Serum3Reserved ℚ)}
    (hbalances : c.effectiveTokenBalances .init = .ok balances)
    (hreserved : c.computeSerum3Reservations .init = .ok (tokenMaxReserved, reserved)) :
    (c.withAssetWeight k weight).health .init = c.health .init ↔
      weight = info.initScaledAssetWeight ∨ (balances.getD k 0 ≤ 0 ∧ ∀ p ∈ c.pendings reserved,
        p.gain ((c.withAssetWeight k weight).weights .init)
            (fun i => balances.getD i 0 + tokenMaxReserved.getD i 0) =
          p.gain (c.weights .init) fun i => balances.getD i 0 + tokenMaxReserved.getD i 0) := by
  have hsame := c.sameFor_withAssetWeight k weight (T := .maint) nofun
  have htokens := sameTokens_of_sameFor hsame
  have hlength := htokens.length_eq
  have hbalances' : (c.withAssetWeight k weight).effectiveTokenBalances .init = .ok balances := by
    rw [← effectiveTokenBalances_congr hsame rfl]
    exact hbalances
  have hreserved' : (c.withAssetWeight k weight).computeSerum3Reservations .init =
      .ok (tokenMaxReserved, reserved) := by
    rw [← computeSerum3Reservations_congr htokens rfl]
    exact hreserved
  have hhealth' := health_eq_estimate (hc.congr htokens rfl) hbalances' hreserved'
  rw [hhealth', health_eq_estimate hc hbalances hreserved, ← hlength]
  have hprice := (hc.tokens info (mem_of_getElem? hk)).asset_pos .init
  have hasset : ((c.withAssetWeight k weight).weights .init k).asset = (c.weights .init k).asset ↔
      weight = info.initScaledAssetWeight := by
    rw [weights_withAssetWeight hk, if_pos rfl, weights_of_tokenInfo hk]
    exact ⟨mul_right_cancel₀ hprice.ne', fun h => congrArg (· * _) h⟩
  rw [Except.ok.injEq, ← hasset]
  refine estimate_eq_iff_of_asset (fun i hi => ?_) ?_
    (Finset.mem_range.mpr (List.getElem?_eq_some_iff.mp hk).1)
    (hc.within (computeSerum3Reservations_eq_ok hreserved).1)
  · rw [weights_withAssetWeight hk, if_neg (Ne.symm hi)]
  · rw [weights_withAssetWeight hk, if_pos rfl]

end HealthCache

namespace Health

/-- Adjusting a cache gives the same health as building a new one as long as the
    asset weight is scaled the same at the asset price and at the liability
    price.  In exact arithmetic this is the only way, unless nothing of the token
    counts as an asset. -/
theorem adjusted_health {N : Type} [Arith N] [LawfulArith N] [Doubles N] :
    (∀ (ch : TokenChange N) {c c' : HealthCache N}, ch.adjusted = .ok c → ch.rebuilt = .ok c' →
      ch.WeightsAgree → ∀ T, c.health T = c'.health T) ∧
    ∀ (ch : TokenChange ℚ) {c c' : HealthCache ℚ}, ch.adjusted = .ok c → ch.rebuilt = .ok c' →
      c'.Priced → ∀ {balances tokenMaxReserved : List ℚ} {reserved : List (Serum3Reserved ℚ)},
      c'.effectiveTokenBalances .init = .ok balances →
      c'.computeSerum3Reservations .init = .ok (tokenMaxReserved, reserved) →
      ((∀ T, c.health T = c'.health T) ↔ ch.WeightsAgree ∨ (balances.getD ch.place 0 ≤ 0 ∧
        ∀ p ∈ c'.pendings reserved,
          p.gain (c.weights .init) (fun i => balances.getD i 0 + tokenMaxReserved.getD i 0) =
            p.gain (c'.weights .init) fun i => balances.getD i 0 + tokenMaxReserved.getD i 0)) := by
  refine ⟨?_, ?_⟩
  · intro ch c c' h h' hagree T
    obtain ⟨asset, asset', info, hasset, hasset', hinfo, hweight, -, rfl⟩ := ch.adjusted_eq h h'
    obtain rfl := ok_inj (hasset.symm.trans (hagree.trans hasset'))
    rw [← hweight, HealthCache.withAssetWeight_self _ _ hinfo]
  · intro ch c c' h h' hpriced balances tokenMaxReserved reserved hbalances hreserved
    obtain ⟨asset, asset', info, hasset, hasset', hinfo, hweight, -, rfl⟩ := ch.adjusted_eq h h'
    have hagree : ch.WeightsAgree ↔ asset = info.initScaledAssetWeight := by
      rw [TokenChange.WeightsAgree, hasset, hasset', Except.ok.injEq, hweight]
    rw [hagree, ← HealthCache.health_withAssetWeight hpriced hinfo hbalances hreserved]
    refine ⟨fun hall => hall .init, fun hinit T => ?_⟩
    by_cases hT : T = .init
    · rw [hT, hinit]
    · exact (HealthCache.health_congr
        (HealthCache.sameFor_withAssetWeight c' ch.place asset hT) rfl rfl).symm

/-- A bank whose asset weight is scaled down from a value of 100 on. -/
def Bank.scaledFrom100 (deposits : ℚ) : Bank ℚ where
  tokenIndex := 0
  depositIndex := 1
  borrowIndex := 1
  indexedDeposits := deposits
  indexedBorrows := 0
  potentialSerumTokens := 0
  initAssetWeight := 1
  initLiabWeight := 1
  maintAssetWeight := 1
  maintLiabWeight := 1
  maintWeightShiftStart := 0
  maintWeightShiftEnd := 0
  maintWeightShiftDurationInv := 0
  maintWeightShiftAssetTarget := 0
  maintWeightShiftLiabTarget := 0
  depositWeightScaleStartQuote := 100
  borrowWeightScaleStartQuote := F64_MAX
  stablePrice := 2

/-- An account with one token position. -/
def Account.oneToken (indexedPosition : ℚ) : Account ℚ where
  activeTokenPositions := [⟨0, indexedPosition⟩]
  activeSerum3Orders := []
  activePerpPositions := []
  nodup := List.nodup_singleton _

/-- Only one bank is passed, with an oracle price of one. -/
def AccountRetriever.onlyBank (bank : Bank ℚ) : AccountRetriever ℚ where
  availableBanks := .ok [bank.tokenIndex]
  bankAndOracle _ t := if bank.tokenIndex = t then .ok (bank, 1) else fail .invalidBank
  serumOo _ _ := fail .someError
  perpMarketAndOraclePrice _ _ := fail .someError
  bank_tokenIndex := by
    intro i t b p h
    split at h
    · next heq => exact (ok_inj₂ h).1 ▸ heq
    · cases h

/-- The only depositor of a bank changes the deposit. -/
def TokenChange.onlyDeposit (deposits deposits' : ℚ) : TokenChange ℚ where
  before := .oneToken deposits
  after := .oneToken deposits'
  found := .onlyBank (.scaledFrom100 deposits)
  found' := .onlyBank (.scaledFrom100 deposits')
  place := 0
  position := ⟨0, deposits⟩
  position' := ⟨0, deposits'⟩
  bank := .scaledFrom100 deposits
  bank' := .scaledFrom100 deposits'
  price := 1
  nowTs := 0
  positionBefore := rfl
  positionAfter := rfl
  sameToken := rfl
  sameOrders := rfl
  samePerps := rfl
  bankBefore := rfl
  bankAfter := rfl
  sameConfig := ⟨rfl, rfl, rfl, rfl, rfl, rfl, rfl, rfl, rfl, rfl⟩
  otherBanks := fun _ _ h => (if_neg (Ne.symm h)).trans (if_neg (Ne.symm h)).symm
  sameOpenOrders := rfl
  sameMarkets := rfl

/-- Deposits of 200 at an oracle price of 1 and a stable price of 2: the weight is
    halved by adjusting, and quartered in a new cache. -/
theorem adjusted_ne_rebuilt :
    ((TokenChange.onlyDeposit 100 200).adjusted >>= fun c => c.health .init) = .ok 100 ∧
      ((TokenChange.onlyDeposit 100 200).rebuilt >>= fun c => c.health .init) = .ok 50 :=
  ⟨by decide +kernel, by decide +kernel⟩

/-- Deposits of 40 are below 100 at both prices. -/
theorem onlyDeposit_adjusted_health :
    ∃ c c', (TokenChange.onlyDeposit 30 40).adjusted = .ok c ∧
      (TokenChange.onlyDeposit 30 40).rebuilt = .ok c' ∧ ∀ T, c.health T = c'.health T := by
  have hadjusted : (TokenChange.onlyDeposit 30 40).adjusted =
      .ok ⟨[.plain 0 1 1 ⟨1, 2⟩ 40], [], []⟩ := by decide +kernel
  have hrebuilt : (TokenChange.onlyDeposit 30 40).rebuilt =
      .ok ⟨[.plain 0 1 1 ⟨1, 2⟩ 40], [], []⟩ := by decide +kernel
  have hagree : (TokenChange.onlyDeposit 30 40).WeightsAgree := by
    unfold TokenChange.WeightsAgree
    decide +kernel
  exact ⟨_, _, hadjusted, hrebuilt, adjusted_health.1 _ hadjusted hrebuilt hagree⟩

end Health

end MangoV4
