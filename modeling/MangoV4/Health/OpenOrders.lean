/-
  MangoV4.Health.OpenOrders

  Health as a worst case for the open orders on serum3 markets.

  Every market may end up with all of its reserved funds as base tokens or with
  all of them as quote tokens, independently of the other markets.  Health is
  at most what is left after any such outcome: it values each market as if its
  funds came last, where they count the least.
-/

import MangoV4.Health.Exact

namespace MangoV4

open Lib Lib.Exec List Finset Serum3Info

namespace HealthCache

/-! ## Changing spot balances -/

/-- The cache with other spot balances. -/
def withSpot (c : HealthCache ℚ) (spot : Nat → ℚ) : HealthCache ℚ :=
  { c with tokenInfos := c.tokenInfos.mapIdx fun i t => { t with balanceSpot := spot i } }

variable {c : HealthCache ℚ} {spot : Nat → ℚ} {T : HealthType}

@[simp] theorem length_withSpot :
    (c.withSpot spot).tokenInfos.length = c.tokenInfos.length := length_mapIdx

theorem getElem?_withSpot (i : Nat) : (c.withSpot spot).tokenInfos[i]? =
    c.tokenInfos[i]?.map fun t => { t with balanceSpot := spot i } := getElem?_mapIdx

theorem sameTokens_withSpot : SameTokens c.tokenInfos (c.withSpot spot).tokenInfos := by
  refine ext_getElem? fun i => ?_
  rw [getElem?_map, getElem?_map, getElem?_withSpot]
  cases c.tokenInfos[i]? <;> rfl

theorem weights_withSpot (spot : Nat → ℚ) : (c.withSpot spot).weights T = c.weights T := by
  funext i
  unfold weights
  rw [getElem?_withSpot]
  cases c.tokenInfos[i]? <;> rfl

theorem spotAt_withSpot {i : Nat} (h : i < c.tokenInfos.length) :
    (c.withSpot spot).spotAt i = spot i := by
  unfold spotAt
  rw [getElem?_withSpot, getElem?_eq_getElem h]
  rfl

/-! ## Contributions at prices that may be zero -/

end HealthCache

/-- Prices are not negative. -/
@[mk_iff]
structure Prices.Nonneg (p : Prices ℚ) : Prop where
  oracle : 0 ≤ p.oracle
  stable : 0 ≤ p.stable

instance (p : Prices ℚ) : Decidable p.Nonneg := decidable_of_iff' _ p.nonneg_iff

theorem Prices.Nonneg.asset_nonneg {p : Prices ℚ} (h : p.Nonneg) (T : HealthType) :
    0 ≤ p.asset T := by
  cases T with
  | init => exact le_min h.oracle h.stable
  | maint => exact h.oracle
  | liquidationEnd => exact h.oracle

/-- Nothing gains nothing, and units of an asset that is worth nothing only fill
    up what is missing. -/
theorem TokenInfo.gain_nonneg {t : TokenInfo ℚ} {T : HealthType} {r : ℚ}
    (hle : (t.weights T).asset ≤ (t.weights T).liab) (hr : 0 ≤ r)
    (hzero : r = 0 ∨ t.prices.asset T = 0) (top : ℚ) : 0 ≤ (t.weights T).gain top r := by
  rcases hzero with rfl | hprice
  · rw [Weights.gain_zero]
  · have hasset : (t.weights T).asset = 0 := by
      show t.assetWeight T * t.prices.asset T = 0
      rw [hprice, mul_zero]
    exact Weights.gain_nonneg ⟨hasset.ge, hle⟩ hr top

/-- If an amount and what the other amount is converted to are zero, then the
    other amount is zero or has no price. -/
theorem convertAt_zero_cases {x y p q p' q' e e' : ℚ} (hx : 0 ≤ x) (hy : 0 ≤ y) (hp : 0 ≤ p)
    (hq : 0 < q) (he : 0 ≤ e) (hq' : 0 < q') (he' : 0 ≤ e') (h : x + convertAt y p q e = 0) :
    y + convertAt x p' q' e' = 0 ∨ p = 0 := by
  have hnonneg := convertAt_nonneg hy hp hq he
  have hx0 : x = 0 := by linarith
  have hconvert : convertAt y p q e = 0 := by linarith
  rcases (convertAt_eq_zero_iff hq he).mp hconvert with hy0 | hp0
  · left
    rw [hy0, (convertAt_eq_zero_iff hq' he').mpr (Or.inl hx0), add_zero]
  · exact Or.inr hp0

/-- A conversion needs a price to divide by. -/
theorem Serum3Info.liab_ne_zero_of_asBase {s : Serum3Info ℚ} {T : HealthType}
    {quoteInfo baseInfo : TokenInfo ℚ} {v : ℚ}
    (h : s.allReservedAsBase T quoteInfo baseInfo = .ok v) : baseInfo.prices.liab T ≠ 0 := by
  intro hzero
  unfold allReservedAsBase at h
  simp only [hzero] at h
  cases h

theorem Serum3Info.liab_ne_zero_of_asQuote {s : Serum3Info ℚ} {T : HealthType}
    {quoteInfo baseInfo : TokenInfo ℚ} {v : ℚ}
    (h : s.allReservedAsQuote T quoteInfo baseInfo = .ok v) : quoteInfo.prices.liab T ≠ 0 := by
  intro hzero
  unfold allReservedAsQuote at h
  simp only [hzero] at h
  cases h

namespace HealthCache

section Contribution

variable {c : HealthCache ℚ} {T : HealthType} {info : Serum3Info ℚ} {r : Serum3Reserved ℚ}

/-- Reserved amounts are not negative, and if one of them is zero then so is the
    other one or the asset price of its token. -/
structure Amounts (T : HealthType) (r : Serum3Reserved ℚ) (quoteInfo baseInfo : TokenInfo ℚ) :
    Prop where
  asBase_nonneg : 0 ≤ r.allReservedAsBase
  asQuote_nonneg : 0 ≤ r.allReservedAsQuote
  of_asBase : r.allReservedAsBase = 0 → r.allReservedAsQuote = 0 ∨ quoteInfo.prices.asset T = 0
  of_asQuote : r.allReservedAsQuote = 0 → r.allReservedAsBase = 0 ∨ baseInfo.prices.asset T = 0

theorem Converts.amounts (hprices : ∀ t ∈ c.tokenInfos, t.prices.Nonneg) (hinfo : info.Nonneg)
    (h : c.Converts T info r) :
    ∃ quoteInfo baseInfo, c.tokenInfos[info.quoteInfoIndex]? = some quoteInfo ∧
      c.tokenInfos[info.baseInfoIndex]? = some baseInfo ∧ Amounts T r quoteInfo baseInfo := by
  obtain ⟨quoteInfo, baseInfo, hquote, hbase, hasBase, hasQuote⟩ := h.tokens
  have hquotePrices := hprices _ (mem_of_getElem? hquote)
  have hbasePrices := hprices _ (mem_of_getElem? hbase)
  have hquoteLiab : 0 < quoteInfo.prices.liab T :=
    lt_of_le_of_ne ((hquotePrices.asset_nonneg T).trans (quoteInfo.prices.asset_le_liab T))
      (liab_ne_zero_of_asQuote hasQuote).symm
  have hbaseLiab : 0 < baseInfo.prices.liab T :=
    lt_of_le_of_ne ((hbasePrices.asset_nonneg T).trans (baseInfo.prices.asset_le_liab T))
      (liab_ne_zero_of_asBase hasBase).symm
  rw [allReservedAsBase_rat hbaseLiab.ne'] at hasBase
  rw [allReservedAsQuote_rat hquoteLiab.ne'] at hasQuote
  have hasBase := ok_inj hasBase
  have hasQuote := ok_inj hasQuote
  refine ⟨quoteInfo, baseInfo, hquote, hbase, ⟨?_, ?_, ?_, ?_⟩⟩
  · rw [← hasBase]
    exact add_nonneg hinfo.base
      (convertAt_nonneg hinfo.quote (hquotePrices.asset_nonneg T) hbaseLiab hinfo.bid)
  · rw [← hasQuote]
    exact add_nonneg hinfo.quote
      (convertAt_nonneg hinfo.base (hbasePrices.asset_nonneg T) hquoteLiab hinfo.ask)
  · rw [← hasBase, ← hasQuote]
    exact convertAt_zero_cases hinfo.base hinfo.quote (hquotePrices.asset_nonneg T) hbaseLiab
      hinfo.bid hquoteLiab hinfo.ask
  · rw [← hasBase, ← hasQuote]
    exact convertAt_zero_cases hinfo.quote hinfo.base (hbasePrices.asset_nonneg T) hquoteLiab
      hinfo.ask hbaseLiab hinfo.bid

/-- A market contributes at most the smaller gain of its two outcomes. -/
theorem Converts.contribution_le (hprices : ∀ t ∈ c.tokenInfos, t.prices.Nonneg)
    (hle : ∀ t ∈ c.tokenInfos, (t.weights T).asset ≤ (t.weights T).liab) (hinfo : info.Nonneg)
    (h : c.Converts T info r) {balances tokenMaxReserved : List ℚ} {v : ℚ}
    (hbalances : balances.length = c.tokenInfos.length)
    (hreserved : tokenMaxReserved.length = c.tokenInfos.length)
    (hv : info.healthContribution T c.tokenInfos balances tokenMaxReserved r = .ok v) :
    v ≤ (info.pending r).gain (c.weights T)
      fun i => balances.getD i 0 + tokenMaxReserved.getD i 0 := by
  obtain ⟨quoteInfo, baseInfo, hquote, hbase, hamounts⟩ := h.amounts hprices hinfo
  rw [healthContribution_eq hquote hbase hamounts.asBase_nonneg hamounts.asQuote_nonneg hbalances
    hreserved] at hv
  split at hv
  · rename_i hzero
    -- nothing is counted although one of the two amounts may not be zero
    obtain rfl := ok_inj hv
    have hboth : (r.allReservedAsBase = 0 ∨ baseInfo.prices.asset T = 0) ∧
        (r.allReservedAsQuote = 0 ∨ quoteInfo.prices.asset T = 0) := by
      rcases hzero with hzero | hzero
      · exact ⟨Or.inl hzero, hamounts.of_asBase hzero⟩
      · exact ⟨hamounts.of_asQuote hzero, Or.inl hzero⟩
    refine le_min ?_ ?_
    · show 0 ≤ (c.weights T info.baseInfoIndex).gain _ r.allReservedAsBase
      rw [weights_of_tokenInfo hbase]
      exact TokenInfo.gain_nonneg (hle _ (mem_of_getElem? hbase)) hamounts.asBase_nonneg
        hboth.1 _
    · show 0 ≤ (c.weights T info.quoteInfoIndex).gain _ r.allReservedAsQuote
      rw [weights_of_tokenInfo hquote]
      exact TokenInfo.gain_nonneg (hle _ (mem_of_getElem? hquote)) hamounts.asQuote_nonneg
        hboth.2 _
  · exact (ok_inj hv).ge

theorem Converts.within (hprices : ∀ t ∈ c.tokenInfos, t.prices.Nonneg) (hinfo : info.Nonneg)
    (h : c.Converts T info r) : (info.pending r).Within (range c.tokenInfos.length) := by
  obtain ⟨quoteInfo, baseInfo, hquote, hbase, hamounts⟩ := h.amounts hprices hinfo
  exact ⟨Finset.mem_range.mpr (List.getElem?_eq_some_iff.mp hbase).1,
    Finset.mem_range.mpr (List.getElem?_eq_some_iff.mp hquote).1, hamounts.asBase_nonneg,
    hamounts.asQuote_nonneg⟩

end Contribution

/-! ## Outcomes -/

variable {c : HealthCache ℚ} {T : HealthType}

/-- No open orders are left: on the `n`-th market everything was turned into base
    tokens if `toBase n`, and into quote tokens otherwise. -/
def resolved (c : HealthCache ℚ) (reserved : List (Serum3Reserved ℚ)) (toBase : Nat → Bool) :
    HealthCache ℚ :=
  { c.withSpot (resolve c.spotAt (c.pendings reserved) toBase) with serum3Infos := [] }

/-- Without open orders health is the value of the balances. -/
theorem health_resolved {reserved : List (Serum3Reserved ℚ)} {balances : List ℚ}
    (hbalances : c.effectiveTokenBalances T = .ok balances) (toBase : Nat → Bool) :
    (c.resolved reserved toBase).health T = .ok (totalValue (range c.tokenInfos.length)
      (c.weights T) (resolve (fun i => balances.getD i 0) (c.pendings reserved) toBase)) := by
  obtain ⟨l, hl, hentries⟩ := perps_of_effectiveTokenBalances hbalances
  have hperps : (c.resolved reserved toBase).perpBalances T false = .ok l :=
    (perpBalances_congr sameTokens_withSpot rfl).symm.trans hl
  obtain ⟨balances', hbalances', hentries'⟩ := effectiveTokenBalances_of_perps hperps
  refine health_eq_ok.mpr ⟨balances', _, [], [], hbalances', rfl, rfl, ?_⟩
  rw [sum_nil, add_zero]
  have hlength : (c.resolved reserved toBase).tokenInfos.length = c.tokenInfos.length :=
    length_withSpot
  have hweights : (c.resolved reserved toBase).weights T = c.weights T :=
    weights_withSpot (resolve c.spotAt (c.pendings reserved) toBase)
  rw [hlength, hweights]
  refine sum_congr rfl fun i hi => ?_
  have hspot : (c.resolved reserved toBase).spotAt i =
      resolve c.spotAt (c.pendings reserved) toBase i := spotAt_withSpot (Finset.mem_range.mp hi)
  show _ = (c.weights T i).value (balances'.getD i 0)
  rw [hentries', hspot, funext hentries, resolve_add]

/-- What all markets contribute is at most the sum of their gains. -/
theorem health_le_estimate (hprices : ∀ t ∈ c.tokenInfos, t.prices.Nonneg)
    (hmarkets : ∀ s ∈ c.serum3Infos, s.Nonneg)
    (hle : ∀ t ∈ c.tokenInfos, (t.weights T).asset ≤ (t.weights T).liab)
    {balances tokenMaxReserved : List ℚ} {reserved : List (Serum3Reserved ℚ)} {x : ℚ}
    (hbalances : c.effectiveTokenBalances T = .ok balances)
    (hreserved : c.computeSerum3Reservations T = .ok (tokenMaxReserved, reserved))
    (hx : c.health T = .ok x) :
    x ≤ estimate (range c.tokenInfos.length) (c.weights T)
      (fun i => balances.getD i 0 + tokenMaxReserved.getD i 0) (fun i => balances.getD i 0)
      (c.pendings reserved) := by
  obtain ⟨b, m, r, contributions, hb, hr, hcontributions, rfl⟩ := health_eq_ok.mp hx
  obtain rfl := ok_unique hb hbalances
  obtain ⟨rfl, rfl⟩ := Prod.mk.inj (ok_unique hr hreserved)
  obtain ⟨hconverts, hlength, -⟩ := computeSerum3Reservations_eq_ok hr
  refine add_le_add_right ?_ _
  rw [pendings, map_zipWith, ← map_uncurry_zip_eq_zipWith]
  refine Forall₂.sum_le_sum (forall₂_map_right_iff.mpr ?_)
  refine forall₂_iff_zip.mpr ⟨(mapM_eq_ok.mp hcontributions).length_eq.symm, ?_⟩
  intro v y hvy
  have hy : y ∈ c.serum3Infos.zip r := (of_mem_zip hvy).2
  have hv := (forall₂_iff_zip.mp (mapM_eq_ok.mp hcontributions).flip).2 hvy
  exact ((forall₂_iff_zip.mp hconverts).2 hy).contribution_le hprices hle
    (hmarkets _ (of_mem_zip hy).1) (effectiveTokenBalances_length hb) hlength hv

/-- Health is at most what is left after any outcome of the open orders. -/
theorem health_le_resolved (hprices : ∀ t ∈ c.tokenInfos, t.prices.Nonneg)
    (hmarkets : ∀ s ∈ c.serum3Infos, s.Nonneg)
    (hle : ∀ t ∈ c.tokenInfos, (t.weights T).asset ≤ (t.weights T).liab)
    {tokenMaxReserved : List ℚ} {reserved : List (Serum3Reserved ℚ)} {x : ℚ}
    (hreserved : c.computeSerum3Reservations T = .ok (tokenMaxReserved, reserved))
    (hx : c.health T = .ok x) (toBase : Nat → Bool) :
    ∃ y, (c.resolved reserved toBase).health T = .ok y ∧ x ≤ y := by
  obtain ⟨balances, hbalances, -⟩ := of_bind hx
  obtain ⟨hconverts, -, htop⟩ := computeSerum3Reservations_eq_ok hreserved
  refine ⟨_, health_resolved hbalances toBase, ?_⟩
  have hweights : ∀ i ∈ Finset.range c.tokenInfos.length,
      (c.weights T i).asset ≤ (c.weights T i).liab := by
    intro i hi
    obtain ⟨t, ht, hweights⟩ := c.weights_of_mem_range (T := T) hi
    rw [hweights]
    exact hle t ht
  have hwithin : ∀ p ∈ c.pendings reserved, p.Within (range c.tokenInfos.length) := by
    intro p hp
    obtain ⟨info, hinfo, r, hconverts, rfl⟩ := converts_of_mem_pendings hconverts hp
    exact hconverts.within hprices (hmarkets info hinfo)
  calc x ≤ _ := health_le_estimate hprices hmarkets hle hbalances hreserved hx
    _ ≤ _ := estimate_le_worstCase hweights hwithin fun i => by rw [htop]
    _ ≤ _ := worstCase_le_resolve toBase

/-- Ten tokens are borrowed, and bids on two markets may buy six each. -/
def twoMarkets : HealthCache ℚ where
  tokenInfos := [.plain 0 0 (6 / 5) ⟨1, 1⟩ (-10), .plain 1 1 1 ⟨1, 1⟩ 0]
  serum3Infos := [.bids 6 0 1, .bids 6 0 1]
  perpInfos := []

theorem twoMarkets_le_resolved :
    twoMarkets.health .init = .ok (-12 / 5) ∧ ∀ toBase : Nat → Bool,
      ∃ y, (twoMarkets.resolved [⟨6, 6⟩, ⟨6, 6⟩] toBase).health .init = .ok y ∧ -12 / 5 ≤ y := by
  have hhealth : twoMarkets.health .init = .ok (-12 / 5) := by decide +kernel
  have hreserved : twoMarkets.computeSerum3Reservations .init =
      .ok ([12, 12], [⟨6, 6⟩, ⟨6, 6⟩]) := by decide +kernel
  exact ⟨hhealth, health_le_resolved (by decide +kernel) (by decide +kernel) (by decide +kernel)
    hreserved hhealth⟩

/-- A bid for a token with a quote token whose price is negative. -/
def negativePrice : HealthCache ℚ where
  tokenInfos := [.plain 0 0 1 ⟨1, 1⟩ 0, .plain 1 0 0 ⟨-1, -1⟩ 0]
  serum3Infos := [.bids 6 0 1]
  perpInfos := []

/-- At a negative price the bid takes base tokens away. -/
theorem not_health_le_resolved :
    (∀ t ∈ negativePrice.tokenInfos, (t.weights .maint).asset ≤ (t.weights .maint).liab) ∧
      (∀ s ∈ negativePrice.serum3Infos, s.Nonneg) ∧
      negativePrice.computeSerum3Reservations .maint = .ok ([-6, 6], [⟨-6, 6⟩]) ∧
      negativePrice.health .maint = .ok 0 ∧
      (negativePrice.resolved [⟨-6, 6⟩] fun _ => true).health .maint = .ok (-6) ∧
      ¬ (0 : ℚ) ≤ -6 :=
  ⟨by decide +kernel, by decide +kernel, by decide +kernel, by decide +kernel, by decide +kernel,
    by norm_num⟩

end HealthCache

end MangoV4
