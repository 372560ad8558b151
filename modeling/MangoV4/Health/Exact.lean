/-
  MangoV4.Health.Exact

  Health in exact arithmetic.

  A token's contribution is the value of its balance, and a market's
  contribution is the gain of its reserved amounts on top of all that may come;
  so health is the `estimate` of a worst case (`health_eq_estimate`).
-/

import MangoV4.Health.Reads
import MangoV4.Lib.WorstCase

namespace MangoV4

open Lib Lib.Exec List Option Serum3Info

/-! ## Lists -/

/-- Only one entry grows. -/
theorem addAt_eq_ok {l l' : List ℚ} {i : Nat} {x : ℚ} (h : addAt l i x = .ok l') :
    i < l.length ∧ l'.length = l.length ∧
      ∀ j, l'.getD j 0 = l.getD j 0 + if i = j then x else 0 := by
  obtain ⟨y, hy, h⟩ := of_bind h
  obtain ⟨z, hz, h⟩ := of_bind h
  obtain rfl := ok_inj h
  obtain rfl := ok_inj hz
  have hy := nth_eq_ok.mp hy
  have hi : i < l.length := (List.getElem?_eq_some_iff.mp hy).1
  refine ⟨hi, List.length_set, fun j => ?_⟩
  rw [List.getD_eq_getElem?_getD, List.getD_eq_getElem?_getD, List.getElem?_set]
  by_cases hij : i = j
  · subst hij
    rw [if_pos rfl, if_pos hi, if_pos rfl, hy, getD_some, getD_some]
  · rw [if_neg hij, if_neg hij, add_zero]

/-- Adding up is exact. -/
theorem foldlM_add (l : List ℚ) (x : ℚ) :
    l.foldlM (fun a b => (Arith.add a b : Exec ℚ)) x = .ok (x + l.sum) := by
  induction l generalizing x with
  | nil => rw [foldlM_nil, sum_nil, add_zero, pure_eq_ok]
  | cons a l ih => rw [foldlM_cons, Rat.arith_add, ok_bind, ih, sum_cons, add_assoc]

/-! ## Contributions -/

namespace TokenInfo

/-- What a unit of the token counts. -/
def weights (t : TokenInfo ℚ) (T : HealthType) : Weights where
  asset := t.assetWeight T * t.prices.asset T
  liab := t.liabWeight T * t.prices.liab T

theorem healthContribution_rat (t : TokenInfo ℚ) (T : HealthType) (balance : ℚ) :
    t.healthContribution T balance = .ok ((t.weights T).value balance) := by
  unfold healthContribution Weights.value
  split
  · rfl
  · rfl

/-- The reserved amount fills up what is missing first. -/
theorem healthEffect_rat (t : TokenInfo ℚ) (T : HealthType) (balance maxReserved : ℚ) {r : ℚ}
    (hr : 0 ≤ r) :
    t.healthEffect T balance maxReserved r = .ok ((t.weights T).gain (balance + maxReserved) r) := by
  unfold healthEffect Weights.gain Weights.value
  rw [Rat.arith_add, ok_bind]
  generalize balance + maxReserved = top
  split
  · rename_i hle
    rw [if_neg (not_lt.mpr (hr.trans hle)), if_neg (not_lt.mpr (sub_nonneg.mpr hle))]
    simp only [weights, ok_bind, Rat.arith_mul, Rat.arith_add, zero_mul, add_zero]
    congr 1
    ring
  · rename_i hgt
    rw [if_pos (sub_neg.mpr (not_le.mp hgt) : top - r < 0)]
    split
    · simp only [weights, ok_bind, Rat.arith_mul, Rat.arith_add, zero_mul, zero_add]
      congr 1
      ring
    · simp only [weights, ok_bind, Rat.arith_mul, Rat.arith_add, Rat.arith_sub, pure_eq_ok]
      congr 1
      ring

end TokenInfo

/-! ## Reserved amounts -/

/-- An amount at the quotient of two prices, or `extreme` if that is known and less. -/
def convertAt (amount price priceOther extreme : ℚ) : ℚ :=
  if extreme ≠ 0 then min (amount * price / priceOther) extreme else amount * price / priceOther

section Convert

variable {x p p' q q' e : ℚ}

theorem convertAt_nonneg (hx : 0 ≤ x) (hp : 0 ≤ p) (hq : 0 < q) (he : 0 ≤ e) :
    0 ≤ convertAt x p q e := by
  have hquotient : 0 ≤ x * p / q := by positivity
  unfold convertAt
  split
  · exact le_min hquotient he
  · exact hquotient

/-- Nothing is converted to nothing, and so is everything at a price of zero. -/
theorem convertAt_eq_zero_iff (hq : 0 < q) (he : 0 ≤ e) :
    convertAt x p q e = 0 ↔ x = 0 ∨ p = 0 := by
  have hzero : x * p / q = 0 ↔ x = 0 ∨ p = 0 := by
    rw [div_eq_zero_iff, mul_eq_zero]
    exact ⟨fun h => h.resolve_right hq.ne', Or.inl⟩
  unfold convertAt
  split
  · rename_i hne
    have hpos : 0 < e := lt_of_le_of_ne he (Ne.symm hne)
    rw [← hzero]
    constructor
    · intro h
      rcases min_choice (x * p / q) e with hmin | hmin
      · rw [← hmin, h]
      · exact absurd (hmin.symm.trans h) hpos.ne'
    · intro h
      rw [h, min_eq_left hpos.le]
  · exact hzero

theorem convertAt_eq_zero (hp : 0 < p) (hq : 0 < q) (he : 0 ≤ e) :
    convertAt x p q e = 0 ↔ x = 0 := by
  rw [convertAt_eq_zero_iff hq he, or_iff_left hp.ne']

theorem convertAt_mono (hx : 0 ≤ x) (hp : 0 < p) (hle : p ≤ p') (hq : 0 < q') (hle' : q' ≤ q) :
    convertAt x p q e ≤ convertAt x p' q' e := by
  have hquotient : x * p / q ≤ x * p' / q' :=
    div_le_div₀ (mul_nonneg hx (hp.le.trans hle)) (mul_le_mul_of_nonneg_left hle hx) hq hle'
  unfold convertAt
  split
  · exact min_le_min_right e hquotient
  · exact hquotient

end Convert

/-- Prices are positive. -/
@[mk_iff]
structure Prices.Positive (p : Prices ℚ) : Prop where
  oracle : 0 < p.oracle
  stable : 0 < p.stable

instance (p : Prices ℚ) : Decidable p.Positive := decidable_of_iff' _ p.positive_iff

section Prices

variable {p : Prices ℚ}

theorem Prices.Positive.asset_pos (h : p.Positive) (T : HealthType) : 0 < p.asset T := by
  cases T with
  | init => exact lt_min h.oracle h.stable
  | maint => exact h.oracle
  | liquidationEnd => exact h.oracle

theorem Prices.asset_le_liab (p : Prices ℚ) (T : HealthType) : p.asset T ≤ p.liab T := by
  cases T with
  | init => exact (min_le_left _ _).trans (le_max_left _ _)
  | maint => exact le_refl _
  | liquidationEnd => exact le_refl _

theorem Prices.Positive.liab_pos (h : p.Positive) (T : HealthType) : 0 < p.liab T :=
  (h.asset_pos T).trans_le (p.asset_le_liab T)

end Prices

/-- Amounts are not negative. -/
@[mk_iff]
structure Serum3Info.Nonneg (s : Serum3Info ℚ) : Prop where
  base : 0 ≤ s.reservedBase
  quote : 0 ≤ s.reservedQuote
  ask : 0 ≤ s.reservedBaseAsQuoteLowestAsk
  bid : 0 ≤ s.reservedQuoteAsBaseHighestBid

instance (s : Serum3Info ℚ) : Decidable s.Nonneg := decidable_of_iff' _ s.nonneg_iff

section Reserved

variable {s : Serum3Info ℚ} {T : HealthType} {quoteInfo baseInfo : TokenInfo ℚ}

theorem Serum3Info.allReservedAsBase_rat (h : baseInfo.prices.liab T ≠ 0) :
    s.allReservedAsBase T quoteInfo baseInfo = .ok (s.reservedBase +
      convertAt s.reservedQuote (quoteInfo.prices.asset T) (baseInfo.prices.liab T)
        s.reservedQuoteAsBaseHighestBid) := by
  unfold allReservedAsBase convertAt
  simp only [Rat.arith_mul, ok_bind, Rat.arith_divF64 h]
  split
  · rfl
  · rfl

theorem Serum3Info.allReservedAsQuote_rat (h : quoteInfo.prices.liab T ≠ 0) :
    s.allReservedAsQuote T quoteInfo baseInfo = .ok (s.reservedQuote +
      convertAt s.reservedBase (baseInfo.prices.asset T) (quoteInfo.prices.liab T)
        s.reservedBaseAsQuoteLowestAsk) := by
  unfold allReservedAsQuote convertAt
  simp only [Rat.arith_mul, ok_bind, Rat.arith_divF64 h]
  split
  · rfl
  · rfl

end Reserved

/-- The two outcomes of the open orders on a market. -/
def Serum3Info.pending (info : Serum3Info ℚ) (r : Serum3Reserved ℚ) : Pending Nat where
  fst := info.baseInfoIndex
  snd := info.quoteInfoIndex
  toFst := r.allReservedAsBase
  toSnd := r.allReservedAsQuote

namespace HealthCache

/-- The weights of the token with index `i`. -/
def weights (c : HealthCache ℚ) (T : HealthType) (i : Nat) : Weights :=
  (c.tokenInfos[i]?.map fun t => t.weights T).getD ⟨0, 0⟩

/-- What may come from the open orders on all markets. -/
def pendings (c : HealthCache ℚ) (reserved : List (Serum3Reserved ℚ)) : List (Pending Nat) :=
  List.zipWith Serum3Info.pending c.serum3Infos reserved

/-- What is reserved on a market is converted to `r`. -/
structure Converts (c : HealthCache ℚ) (T : HealthType) (info : Serum3Info ℚ)
    (r : Serum3Reserved ℚ) : Prop where
  intro ::
  tokens : ∃ quoteInfo baseInfo, c.tokenInfos[info.quoteInfoIndex]? = some quoteInfo ∧
    c.tokenInfos[info.baseInfoIndex]? = some baseInfo ∧
    info.allReservedAsBase T quoteInfo baseInfo = .ok r.allReservedAsBase ∧
    info.allReservedAsQuote T quoteInfo baseInfo = .ok r.allReservedAsQuote

variable {c : HealthCache ℚ} {T : HealthType}

theorem weights_of_tokenInfo {i : Nat} {t : TokenInfo ℚ} (h : c.tokenInfos[i]? = some t) :
    c.weights T i = t.weights T := by
  rw [weights, h, map_some, getD_some]

/-- The state of the loop over the markets: the reserved amounts of the markets
    done so far, and for each token their sum. -/
structure Reserving (c : HealthCache ℚ) (T : HealthType) (infos : List (Serum3Info ℚ))
    (st : List ℚ × List (Serum3Reserved ℚ)) : Prop where
  converts : List.Forall₂ (c.Converts T) infos st.2
  length : st.1.length = c.tokenInfos.length
  sum : ∀ i, st.1.getD i 0 = reservedAt (List.zipWith Serum3Info.pending infos st.2) i

theorem reservedAt_append (ps qs : List (Pending Nat)) (i : Nat) :
    reservedAt (ps ++ qs) i = reservedAt ps i + reservedAt qs i := by
  rw [reservedAt, map_append, sum_append, reservedAt, reservedAt]

theorem reserve_reserving {infos : List (Serum3Info ℚ)} {info : Serum3Info ℚ}
    {st st' : List ℚ × List (Serum3Reserved ℚ)} (hst : c.Reserving T infos st)
    (h : c.reserve T st info = .ok st') : c.Reserving T (infos ++ [info]) st' := by
  obtain ⟨quoteInfo, hquote, h⟩ := of_bind h
  obtain ⟨baseInfo, hbase, h⟩ := of_bind h
  obtain ⟨asBase, hasBase, h⟩ := of_bind h
  obtain ⟨asQuote, hasQuote, h⟩ := of_bind h
  obtain ⟨l₁, hl₁, h⟩ := of_bind h
  obtain ⟨l₂, hl₂, h⟩ := of_bind h
  obtain rfl := ok_inj h
  obtain ⟨-, hlength₁, hsum₁⟩ := addAt_eq_ok hl₁
  obtain ⟨-, hlength₂, hsum₂⟩ := addAt_eq_ok hl₂
  refine ⟨?_, hlength₂.trans (hlength₁.trans hst.length), fun i => ?_⟩
  · exact rel_append hst.converts (.cons
      ⟨quoteInfo, baseInfo, nth_eq_ok.mp hquote, nth_eq_ok.mp hbase, hasBase, hasQuote⟩ .nil)
  · rw [hsum₂, hsum₁, hst.sum, zipWith_append hst.converts.length_eq, reservedAt_append]
    simp [reservedAt, Pending.amountAt, pending, add_assoc]

/-- The reservations of a type. -/
theorem computeSerum3Reservations_eq_ok {tokenMaxReserved : List ℚ}
    {reserved : List (Serum3Reserved ℚ)}
    (h : c.computeSerum3Reservations T = .ok (tokenMaxReserved, reserved)) :
    Forall₂ (c.Converts T) c.serum3Infos reserved ∧
      tokenMaxReserved.length = c.tokenInfos.length ∧
      ∀ i, tokenMaxReserved.getD i 0 = reservedAt (c.pendings reserved) i := by
  have hstart : c.Reserving T [] (replicate c.tokenInfos.length 0, []) := by
    refine ⟨.nil, length_replicate, fun i => ?_⟩
    rw [getD_eq_getElem?_getD, getElem?_replicate, zipWith_nil_left]
    split <;> rfl
  have hend := foldlM_invariant (I := c.Reserving T) (fun _ _ _ _ hst => reserve_reserving hst)
    hstart h
  exact ⟨hend.converts, hend.length, hend.sum⟩

theorem weights_of_mem_range {i : Nat} (h : i ∈ Finset.range c.tokenInfos.length) :
    ∃ t ∈ c.tokenInfos, c.weights T i = t.weights T := by
  have hget := getElem?_eq_getElem (Finset.mem_range.mp h)
  exact ⟨_, mem_of_getElem? hget, weights_of_tokenInfo hget⟩

theorem converts_of_mem_pendings {reserved : List (Serum3Reserved ℚ)}
    (h : Forall₂ (c.Converts T) c.serum3Infos reserved) {p : Pending Nat}
    (hp : p ∈ c.pendings reserved) :
    ∃ info ∈ c.serum3Infos, ∃ r, c.Converts T info r ∧ p = info.pending r := by
  rw [pendings, ← map_uncurry_zip_eq_zipWith] at hp
  obtain ⟨x, hx, rfl⟩ := mem_map.mp hp
  exact ⟨x.1, (of_mem_zip hx).1, x.2, (forall₂_iff_zip.mp h).2 hx, rfl⟩

/-- Prices are positive and nothing negative is reserved. -/
@[mk_iff]
structure Priced (c : HealthCache ℚ) : Prop where
  tokens : ∀ t ∈ c.tokenInfos, t.prices.Positive
  markets : ∀ s ∈ c.serum3Infos, s.Nonneg

instance (c : HealthCache ℚ) : Decidable c.Priced := decidable_of_iff' _ c.priced_iff

theorem Priced.congr {c' : HealthCache ℚ} (hc : c.Priced) (h : SameTokens c.tokenInfos c'.tokenInfos)
    (hmarkets : c'.serum3Infos = c.serum3Infos) : c'.Priced := by
  refine ⟨fun t ht => ?_, hmarkets ▸ hc.markets⟩
  obtain ⟨t', ht', hprices⟩ := h.exists_mem ht
  exact hprices ▸ hc.tokens t' ht'

/-- Reserved amounts as they come out of the conversions. -/
structure Converted (c : HealthCache ℚ) (T : HealthType) (info : Serum3Info ℚ)
    (r : Serum3Reserved ℚ) (quoteInfo baseInfo : TokenInfo ℚ) : Prop where
  quoteToken : c.tokenInfos[info.quoteInfoIndex]? = some quoteInfo
  baseToken : c.tokenInfos[info.baseInfoIndex]? = some baseInfo
  asBase : r.allReservedAsBase = info.reservedBase + convertAt info.reservedQuote
    (quoteInfo.prices.asset T) (baseInfo.prices.liab T) info.reservedQuoteAsBaseHighestBid
  asQuote : r.allReservedAsQuote = info.reservedQuote + convertAt info.reservedBase
    (baseInfo.prices.asset T) (quoteInfo.prices.liab T) info.reservedBaseAsQuoteLowestAsk
  quotePrices : quoteInfo.prices.Positive
  basePrices : baseInfo.prices.Positive

theorem Converts.converted {info : Serum3Info ℚ} {r : Serum3Reserved ℚ} (hc : c.Priced)
    (h : c.Converts T info r) : ∃ quoteInfo baseInfo, c.Converted T info r quoteInfo baseInfo := by
  obtain ⟨quoteInfo, baseInfo, hquote, hbase, hasBase, hasQuote⟩ := h.tokens
  have hquotePrices := hc.tokens _ (mem_of_getElem? hquote)
  have hbasePrices := hc.tokens _ (mem_of_getElem? hbase)
  rw [allReservedAsBase_rat (hbasePrices.liab_pos T).ne'] at hasBase
  rw [allReservedAsQuote_rat (hquotePrices.liab_pos T).ne'] at hasQuote
  exact ⟨quoteInfo, baseInfo, hquote, hbase, (ok_inj hasBase).symm,
    (ok_inj hasQuote).symm, hquotePrices, hbasePrices⟩

/-- A market on which one of the conversions is zero counts nothing, others the
    smaller gain of their two outcomes. -/
theorem healthContribution_eq {info : Serum3Info ℚ} {r : Serum3Reserved ℚ}
    {quoteInfo baseInfo : TokenInfo ℚ}
    (hquoteToken : c.tokenInfos[info.quoteInfoIndex]? = some quoteInfo)
    (hbaseToken : c.tokenInfos[info.baseInfoIndex]? = some baseInfo)
    (hasBase : 0 ≤ r.allReservedAsBase) (hasQuote : 0 ≤ r.allReservedAsQuote)
    {tokenBalances tokenMaxReserved : List ℚ}
    (hbalances : tokenBalances.length = c.tokenInfos.length)
    (hreserved : tokenMaxReserved.length = c.tokenInfos.length) :
    info.healthContribution T c.tokenInfos tokenBalances tokenMaxReserved r =
      if r.allReservedAsBase = 0 ∨ r.allReservedAsQuote = 0 then .ok 0
      else .ok ((info.pending r).gain (c.weights T)
        fun i => tokenBalances.getD i 0 + tokenMaxReserved.getD i 0) := by
  have hnth : ∀ {l : List ℚ} {i : Nat} {t : TokenInfo ℚ}, l.length = c.tokenInfos.length →
      c.tokenInfos[i]? = some t → nth l i = .ok (l.getD i 0) := by
    intro l i t hl ht
    have hi : i < l.length := hl ▸ (List.getElem?_eq_some_iff.mp ht).1
    rw [nth_eq_ok, List.getD_eq_getElem?_getD, List.getElem?_eq_getElem hi, getD_some]
  unfold healthContribution Pending.gain
  split
  · rfl
  · rw [nth_eq_ok.mpr hbaseToken, ok_bind, nth_eq_ok.mpr hquoteToken, ok_bind,
      hnth hbalances hbaseToken, ok_bind, hnth hreserved hbaseToken, ok_bind,
      baseInfo.healthEffect_rat T _ _ hasBase, ok_bind,
      hnth hbalances hquoteToken, ok_bind, hnth hreserved hquoteToken, ok_bind,
      quoteInfo.healthEffect_rat T _ _ hasQuote, ok_bind, Rat.arith_min, pure_eq_ok]
    simp only [pending, weights_of_tokenInfo hbaseToken,
      weights_of_tokenInfo hquoteToken]

section Converted

variable {info : Serum3Info ℚ} {r : Serum3Reserved ℚ} {quoteInfo baseInfo : TokenInfo ℚ}

theorem Converted.asBase_nonneg (h : c.Converted T info r quoteInfo baseInfo) (hinfo : info.Nonneg) :
    0 ≤ r.allReservedAsBase := by
  rw [h.asBase]
  exact add_nonneg hinfo.base (convertAt_nonneg hinfo.quote (h.quotePrices.asset_pos T).le
    (h.basePrices.liab_pos T) hinfo.bid)

theorem Converted.asQuote_nonneg (h : c.Converted T info r quoteInfo baseInfo)
    (hinfo : info.Nonneg) : 0 ≤ r.allReservedAsQuote := by
  rw [h.asQuote]
  exact add_nonneg hinfo.quote (convertAt_nonneg hinfo.base (h.basePrices.asset_pos T).le
    (h.quotePrices.liab_pos T) hinfo.ask)

/-- If one of the conversions is zero, nothing is reserved. -/
theorem Converted.eq_zero (h : c.Converted T info r quoteInfo baseInfo) (hinfo : info.Nonneg)
    (hzero : r.allReservedAsBase = 0 ∨ r.allReservedAsQuote = 0) :
    r.allReservedAsBase = 0 ∧ r.allReservedAsQuote = 0 := by
  have hquoteConv := convertAt_eq_zero (x := info.reservedQuote) (h.quotePrices.asset_pos T)
    (h.basePrices.liab_pos T) hinfo.bid
  have hbaseConv := convertAt_eq_zero (x := info.reservedBase) (h.basePrices.asset_pos T)
    (h.quotePrices.liab_pos T) hinfo.ask
  have hnonneg := convertAt_nonneg hinfo.quote (h.quotePrices.asset_pos T).le
    (h.basePrices.liab_pos T) hinfo.bid
  have hnonneg' := convertAt_nonneg hinfo.base (h.basePrices.asset_pos T).le
    (h.quotePrices.liab_pos T) hinfo.ask
  have hbase := hinfo.base
  have hquote := hinfo.quote
  have hreserved : info.reservedBase = 0 ∧ info.reservedQuote = 0 := by
    rw [h.asBase, h.asQuote] at hzero
    rcases hzero with hzero | hzero
    · exact ⟨by linarith, hquoteConv.mp (by linarith)⟩
    · exact ⟨hbaseConv.mp (by linarith), by linarith⟩
  rw [h.asBase, h.asQuote, hquoteConv.mpr hreserved.2, hbaseConv.mpr hreserved.1, hreserved.1,
    hreserved.2]
  exact ⟨add_zero 0, add_zero 0⟩

theorem Converted.within (h : c.Converted T info r quoteInfo baseInfo) (hinfo : info.Nonneg) :
    (info.pending r).Within (Finset.range c.tokenInfos.length) where
  fst_mem := Finset.mem_range.mpr (List.getElem?_eq_some_iff.mp h.baseToken).1
  snd_mem := Finset.mem_range.mpr (List.getElem?_eq_some_iff.mp h.quoteToken).1
  toFst_nonneg := h.asBase_nonneg hinfo
  toSnd_nonneg := h.asQuote_nonneg hinfo

theorem Priced.within (hc : c.Priced) {reserved : List (Serum3Reserved ℚ)}
    (hr : Forall₂ (c.Converts T) c.serum3Infos reserved) :
    ∀ p ∈ c.pendings reserved, p.Within (Finset.range c.tokenInfos.length) := by
  intro p hp
  obtain ⟨info, hinfo, r, hconverts, rfl⟩ := converts_of_mem_pendings hr hp
  obtain ⟨quoteInfo, baseInfo, hconverted⟩ := hconverts.converted hc
  exact hconverted.within (hc.markets info hinfo)

/-- The contribution of a market is the smaller gain of its two outcomes. -/
theorem Converted.healthContribution (h : c.Converted T info r quoteInfo baseInfo)
    (hinfo : info.Nonneg) {tokenBalances tokenMaxReserved : List ℚ}
    (hbalances : tokenBalances.length = c.tokenInfos.length)
    (hreserved : tokenMaxReserved.length = c.tokenInfos.length) :
    info.healthContribution T c.tokenInfos tokenBalances tokenMaxReserved r =
      .ok ((info.pending r).gain (c.weights T)
        fun i => tokenBalances.getD i 0 + tokenMaxReserved.getD i 0) := by
  rw [healthContribution_eq h.quoteToken h.baseToken (h.asBase_nonneg hinfo)
    (h.asQuote_nonneg hinfo) hbalances hreserved]
  split
  · rename_i hzero
    obtain ⟨hbase, hquote⟩ := h.eq_zero hinfo hzero
    simp only [Pending.gain, pending, hbase, hquote, Weights.gain_zero, min_self]
  · rfl

end Converted

/-! ## Health -/

/-- The contributions of all tokens. -/
theorem sum_contributions (T : HealthType) (infos : List (TokenInfo ℚ)) (balances : List ℚ)
    (h : balances.length = infos.length) :
    ((infos.zip balances).map fun x => (x.1.weights T).value x.2).sum =
      ∑ i ∈ Finset.range infos.length,
        ((infos[i]?.map fun t => TokenInfo.weights t T).getD ⟨0, 0⟩).value (balances.getD i 0) := by
  induction infos generalizing balances with
  | nil => rfl
  | cons t infos ih =>
    cases balances with
    | nil => cases h
    | cons b balances =>
      rw [zip_cons_cons, map_cons, sum_cons, length_cons,
        Finset.sum_range_succ', ih balances (Nat.succ.inj h), add_comm]
      rfl

/-- What perp positions add to the balances. -/
def perpBalances (c : HealthCache ℚ) (T : HealthType) (ignoreNegativePerp : Bool) :
    Exec (List ℚ) :=
  c.perpInfos.foldlM (c.addPerp T ignoreNegativePerp) (List.replicate c.tokenInfos.length 0)

theorem perpBalances_congr {c' : HealthCache ℚ} {ignore : Bool}
    (h : SameTokens c.tokenInfos c'.tokenInfos) (hperps : c.perpInfos = c'.perpInfos) :
    c.perpBalances T ignore = c'.perpBalances T ignore := by
  unfold perpBalances
  rw [addPerp_congr h, hperps, h.length_eq]

theorem length_perpBalances {l : List ℚ} {ignore : Bool} (h : c.perpBalances T ignore = .ok l) :
    l.length = c.tokenInfos.length := by
  refine foldlM_keeps (P := fun l => l.length = c.tokenInfos.length) ?_ length_replicate h
  intro p l l' hl h
  obtain ⟨i, -, h⟩ := of_bind h
  obtain ⟨x, -, h⟩ := of_bind h
  split at h
  · exact (addAt_eq_ok h).2.1.trans hl
  · exact ok_inj h ▸ hl

theorem effectiveTokenBalances_length {balances : List ℚ} {ignore : Bool}
    (h : c.effectiveTokenBalancesInternal T ignore = .ok balances) :
    balances.length = c.tokenInfos.length := by
  obtain ⟨l, hl, h⟩ := of_bind h
  rw [← (mapM_eq_ok.mp h).length_eq, length_zip, length_perpBalances hl, min_self]

/-- The spot balance of the token with index `i`. -/
def spotAt (c : HealthCache ℚ) (i : Nat) : ℚ :=
  (c.tokenInfos[i]?.map TokenInfo.balanceSpot).getD 0

/-- The effective balance of a token is its spot balance and what perp
    positions add to it. -/
theorem effectiveTokenBalances_of_perps {l : List ℚ} (h : c.perpBalances T false = .ok l) :
    ∃ balances, c.effectiveTokenBalances T = .ok balances ∧
      ∀ i, balances.getD i 0 = l.getD i 0 + c.spotAt i := by
  have hspot : (c.tokenInfos.zip l).mapM (fun x => (Arith.add x.2 x.1.balanceSpot : Exec ℚ)) =
      .ok ((c.tokenInfos.zip l).map fun x => x.2 + x.1.balanceSpot) :=
    mapM_of_ok fun x _ => Rat.arith_add x.2 x.1.balanceSpot
  refine ⟨(c.tokenInfos.zip l).map fun x => x.2 + x.1.balanceSpot, ?_, fun i => ?_⟩
  · show (c.perpBalances T false >>= fun l => (c.tokenInfos.zip l).mapM fun x =>
      Arith.add x.2 x.1.balanceSpot) = _
    rw [h, ok_bind]
    exact hspot
  · have hlength := length_perpBalances h
    simp only [getD_eq_getElem?_getD, getElem?_map, zip, getElem?_zipWith, spotAt]
    by_cases hi : i < c.tokenInfos.length
    · rw [getElem?_eq_getElem hi, getElem?_eq_getElem (hlength ▸ hi)]
      rfl
    · rw [getElem?_eq_none (not_lt.mp hi), getElem?_eq_none (hlength ▸ not_lt.mp hi)]
      exact (add_zero 0).symm

theorem perps_of_effectiveTokenBalances {balances : List ℚ}
    (h : c.effectiveTokenBalances T = .ok balances) :
    ∃ l, c.perpBalances T false = .ok l ∧ ∀ i, balances.getD i 0 = l.getD i 0 + c.spotAt i := by
  obtain ⟨l, hl, -⟩ := of_bind h
  obtain ⟨balances', h', hentries⟩ := effectiveTokenBalances_of_perps (c := c) (l := l) hl
  obtain rfl := ok_unique h h'
  exact ⟨l, hl, hentries⟩

/-- Health is the value of all balances and the contributions of all markets. -/
theorem health_eq_ok {x : ℚ} : c.health T = .ok x ↔
    ∃ balances tokenMaxReserved reserved contributions,
      c.effectiveTokenBalances T = .ok balances ∧
      c.computeSerum3Reservations T = .ok (tokenMaxReserved, reserved) ∧
      (c.serum3Infos.zip reserved).mapM (fun y => y.1.healthContribution T c.tokenInfos balances
        tokenMaxReserved y.2) = .ok contributions ∧
      x = totalValue (Finset.range c.tokenInfos.length) (c.weights T)
        (fun i => balances.getD i 0) + contributions.sum := by
  have htokens : ∀ balances : List ℚ,
      (c.tokenInfos.zip balances).mapM (fun x => x.1.healthContribution T x.2) =
        .ok ((c.tokenInfos.zip balances).map fun x => (x.1.weights T).value x.2) :=
    fun balances => mapM_of_ok fun x _ => x.1.healthContribution_rat T x.2
  have htotal : ∀ {balances : List ℚ}, c.effectiveTokenBalances T = .ok balances →
      ((c.tokenInfos.zip balances).map fun x => (x.1.weights T).value x.2).sum =
        totalValue (Finset.range c.tokenInfos.length) (c.weights T) fun i => balances.getD i 0 :=
    fun hb => sum_contributions T _ _ (effectiveTokenBalances_length hb)
  constructor
  · intro h
    obtain ⟨balances, hbalances, h⟩ := of_bind h
    obtain ⟨all, hall, h⟩ := of_bind h
    rw [healthSum, htokens, ok_bind] at hall
    obtain ⟨⟨tokenMaxReserved, reserved⟩, hreserved, hall⟩ := of_bind hall
    obtain ⟨contributions, hcontributions, hall⟩ := of_bind hall
    refine ⟨_, _, _, _, hbalances, hreserved, hcontributions, ?_⟩
    rw [← ok_inj hall, foldlM_add, zero_add, sum_append, htotal hbalances] at h
    exact (ok_inj h).symm
  · rintro ⟨balances, tokenMaxReserved, reserved, contributions, hbalances, hreserved,
      hcontributions, rfl⟩
    rw [health, hbalances, ok_bind, healthSum, htokens, ok_bind, hreserved, ok_bind]
    dsimp only
    rw [hcontributions, ok_bind, pure_eq_ok, ok_bind, foldlM_add, zero_add, sum_append,
      htotal hbalances]

/-- If prices are positive, the contribution of a market is the gain of what is
    reserved on it. -/
theorem health_eq_estimate (hc : c.Priced) {balances tokenMaxReserved : List ℚ}
    {reserved : List (Serum3Reserved ℚ)} (hbalances : c.effectiveTokenBalances T = .ok balances)
    (hreserved : c.computeSerum3Reservations T = .ok (tokenMaxReserved, reserved)) :
    c.health T = .ok (estimate (Finset.range c.tokenInfos.length) (c.weights T)
      (fun i => balances.getD i 0 + tokenMaxReserved.getD i 0) (fun i => balances.getD i 0)
      (c.pendings reserved)) := by
  have hlength := effectiveTokenBalances_length hbalances
  obtain ⟨hconverts, hlength', -⟩ := computeSerum3Reservations_eq_ok hreserved
  have hmarkets : (c.serum3Infos.zip reserved).mapM (fun x => x.1.healthContribution T c.tokenInfos
        balances tokenMaxReserved x.2) =
      .ok ((c.serum3Infos.zip reserved).map fun x => (x.1.pending x.2).gain (c.weights T)
        fun i => balances.getD i 0 + tokenMaxReserved.getD i 0) := by
    refine mapM_of_ok fun x hx => ?_
    have hpair := (forall₂_iff_zip.mp hconverts).2 hx
    obtain ⟨quoteInfo, baseInfo, hconverted⟩ := hpair.converted hc
    exact hconverted.healthContribution (hc.markets _ (of_mem_zip hx).1) hlength hlength'
  refine health_eq_ok.mpr ⟨_, _, _, _, hbalances, hreserved, hmarkets, ?_⟩
  rw [estimate, pendings, map_zipWith, zip, map_zipWith]

end HealthCache

/-! ## Small caches -/

/-- A token with the same weights in all types. -/
def TokenInfo.plain (tokenIndex : TokenIndex) (assetWeight liabWeight : ℚ) (prices : Prices ℚ)
    (balanceSpot : ℚ) : TokenInfo ℚ where
  tokenIndex := tokenIndex
  maintAssetWeight := assetWeight
  initAssetWeight := assetWeight
  initScaledAssetWeight := assetWeight
  maintLiabWeight := liabWeight
  initLiabWeight := liabWeight
  initScaledLiabWeight := liabWeight
  prices := prices
  balanceSpot := balanceSpot

/-- Bids on a serum3 market that reserve `quote` tokens. -/
def Serum3Info.bids (quote : ℚ) (baseInfoIndex quoteInfoIndex : Nat) : Serum3Info ℚ where
  reservedBase := 0
  reservedQuote := quote
  reservedBaseAsQuoteLowestAsk := 0
  reservedQuoteAsBaseHighestBid := 0
  baseInfoIndex := baseInfoIndex
  quoteInfoIndex := quoteInfoIndex

end MangoV4
