/-
  MangoV4.Health.Order

  The order of the three types of health.

  A stricter type has worse weights and worse prices, so balances, reserved
  amounts and the worst case over all outcomes of open orders are ordered.
  Health itself is ordered only as long as it is the worst case: it looks at
  each market as if its reserved amounts came last, and if several markets may
  turn a borrow into a deposit, larger balances or larger reservations make
  each of them count for less.
-/

import MangoV4.Health.Exact
import MangoV4.Health.UnsettledPnl

namespace MangoV4

open Lib Lib.Exec List

/-- The next less strict type of health. -/
inductive HealthType.Stricter : HealthType → HealthType → Prop
  | init : Stricter .init .liquidationEnd
  | liquidationEnd : Stricter .liquidationEnd .maint

/-- Weights from strict to lenient, and positive prices. -/
@[mk_iff]
structure TokenInfo.Ordered (t : TokenInfo ℚ) : Prop where
  prices : t.prices.Positive
  scaled_nonneg : 0 ≤ t.initScaledAssetWeight
  scaled_le_init : t.initScaledAssetWeight ≤ t.initAssetWeight
  init_le_maint : t.initAssetWeight ≤ t.maintAssetWeight
  asset_le_one : t.maintAssetWeight ≤ 1
  one_le_liab : 1 ≤ t.maintLiabWeight
  liab_maint_le_init : t.maintLiabWeight ≤ t.initLiabWeight
  liab_init_le_scaled : t.initLiabWeight ≤ t.initScaledLiabWeight

@[mk_iff]
structure PerpInfo.Ordered (p : PerpInfo ℚ) : Prop where
  prices : p.basePrices.Positive
  base_nonneg : 0 ≤ p.initBaseAssetWeight
  base_init_le_maint : p.initBaseAssetWeight ≤ p.maintBaseAssetWeight
  base_le_one : p.maintBaseAssetWeight ≤ 1
  one_le_liab : 1 ≤ p.maintBaseLiabWeight
  liab_maint_le_init : p.maintBaseLiabWeight ≤ p.initBaseLiabWeight
  overall_nonneg : 0 ≤ p.initOverallAssetWeight
  overall_init_le_maint : p.initOverallAssetWeight ≤ p.maintOverallAssetWeight
  overall_le_one : p.maintOverallAssetWeight ≤ 1
  -- lots in open orders are counts, and a lot has a size
  lotSize_pos : 0 < p.baseLotSize
  bids_nonneg : 0 ≤ p.bidsBaseLots
  asks_nonneg : 0 ≤ p.asksBaseLots

@[mk_iff]
structure HealthCache.Ordered (c : HealthCache ℚ) : Prop where
  tokens : ∀ t ∈ c.tokenInfos, t.Ordered
  markets : ∀ s ∈ c.serum3Infos, s.Nonneg
  perps : ∀ p ∈ c.perpInfos, p.Ordered

instance (t : TokenInfo ℚ) : Decidable t.Ordered := decidable_of_iff' _ t.ordered_iff
instance (p : PerpInfo ℚ) : Decidable p.Ordered := decidable_of_iff' _ p.ordered_iff
instance (c : HealthCache ℚ) : Decidable c.Ordered := decidable_of_iff' _ c.ordered_iff

/-! ## Prices and weights -/

section Weights

variable {T T' : HealthType}

theorem Prices.asset_mono (p : Prices ℚ) (h : T.Stricter T') : p.asset T ≤ p.asset T' := by
  cases h with
  | init => exact min_le_left _ _
  | liquidationEnd => exact le_refl _

theorem Prices.liab_mono (p : Prices ℚ) (h : T.Stricter T') : p.liab T' ≤ p.liab T := by
  cases h with
  | init => exact le_max_left _ _
  | liquidationEnd => exact le_refl _

variable {t : TokenInfo ℚ}

theorem TokenInfo.Ordered.weights_bounds (h : t.Ordered) (T : HealthType) :
    0 ≤ t.assetWeight T ∧ t.assetWeight T ≤ 1 ∧ 1 ≤ t.liabWeight T := by
  obtain ⟨-, h₀, h₁, h₂, h₃, h₄, h₅, h₆⟩ := h
  cases T with
  | init => exact ⟨h₀, (h₁.trans h₂).trans h₃, (h₄.trans h₅).trans h₆⟩
  | maint => exact ⟨(h₀.trans h₁).trans h₂, h₃, h₄⟩
  | liquidationEnd => exact ⟨h₀.trans h₁, h₂.trans h₃, h₄.trans h₅⟩

/-- Weighted prices of assets are at most those of liabilities. -/
theorem weights_prudent {a l p q : ℚ} (ha : 0 ≤ a) (ha' : a ≤ 1) (hl : 1 ≤ l) (hp : 0 < p)
    (hpq : p ≤ q) : (⟨a * p, l * q⟩ : Weights).Prudent where
  nonneg := mul_nonneg ha hp.le
  asset_le := by
    have hone : a * p ≤ 1 * p := mul_le_mul_of_nonneg_right ha' hp.le
    have htwo : 1 * q ≤ l * q := mul_le_mul_of_nonneg_right hl (hp.le.trans hpq)
    show a * p ≤ l * q
    linarith

/-- Better weights and better prices. -/
theorem weights_le {a a' l l' p p' q q' : ℚ} (ha : a ≤ a') (ha' : 0 ≤ a') (hl : l' ≤ l)
    (hl' : 0 ≤ l') (hp : 0 < p) (hpp : p ≤ p') (hq : 0 < q) (hqq : q' ≤ q) :
    (⟨a * p, l * q⟩ : Weights).Le ⟨a' * p', l' * q'⟩ where
  asset := (mul_le_mul_of_nonneg_right ha hp.le).trans (mul_le_mul_of_nonneg_left hpp ha')
  liab := (mul_le_mul_of_nonneg_left hqq hl').trans (mul_le_mul_of_nonneg_right hl hq.le)

theorem TokenInfo.Ordered.prudent (h : t.Ordered) (T : HealthType) : (t.weights T).Prudent := by
  obtain ⟨hnonneg, hone, hone'⟩ := h.weights_bounds T
  exact weights_prudent hnonneg hone hone' (h.prices.asset_pos T) (t.prices.asset_le_liab T)

theorem TokenInfo.Ordered.weights_le (h : t.Ordered) (hT : T.Stricter T') :
    (t.weights T).Le (t.weights T') := by
  have hasset : t.assetWeight T ≤ t.assetWeight T' := by
    cases hT with
    | init => exact h.scaled_le_init
    | liquidationEnd => exact h.init_le_maint
  have hliab : t.liabWeight T' ≤ t.liabWeight T := by
    cases hT with
    | init => exact h.liab_init_le_scaled
    | liquidationEnd => exact h.liab_maint_le_init
  obtain ⟨hnonneg, -, hone⟩ := h.weights_bounds T'
  exact MangoV4.weights_le hasset hnonneg hliab (zero_le_one.trans hone) (h.prices.asset_pos T)
    (t.prices.asset_mono hT) (h.prices.liab_pos T) (t.prices.liab_mono hT)

end Weights

/-! ## Perp positions -/

namespace PerpInfo

variable {p : PerpInfo ℚ} {T T' : HealthType}

theorem Ordered.weighted (h : p.Ordered) : p.Weighted :=
  ⟨h.prices.oracle.le, h.prices.stable.le, h.bids_nonneg, h.asks_nonneg, h.base_init_le_maint,
    h.base_le_one, h.one_le_liab, h.liab_maint_le_init, h.overall_nonneg, h.overall_init_le_maint,
    h.overall_le_one⟩

/-- Unsettled pnl counts for less in a stricter type. -/
theorem Ordered.healthUnsettledPnl_mono (h : p.Ordered) (hT : T.Stricter T') {v v' : ℚ}
    (hv : p.healthUnsettledPnl T = .ok v) (hv' : p.healthUnsettledPnl T' = .ok v') : v ≤ v' := by
  cases hT with
  | init => exact h.weighted.init_le_liquidationEnd h.base_nonneg h.lotSize_pos.le hv hv'
  | liquidationEnd => exact h.weighted.liquidationEnd_le_maint hv hv'

end PerpInfo

namespace HealthCache

variable {c : HealthCache ℚ} {T T' : HealthType}

theorem Ordered.priced (h : c.Ordered) : c.Priced := ⟨fun t ht => (h.tokens t ht).prices, h.markets⟩

/-! ## Balances and reserved amounts -/

/-- Entry by entry. -/
structure EntriesLe (l l' : List ℚ) : Prop where
  length : l.length = l'.length
  le : ∀ i, l.getD i 0 ≤ l'.getD i 0

theorem Ordered.addPerp_mono (h : c.Ordered) (hT : T.Stricter T') {p : PerpInfo ℚ}
    (hp : p ∈ c.perpInfos) {l l₁ l' l₁' : List ℚ} (hl : EntriesLe l l')
    (hadd : c.addPerp T false l p = .ok l₁) (hadd' : c.addPerp T' false l' p = .ok l₁') :
    EntriesLe l₁ l₁' := by
  obtain ⟨i, hi, hadd⟩ := of_bind hadd
  obtain ⟨x, hx, hadd⟩ := of_bind hadd
  obtain ⟨i', hi', hadd'⟩ := of_bind hadd'
  obtain ⟨x', hx', hadd'⟩ := of_bind hadd'
  obtain rfl : i = i' := ok_unique hi hi'
  have hle := (h.perps p hp).healthUnsettledPnl_mono hT hx hx'
  obtain ⟨-, hlength, hentries⟩ := addAt_eq_ok hadd
  obtain ⟨-, hlength', hentries'⟩ := addAt_eq_ok hadd'
  refine ⟨by rw [hlength, hlength', hl.length], fun j => ?_⟩
  rw [hentries, hentries']
  have hj := hl.le j
  split <;> linarith

theorem Ordered.effectiveTokenBalances_mono (h : c.Ordered) (hT : T.Stricter T') {l l' : List ℚ}
    (hl : c.effectiveTokenBalances T = .ok l) (hl' : c.effectiveTokenBalances T' = .ok l') :
    ∀ i, l.getD i 0 ≤ l'.getD i 0 := by
  obtain ⟨m, hm, hentries⟩ := perps_of_effectiveTokenBalances hl
  obtain ⟨m', hm', hentries'⟩ := perps_of_effectiveTokenBalances hl'
  have hperps : EntriesLe m m' := foldlM_relates (R := EntriesLe)
    (fun p hp _ _ _ _ hle hadd hadd' => h.addPerp_mono hT hp hle hadd hadd')
    ⟨rfl, fun _ => le_refl _⟩ hm hm'
  intro i
  rw [hentries, hentries']
  exact add_le_add_left (hperps.le i) _

/-- Less is reserved in a stricter type. -/
theorem Ordered.pending_le (h : c.Ordered) (hT : T.Stricter T') {info : Serum3Info ℚ}
    (hinfo : info ∈ c.serum3Infos) {r r' : Serum3Reserved ℚ} (hr : c.Converts T info r)
    (hr' : c.Converts T' info r') : (info.pending r).Le (info.pending r') := by
  have hnonneg := h.markets info hinfo
  obtain ⟨quoteInfo, baseInfo, hconverted⟩ := hr.converted h.priced
  obtain ⟨quoteInfo', baseInfo', hconverted'⟩ := hr'.converted h.priced
  obtain rfl : quoteInfo = quoteInfo' :=
    Option.some.inj (hconverted.quoteToken.symm.trans hconverted'.quoteToken)
  obtain rfl : baseInfo = baseInfo' :=
    Option.some.inj (hconverted.baseToken.symm.trans hconverted'.baseToken)
  refine ⟨rfl, rfl, ?_, ?_⟩
  · show r.allReservedAsBase ≤ r'.allReservedAsBase
    rw [hconverted.asBase, hconverted'.asBase]
    exact add_le_add_right (convertAt_mono hnonneg.quote (hconverted.quotePrices.asset_pos T)
      (quoteInfo.prices.asset_mono hT) (hconverted.basePrices.liab_pos T')
      (baseInfo.prices.liab_mono hT)) _
  · show r.allReservedAsQuote ≤ r'.allReservedAsQuote
    rw [hconverted.asQuote, hconverted'.asQuote]
    exact add_le_add_right (convertAt_mono hnonneg.base (hconverted.basePrices.asset_pos T)
      (baseInfo.prices.asset_mono hT) (hconverted.quotePrices.liab_pos T')
      (quoteInfo.prices.liab_mono hT)) _

theorem Ordered.pendings_le (h : c.Ordered) (hT : T.Stricter T')
    {reserved reserved' : List (Serum3Reserved ℚ)}
    (hr : Forall₂ (c.Converts T) c.serum3Infos reserved)
    (hr' : Forall₂ (c.Converts T') c.serum3Infos reserved') :
    Forall₂ Pending.Le (c.pendings reserved) (c.pendings reserved') := by
  have hpairs : ∀ infos : List (Serum3Info ℚ), (∀ info ∈ infos, info ∈ c.serum3Infos) →
      ∀ rs rs', Forall₂ (c.Converts T) infos rs → Forall₂ (c.Converts T') infos rs' →
        Forall₂ Pending.Le (zipWith Serum3Info.pending infos rs)
          (zipWith Serum3Info.pending infos rs') := by
    intro infos
    induction infos with
    | nil =>
      intro _ rs rs' _ _
      exact .nil
    | cons info infos ih =>
      intro hmem rs rs' hrs hrs'
      cases hrs with
      | cons hr hrs =>
        cases hrs' with
        | cons hr' hrs' =>
          exact .cons (h.pending_le hT (hmem info (mem_cons_self ..)) hr hr')
            (ih (fun i hi => hmem i (mem_cons_of_mem _ hi)) _ _ hrs hrs')
  exact hpairs c.serum3Infos (fun _ h => h) _ _ hr hr'

/-! ## Health -/

/-- The order in which reserved amounts come does not matter: a token that open
    orders may turn from a borrow to a deposit weighs both the same, or gets
    all its reserved amounts from one side of one market. -/
def OrderFree (c : HealthCache ℚ) (T : HealthType) : Prop :=
  ∀ balances tokenMaxReserved reserved, c.effectiveTokenBalances T = .ok balances →
    c.computeSerum3Reservations T = .ok (tokenMaxReserved, reserved) →
    ∀ p ∈ c.pendings reserved, p.OrderFree (c.weights T) (fun i => balances.getD i 0)
      fun i => balances.getD i 0 + tokenMaxReserved.getD i 0

/-- For the balances and reservations that are computed. -/
theorem orderFree_of {b m : List ℚ} {r : List (Serum3Reserved ℚ)}
    (hb : c.effectiveTokenBalances T = .ok b) (hr : c.computeSerum3Reservations T = .ok (m, r))
    (h : ∀ p ∈ c.pendings r, p.OrderFree (c.weights T) (fun i => b.getD i 0)
      fun i => b.getD i 0 + m.getD i 0) : c.OrderFree T := by
  intro balances tokenMaxReserved reserved hbalances hreserved
  obtain rfl := ok_unique hb hbalances
  obtain ⟨rfl, rfl⟩ := Prod.mk.inj (ok_unique hr hreserved)
  exact h

theorem Ordered.weights_prudent (h : c.Ordered) (T : HealthType) :
    ∀ i ∈ Finset.range c.tokenInfos.length, (c.weights T i).Prudent := by
  intro i hi
  obtain ⟨t, ht, hweights⟩ := c.weights_of_mem_range (T := T) hi
  rw [hweights]
  exact (h.tokens t ht).prudent T

theorem Ordered.weights_le (h : c.Ordered) (hT : T.Stricter T') :
    ∀ i ∈ Finset.range c.tokenInfos.length, (c.weights T i).Le (c.weights T' i) := by
  intro i hi
  have hget := getElem?_eq_getElem (Finset.mem_range.mp hi)
  rw [weights_of_tokenInfo hget, weights_of_tokenInfo hget]
  exact (h.tokens _ (mem_of_getElem? hget)).weights_le hT

/-- A stricter health is at most the worst case of the less strict type. -/
theorem Ordered.health_le (h : c.Ordered) (hT : T.Stricter T') (hfree : c.OrderFree T') {x y : ℚ}
    (hx : c.health T = .ok x) (hy : c.health T' = .ok y) : x ≤ y := by
  obtain ⟨balances, hbalances, hx'⟩ := of_bind hx
  obtain ⟨balances', hbalances', hy'⟩ := of_bind hy
  obtain ⟨_, hsum, -⟩ := of_bind hx'
  obtain ⟨_, hsum', -⟩ := of_bind hy'
  obtain ⟨_, -, hsum⟩ := of_bind hsum
  obtain ⟨_, -, hsum'⟩ := of_bind hsum'
  obtain ⟨⟨top, reserved⟩, hreserved, -⟩ := of_bind hsum
  obtain ⟨⟨top', reserved'⟩, hreserved', -⟩ := of_bind hsum'
  rw [health_eq_estimate h.priced hbalances hreserved] at hx
  rw [health_eq_estimate h.priced hbalances' hreserved'] at hy
  obtain ⟨hconverts, -, htop⟩ := computeSerum3Reservations_eq_ok hreserved
  obtain ⟨hconverts', -, htop'⟩ := computeSerum3Reservations_eq_ok hreserved'
  rw [← ok_inj hx, ← ok_inj hy]
  refine (estimate_le_worstCase (fun i hi => (h.weights_prudent T i hi).asset_le) (h.priced.within hconverts)
    fun i => by rw [htop]).trans ?_
  rw [estimate_eq_worstCase (h.priced.within hconverts') (fun _ => le_refl _) (fun i => by rw [htop'])
    (hfree _ _ _ hbalances' hreserved')]
  exact worstCase_mono (h.weights_prudent T) (h.weights_le hT) (h.pendings_le hT hconverts hconverts')
    (h.effectiveTokenBalances_mono hT hbalances hbalances')

/-- Initial health is at most liquidation end health, and that is at most
    maintenance health, as long as the order of reserved amounts does not matter. -/
theorem health_ordered (h : c.Ordered) (hliq : c.OrderFree .liquidationEnd)
    (hmaint : c.OrderFree .maint) {x y z : ℚ} (hx : c.health .init = .ok x)
    (hy : c.health .liquidationEnd = .ok y) (hz : c.health .maint = .ok z) : x ≤ y ∧ y ≤ z :=
  ⟨h.health_le .init hliq hx hy, h.health_le .liquidationEnd hmaint hy hz⟩

end HealthCache

/-- Unsettled pnl of one token on a market that only counts for maintenance health. -/
def PerpInfo.gain : PerpInfo ℚ where
  settleTokenIndex := 0
  maintBaseAssetWeight := 1
  initBaseAssetWeight := 1
  maintBaseLiabWeight := 1
  initBaseLiabWeight := 1
  maintOverallAssetWeight := 1
  initOverallAssetWeight := 0
  baseLotSize := 1
  baseLots := 0
  bidsBaseLots := 0
  asksBaseLots := 0
  quote := 1
  basePrices := ⟨1, 1⟩

namespace HealthCache

/-- Ten tokens are borrowed, and bids on two markets may buy some.  The quote
    token of the second market does not count as collateral, and its stable price
    is a tenth of its oracle price. -/
def stableBelowOracle : HealthCache ℚ where
  tokenInfos := [.plain 0 (4 / 5) (6 / 5) ⟨1, 1⟩ (-10), .plain 1 1 1 ⟨1, 1⟩ 0,
    .plain 2 0 1 ⟨1, 1 / 10⟩ 0]
  serum3Infos := [.bids 6 0 1, .bids 10 0 2]
  perpInfos := []

/-- Ten tokens are borrowed, bids on two markets may buy six each, and there is a
    perp position that gained one. -/
def gainOnTop : HealthCache ℚ where
  tokenInfos := [.plain 0 0 (6 / 5) ⟨1, 1⟩ (-10), .plain 1 1 1 ⟨1, 1⟩ 0]
  serum3Infos := [.bids 6 0 1, .bids 6 0 1]
  perpInfos := [.gain]

/-- Initial health can be above liquidation end health, and that above maintenance health. -/
theorem health_not_ordered :
    (stableBelowOracle.Ordered ∧ stableBelowOracle.health .init = .ok (-6) ∧
      stableBelowOracle.health .liquidationEnd = .ok (-36 / 5) ∧ ¬ (-6 : ℚ) ≤ -36 / 5) ∧
    gainOnTop.Ordered ∧ gainOnTop.health .liquidationEnd = .ok (-12 / 5) ∧
      gainOnTop.health .maint = .ok (-18 / 5) ∧ ¬ (-12 / 5 : ℚ) ≤ -18 / 5 :=
  ⟨⟨by decide +kernel, by decide +kernel, by decide +kernel, by norm_num⟩, by decide +kernel,
    by decide +kernel, by decide +kernel, by norm_num⟩

/-- Ten tokens are borrowed, bids on one market may buy sixteen, and there is a perp
    position that gained one. -/
def oneMarket : HealthCache ℚ where
  tokenInfos := [.plain 0 (4 / 5) (6 / 5) ⟨1, 1⟩ (-10), .plain 1 1 1 ⟨1, 1⟩ 0]
  serum3Infos := [.bids 16 0 1]
  perpInfos := [.gain]

theorem oneMarket_health_ordered :
    oneMarket.health .init = .ok 4 ∧ oneMarket.health .maint = .ok (26 / 5) ∧
      ∀ y, oneMarket.health .liquidationEnd = .ok y → 4 ≤ y ∧ y ≤ 26 / 5 := by
  have hliq : oneMarket.OrderFree .liquidationEnd :=
    orderFree_of (b := [-10, 0]) (m := [16, 16]) (r := [⟨16, 16⟩]) (by decide +kernel)
      (by decide +kernel) (by decide +kernel)
  have hmaint : oneMarket.OrderFree .maint :=
    orderFree_of (b := [-9, 0]) (m := [16, 16]) (r := [⟨16, 16⟩]) (by decide +kernel)
      (by decide +kernel) (by decide +kernel)
  have hinit : oneMarket.health .init = .ok 4 := by decide +kernel
  have hend : oneMarket.health .maint = .ok (26 / 5) := by decide +kernel
  exact ⟨hinit, hend, fun y hy =>
    health_ordered (by decide +kernel) hliq hmaint hinit hy hend⟩

end HealthCache

end MangoV4
