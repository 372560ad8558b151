/-
  MangoV4.Exchange.Positions

  Instructions that create, close or force positions refine the clearing too,
  and with them every instruction of the exchange (`exec_refines`).  What a
  forced trade pays is said with what it does to the positions.
-/

import MangoV4.Exchange.Refinement

namespace MangoV4

open Lib Lib.Exec Relation MangoAccount PerpPosition Function Clearing

/-! ## Forced trades -/

/-- The quote amounts of a forced trade, for liqee and liqor. -/
def LiquidationTerms.quotes (terms : LiquidationTerms) (oraclePricePerLot : I80F48)
    (baseTransfer : Int) : Exec (I80F48 × I80F48) := do
  let quoteTransferBase ← (← (← Fixed.ofInt baseTransfer).neg).mul oraclePricePerLot
  let quoteTransferLiqee ← quoteTransferBase.mul terms.baseFeeFactorAll
  let quoteTransferLiqor ← (← quoteTransferBase.neg).mul terms.baseFeeFactorLiqor
  return (quoteTransferLiqee, quoteTransferLiqor)

/-- The quote amounts of the forced trade in a liquidation. -/
def liquidationQuotes (market : PerpMarket) (liqeeBaseLots maxBaseTransfer : Int)
    (oraclePrice : I80F48) (baseTransfer : Int) : Exec (I80F48 × I80F48) := do
  let oraclePricePerLot ← (← Fixed.ofInt market.baseLotSize).mul oraclePrice
  let terms ← liquidationTerms market liqeeBaseLots maxBaseTransfer oraclePricePerLot
  terms.quotes oraclePricePerLot baseTransfer

/-- The quote amount for the lots that a force close of a long and a short
    position closes. -/
def forceCloseQuote (market : PerpMarket) (long short : Int) (oraclePrice : I80F48) :
    Exec I80F48 := do
  let short ← absI64 short
  let baseNative ← Fixed.ofInt (← checkI64 (max (min long short) 0 * market.baseLotSize))
  baseNative.mul oraclePrice

/-- No lots, no quote. -/
theorem LiquidationTerms.quotes_zero {terms : LiquidationTerms} {price : I80F48}
    {quotes : I80F48 × I80F48} (h : terms.quotes price 0 = .ok quotes) :
    quotes.1.toRat = 0 ∧ quotes.2.toRat = 0 := by
  obtain ⟨transfer, htransfer, h⟩ := of_bind h
  obtain ⟨back, hback, h⟩ := of_bind h
  obtain ⟨base, hbase, h⟩ := of_bind h
  obtain ⟨liqee, hliqee, h⟩ := of_bind h
  obtain ⟨baseBack, hbaseBack, h⟩ := of_bind h
  obtain ⟨liqor, hliqor, h⟩ := of_bind h
  obtain rfl := ok_inj h
  have hwhole : base.IsWhole 0 := ((Fixed.isWhole_ofInt htransfer).neg hback).zero_mul hbase
  have hwholeBack : baseBack.IsWhole 0 := hwhole.neg hbaseBack
  exact ⟨by rw [(hwhole.zero_mul hliqee).toRat, Int.cast_zero],
    by rw [(hwholeBack.zero_mul hliqor).toRat, Int.cast_zero]⟩

/-- Positions `a` and `b` of a market after `x` base lots went from `b` to `a`. -/
structure Transferred (market market' : PerpMarket) (a a' b b' : PerpPosition) (x : Int) : Prop where
  first : a.Moves a' (a.ledger.addBase x)
  second : b.Moves b' (b.ledger.addBase (-x))
  index : market'.perpMarketIndex = market.perpMarketIndex
  seqNum : market'.seqNum = market.seqNum
  openInterest : market'.openInterest = market.openInterest +
    (|a'.ledger.base| - |a.ledger.base|) + (|b'.ledger.base| - |b.ledger.base|)

/-- Liqee and liqor after a forced trade of `x` lots. -/
structure ForcedTrade (market market' : PerpMarket) (liqee liqee' liqor liqor' : PerpPosition)
    (x : Int) (quoteLiqee quoteLiqor : ℚ) : Prop where
  liqeeBase : liqee'.basePositionLots = liqee.basePositionLots + x
  liqorBase : liqor'.basePositionLots = liqor.basePositionLots - x
  liqeeEquity : liqee'.equity market' = liqee.equity market + quoteLiqee
  liqorEquity : liqor'.equity market' = liqor.equity market + quoteLiqor

section Transferred

variable {market market' : PerpMarket} {a a' b b' : PerpPosition}

variable {x : Int}

variable {market₁ : PerpMarket} {liqor liqor' liqee liqee' : PerpPosition} {price : I80F48}

theorem Transferred.of_recordTrade {quoteA quoteB : I80F48}
    (ha : a.recordTrade market x quoteA = .ok (a', market₁))
    (hb : b.recordTrade market₁ (-x) quoteB = .ok (b', market')) :
    Transferred market market' a a' b b' x := by
  obtain ⟨⟨hmoves, -⟩, rfl⟩ := recordTrade_books ha
  obtain ⟨⟨hmoves', -⟩, rfl⟩ := recordTrade_books hb
  exact ⟨hmoves, hmoves', rfl, rfl, rfl⟩

/-- The positions and the market may change in anything else before and after. -/
theorem Transferred.congr {a₁ a₂ b₁ b₂ : PerpPosition}
    (h : Transferred market market₁ a₁ a₂ b₁ b₂ x) (ha : a.Keeps a₁) (hb : b.Keeps b₁)
    (ha' : a₂.Keeps a') (hb' : b₂.Keeps b') (hindex : market'.perpMarketIndex = market₁.perpMarketIndex)
    (hseq : market'.seqNum = market₁.seqNum) (hinterest : market'.openInterest = market₁.openInterest) :
    Transferred market market' a a' b b' x where
  first := by
    have hmoves := (ha.trans h.first).keeps ha'
    rw [ha.2] at hmoves
    exact hmoves
  second := by
    have hmoves := (hb.trans h.second).keeps hb'
    rw [hb.2] at hmoves
    exact hmoves
  index := hindex.trans h.index
  seqNum := hseq.trans h.seqNum
  openInterest := by rw [hinterest, h.openInterest, ha'.2, hb'.2, ha.2, hb.2]

theorem Transferred.symm (h : Transferred market market' a a' b b' x) :
    Transferred market market' b b' a a' (-x) where
  first := h.second
  second := by
    rw [neg_neg]
    exact h.first
  index := h.index
  seqNum := h.seqNum
  openInterest := by
    rw [h.openInterest]
    omega

theorem Transferred.refl (market : PerpMarket) (a b : PerpPosition) :
    Transferred market market a a b b 0 := by
  have hzero : ∀ l : Ledger, l.addBase 0 = l := fun l => by simp [Ledger.addBase]
  refine ⟨⟨rfl, (hzero _).symm⟩, ⟨rfl, ?_⟩, rfl, rfl, ?_⟩
  · rw [neg_zero, hzero]
  · omega

/-- Lots go from one position to the other; positions that owe no funding are worth
    the quote amounts more. -/
theorem transferBase_spec {terms : LiquidationTerms} {reduction : Int}
    (h : transferBase market liqor liqee terms price reduction = .ok (market', liqor', liqee')) :
    ∃ x quotes, Transferred market market' liqee liqee' liqor liqor' x ∧
      terms.quotes price x = .ok quotes ∧ (liqee.Settled market → liqor.Settled market →
        ForcedTrade market market' liqee liqee' liqor liqor' x quotes.1.toRat quotes.2.toRat) := by
  obtain ⟨x, -, h⟩ := of_bind h
  obtain ⟨transfer, htransfer, h⟩ := of_bind h
  obtain ⟨back, hback, h⟩ := of_bind h
  obtain ⟨base, hbase, h⟩ := of_bind h
  obtain ⟨quoteLiqee, hquoteLiqee, h⟩ := of_bind h
  obtain ⟨baseBack, hbaseBack, h⟩ := of_bind h
  obtain ⟨quoteLiqor, hquoteLiqor, h⟩ := of_bind h
  obtain ⟨⟨market₁, liqor₁, liqee₁⟩, htrade, h⟩ := of_bind h
  obtain ⟨_, -, h⟩ := of_bind h
  obtain ⟨_, -, h⟩ := of_bind h
  obtain ⟨_, -, h⟩ := of_bind h
  obtain ⟨_, -, h⟩ := of_bind h
  obtain ⟨rfl, rfl, rfl⟩ := ok_inj₃ h
  have hquotes : terms.quotes price x = .ok (quoteLiqee, quoteLiqor) := by
    rw [LiquidationTerms.quotes, htransfer, ok_bind, hback, ok_bind, hbase, ok_bind, hquoteLiqee,
      ok_bind, hbaseBack, ok_bind, hquoteLiqor, ok_bind, pure_eq_ok]
  -- the platform fee does not touch positions or funding
  suffices hmoved : Transferred market market₁ liqee liqee₁ liqor liqor₁ x ∧
      (liqee.Settled market → liqor.Settled market → ForcedTrade market market₁ liqee liqee₁ liqor
        liqor₁ x quoteLiqee.toRat quoteLiqor.toRat) by
    refine ⟨x, _, hmoved.1.congr ⟨rfl, rfl⟩ ⟨rfl, rfl⟩ ⟨rfl, rfl⟩ ⟨rfl, rfl⟩ rfl rfl rfl, hquotes,
      fun hliqee hliqor => ?_⟩
    have hforced := hmoved.2 hliqee hliqor
    exact ⟨hforced.1, hforced.2, hforced.3, hforced.4⟩
  split at htrade
  · obtain ⟨⟨liqee₂, market₂⟩, hfirst, htrade⟩ := of_bind htrade
    obtain ⟨-, htrade⟩ := of_checkI64 htrade
    obtain ⟨⟨liqor₂, market₃⟩, hsecond, htrade⟩ := of_bind htrade
    obtain ⟨rfl, rfl, rfl⟩ := ok_inj₃ htrade
    have hmoved := Transferred.of_recordTrade hfirst hsecond
    obtain ⟨hlong, hshort⟩ := recordTrade_funding hfirst
    obtain ⟨hlong', hshort'⟩ := recordTrade_funding hsecond
    refine ⟨hmoved, fun hliqee hliqor => ?_⟩
    have hliqor₂ : liqor.Settled market₂ := ⟨hliqor.1.trans hlong.symm, hliqor.2.trans hshort.symm⟩
    refine ⟨congrArg Ledger.base hmoved.first.2, congrArg Ledger.base hmoved.second.2, ?_, ?_⟩
    · rw [← (recordTrade_equity hliqee hfirst).1, equity,
        equity, fundingOwed_congr rfl rfl rfl hlong' hshort']
    · rw [(recordTrade_equity hliqor₂ hsecond).1, hliqor₂.equity, hliqor.equity]
  · rename_i hx
    obtain rfl : x = 0 := not_not.mp hx
    obtain ⟨rfl, rfl, rfl⟩ := ok_inj₃ htrade
    obtain ⟨hzero, hzero'⟩ := LiquidationTerms.quotes_zero hquotes
    exact ⟨.refl market liqee liqor, fun _ _ => ⟨(add_zero _).symm, (sub_zero _).symm,
      by rw [hzero, add_zero], by rw [hzero', add_zero]⟩⟩

/-- A forced trade and then the settlement of pnl. -/
theorem liquidationAction_spec {maxBaseTransfer : Int} {amounts : LiquidationAmounts}
    (h : liquidationAction market liqor liqee price maxBaseTransfer amounts =
      .ok (market', liqor', liqee')) :
    ∃ x quotes, Transferred market market' liqee liqee' liqor liqor' x ∧
      liquidationQuotes market liqee.basePositionLots maxBaseTransfer price x = .ok quotes ∧
      (liqee.Settled market → liqor.Settled market →
        ForcedTrade market market' liqee liqee' liqor liqor' x
          (quotes.1.toRat - max amounts.pnlTransfer.toRat 0)
          (quotes.2.toRat + max amounts.pnlTransfer.toRat 0)) := by
  obtain ⟨lotSize, hlotSize, h⟩ := of_bind h
  obtain ⟨pricePerLot, hprice, h⟩ := of_bind h
  obtain ⟨terms, hterms, h⟩ := of_bind h
  obtain ⟨_, -, h⟩ := of_bind h
  obtain ⟨reduction, -, h⟩ := of_bind h
  obtain ⟨_, -, h⟩ := of_bind h
  obtain ⟨⟨market₁, liqor₁, liqee₁⟩, htransfer, h⟩ := of_bind h
  obtain ⟨x, quotes, hmoved, hquotes, hforced⟩ := transferBase_spec htransfer
  have hquotes' : liquidationQuotes market liqee.basePositionLots maxBaseTransfer price x =
      .ok quotes := by
    rw [liquidationQuotes, hlotSize, ok_bind, hprice, ok_bind, hterms, ok_bind, hquotes]
  simp only at h
  split at h
  · -- pnl and settle limits are taken over, no lots
    rename_i hpnl
    obtain ⟨liqor₂, htakeover, h⟩ := of_bind h
    obtain ⟨liqee₂, hsettle, h⟩ := of_bind h
    obtain ⟨rfl, rfl, rfl⟩ := ok_inj₃ h
    rw [max_eq_left (Fixed.toRat_pos_iff.mpr hpnl).le]
    have htaken := recordLiquidationPnlTakeover_books htakeover
    have hsettled := recordSettle_books hsettle
    have hliqorBase := congrArg Ledger.base htaken.1.2
    have hliqeeBase := congrArg Ledger.base hsettled.1.2
    refine ⟨x, quotes, hmoved.congr ⟨rfl, rfl⟩ ⟨rfl, rfl⟩ hsettled.1 htaken.1 rfl rfl rfl, hquotes',
      fun hliqee hliqor => ?_⟩
    have hforced := hforced hliqee hliqor
    refine ⟨hliqeeBase.trans hforced.liqeeBase, hliqorBase.trans hforced.liqorBase, ?_, ?_⟩
    · rw [hsettled.pays.equity hliqeeBase, hforced.liqeeEquity]
      ring
    · rw [htaken.pays.equity hliqorBase, hforced.liqorEquity]
      ring
  · rename_i hpnl
    obtain ⟨rfl, rfl, rfl⟩ := ok_inj₃ h
    have hzero : max amounts.pnlTransfer.toRat 0 = 0 :=
      max_eq_right (not_lt.mp fun hpos => hpnl (Fixed.toRat_pos_iff.mp hpos))
    refine ⟨x, quotes, hmoved, hquotes', ?_⟩
    rw [hzero, sub_zero, add_zero]
    exact hforced

end Transferred

/-- Both positions are settled before the forced trade. -/
theorem perpLiqBaseOrPositivePnl_spec {market market' : PerpMarket}
    {liqor liqee liqor' liqee' : MangoAccount} {oraclePrice : I80F48} {maxBaseTransfer : Int}
    {amounts : LiquidationAmounts} {nowTs : Nat}
    (h : perpLiqBaseOrPositivePnl market liqor liqee oraclePrice maxBaseTransfer amounts nowTs =
      .ok (market', liqor', liqee')) :
    ∃ liqor₁ p p' q q' x quotes,
      liqor.ensurePerpPosition market.perpMarketIndex market.settleTokenIndex = .ok liqor₁ ∧
      liqee.perpPosition market.perpMarketIndex = some p ∧
      liqee' = liqee.setPerpPosition market.perpMarketIndex p' ∧
      liqor₁.perpPosition market.perpMarketIndex = some q ∧
      liqor' = liqor₁.setPerpPosition market.perpMarketIndex q' ∧
      Transferred market market' p p' q q' x ∧
      liquidationQuotes market p.basePositionLots (max maxBaseTransfer (I64_MIN + 1)) oraclePrice x =
        .ok quotes ∧
      ForcedTrade market market' p p' q q' x (quotes.1.toRat - max amounts.pnlTransfer.toRat 0)
        (quotes.2.toRat + max amounts.pnlTransfer.toRat 0) := by
  obtain ⟨p, hp, h⟩ := of_bind h
  obtain ⟨_, -, h⟩ := of_bind h
  obtain ⟨liqor₁, hensure, h⟩ := of_bind h
  obtain ⟨q, hq, h⟩ := of_bind h
  obtain ⟨p₁, hp₁, h⟩ := of_bind h
  obtain ⟨q₁, hq₁, h⟩ := of_bind h
  obtain ⟨p₂, hp₂, h⟩ := of_bind h
  obtain ⟨⟨market₁, q₂, p₃⟩, haction, h⟩ := of_bind h
  obtain ⟨rfl, rfl, rfl⟩ := ok_inj₃ h
  have hlimit := updateSettleLimit_books hp₂
  have hkept : p.Keeps p₂ := (settleFunding_keeps hp₁).keeps hlimit.1
  have hkept' := settleFunding_keeps hq₁
  have hbase : p₂.basePositionLots = p.basePositionLots := congrArg Ledger.base hkept.2
  have hbase' : q₁.basePositionLots = q.basePositionLots := congrArg Ledger.base hkept'.2
  have hequity : p₂.equity market = p.equity market := by
    rw [hlimit.pays.equity (congrArg Ledger.base hlimit.1.2), settleFunding_equity hp₁, add_zero]
  obtain ⟨x, quotes, hmoved, hquotes, hforced⟩ := liquidationAction_spec haction
  have hforced := hforced (hlimit.pays.settled (settleFunding_settled hp₁)) (settleFunding_settled hq₁)
  rw [hbase] at hquotes
  refine ⟨liqor₁, p, p₃, q, q₂, x, quotes, hensure, perpPositionMut_eq_ok.mp hp, rfl,
    perpPositionMut_eq_ok.mp hq, rfl,
    hmoved.congr hkept hkept' ⟨rfl, rfl⟩ ⟨rfl, rfl⟩ rfl rfl rfl, hquotes, ?_⟩
  exact ⟨by rw [hforced.liqeeBase, hbase], by rw [hforced.liqorBase, hbase'],
    by rw [hforced.liqeeEquity, hequity],
    by rw [hforced.liqorEquity, settleFunding_equity hq₁]⟩

/-- A force close does not settle funding first. -/
theorem perpForceClosePosition_spec {market market' : PerpMarket} {a b a' b' : MangoAccount}
    {oraclePrice : I80F48}
    (h : perpForceClosePosition market a b oraclePrice = .ok (market', a', b')) :
    ∃ p p' q q' x quote, a.perpPosition market.perpMarketIndex = some p ∧
      a' = a.setPerpPosition market.perpMarketIndex p' ∧
      b.perpPosition market.perpMarketIndex = some q ∧
      b' = b.setPerpPosition market.perpMarketIndex q' ∧ Transferred market market' p p' q q' x ∧
      forceCloseQuote market p.basePositionLots q.basePositionLots oraclePrice = .ok quote ∧
      (p'.equity market' = p.equity market + quote.toRat ↔ p.fundingOwed market = 0) ∧
      (q'.equity market' = q.equity market + -quote.toRat ↔ q.fundingOwed market = 0) := by
  obtain ⟨p, hp, h⟩ := of_bind h
  obtain ⟨q, hq, h⟩ := of_bind h
  obtain ⟨_, hlong, h⟩ := of_bind h
  obtain ⟨_, hshort, h⟩ := of_bind h
  obtain ⟨short, habs, h⟩ := of_bind h
  obtain ⟨native, hnative, h⟩ := of_bind h
  obtain ⟨base, hbase, h⟩ := of_bind h
  obtain ⟨quote, hquote, h⟩ := of_bind h
  obtain ⟨x, hx, h⟩ := of_bind h
  obtain ⟨⟨p', market₁⟩, htrade, h⟩ := of_bind h
  obtain ⟨back, hback, h⟩ := of_bind h
  obtain ⟨⟨q', market₂⟩, htrade', h⟩ := of_bind h
  obtain ⟨rfl, rfl, rfl⟩ := ok_inj₃ h
  have hlong : 0 < p.basePositionLots := of_require hlong
  have hshort : q.basePositionLots < 0 := of_require hshort
  have habsValue : short = |q.basePositionLots| := (checkI64_eq_ok.mp habs).2
  obtain ⟨-, rfl⟩ := checkI64_eq_ok.mp hx
  rw [abs_of_neg hshort] at habsValue
  have hcalc : forceCloseQuote market p.basePositionLots q.basePositionLots oraclePrice =
      .ok quote := by
    rw [forceCloseQuote, habs, ok_bind, hnative, ok_bind, hbase, ok_bind, hquote]
  obtain ⟨hfundingLong, hfundingShort⟩ := recordTrade_funding htrade
  obtain ⟨hfundingLong', hfundingShort'⟩ := recordTrade_funding htrade'
  have hmoved : Transferred market market₂ p p' q q' _ :=
    .of_recordTrade htrade (by rw [neg_neg]; exact htrade')
  refine ⟨p, p', q, q', _, quote, perpPositionMut_eq_ok.mp hp, rfl, perpPositionMut_eq_ok.mp hq, rfl,
    hmoved, hcalc, ?_, ?_⟩
  · rw [← recordTrade_equity_iff (by omega) (Or.inl ⟨hlong, by omega⟩) htrade,
      equity, equity,
      fundingOwed_congr rfl rfl rfl hfundingLong' hfundingShort']
    rfl
  · have howed : q.fundingOwed market₁ = q.fundingOwed market :=
      fundingOwed_congr rfl rfl rfl hfundingLong hfundingShort
    have hiff := recordTrade_equity_iff (by omega) (Or.inr ⟨hshort, by omega⟩) htrade'
    rw [Fixed.toRat_neg hback, howed] at hiff
    rw [← hiff, equity, equity, equity, howed]

namespace Exchange

variable {m : PerpMarketIndex} {K : Clearing → Pubkey → Prop} {P : Prop} {accounts : Accounts}

/-! ## Accounts that are written back -/

variable {pk : Pubkey} {account account' accountA accountB : MangoAccount}
  {perpMarket' : PerpMarket} {oraclePrice : I80F48} {nowTs : Nat}

/-- Writing back an account that counts what it did. -/
theorem clearingOf_store_same (market : Market)
    (hpk : accounts pk = some account) (hledger : account'.ledgerOf m = account.ledgerOf m)
    (horders : account'.perpOpenOrders = account.perpOpenOrders) :
    clearingOf m market (accounts.store pk account') = clearingOf m market accounts := by
  refine Clearing.ext rfl rfl rfl rfl ?_ ?_
  · rw [ledger_store, hledger, ← ledger_of_account m market hpk, update_eq_self]
  · rw [slots_store, horders, ← slots_of_account m market hpk, update_eq_self]

/-- A change of the account that touches neither positions nor slots. -/
theorem refines_of_eq (market : Market)
    (hpk : accounts pk = some account) (hperps : account'.perps = account.perps)
    (horders : account'.perpOpenOrders = account.perpOpenOrders) :
    Refines m K P market accounts market (accounts.store pk account') := by
  have hledger : account'.ledgerOf m = account.ledgerOf m := by
    rw [ledgerOf, ledgerOf, perpPosition, perpPosition, hperps]
  refine ⟨rfl, id, ?_, .store hpk (.of_eq hperps horders)⟩
  rw [clearingOf_store_same market hpk hledger horders]

variable {p p' : PerpPosition} {perpMarket : PerpMarket} {accountA' accountB' : MangoAccount}

/-- A position is written back that counts what it did. -/
theorem refines_of_keeps
    (market : Market) (hpk : accounts pk = some account) (hp : account.perpPosition m = some p)
    (hkeeps : p.Keeps p') :
    Refines m K P market accounts market (accounts.store pk (account.setPerpPosition m p')) := by
  have hmoves := setPerpPosition_moves hp hkeeps
  refine ⟨rfl, id, ?_, .store hpk (hmoves.apart_of_orders rfl)⟩
  rw [clearingOf_store_same market hpk (hmoves.after.trans hmoves.before.symm) rfl]

theorem ensurePerpPosition_refines {t : TokenIndex}
    (hP : ¬ P) (market : Market) (hpk : accounts pk = some account)
    (h : account.ensurePerpPosition m t = .ok account') :
    Refines m K P market accounts market (accounts.store pk account') := by
  obtain ⟨hensured, horders⟩ := ensurePerpPosition_spec h
  cases hensured with
  | existing _ hperps => exact refines_of_eq market hpk hperps horders
  | created hnone hzero hothers hcount =>
    have hapart := Ensured.apart hP (.created hnone hzero hothers hcount) horders
    refine ⟨rfl, id, .single ?_, .store hpk hapart⟩
    have hstep := Step.opened (m := m) (K := K) (s := clearingOf m market accounts)
      ((ledger_of_account m market hpk).trans hnone)
    refine Eq.subst ?_ hstep
    refine Clearing.ext rfl rfl rfl rfl ?_ ?_
    · rw [ledger_store, hzero]
      rfl
    · rw [slots_store, horders, ← slots_of_account m market hpk, update_eq_self]
      rfl

/-- A forced trade of two accounts. -/
theorem transferred_refines {a b : Pubkey} {r r' : PerpPosition} {x : Int} (book : Orderbook)
    (q : EventQueue) (h : Transferred perpMarket perpMarket' p p' r r' x) (hab : a ≠ b)
    (ha : accounts a = some accountA) (hb : accounts b = some accountB)
    (hp : accountA.perpPosition m = some p) (hr : accountB.perpPosition m = some r) :
    Refines m K P ⟨perpMarket, book, q⟩ accounts ⟨perpMarket', book, q⟩
      ((accounts.store a (accountA.setPerpPosition m p')).store b
        (accountB.setPerpPosition m r')) := by
  have hmovesA := setPerpPosition_moves hp h.first
  have hmovesB := setPerpPosition_moves hr h.second
  have hb' : (accounts.store a (accountA.setPerpPosition m p')) b = some accountB :=
    (store_of_ne hab.symm).trans hb
  refine ⟨h.index, id, .single ?_, (ApartAccounts.store ha (hmovesA.apart_of_orders rfl)).trans
    (.store hb' (hmovesB.apart_of_orders rfl))⟩
  have hstep := Step.transfer (m := m) (K := K)
    (s := clearingOf m ⟨perpMarket, book, q⟩ accounts) x hab
    ((ledger_of_account m _ ha).trans hmovesA.before)
    ((ledger_of_account m _ hb).trans hmovesB.before)
  refine Eq.subst ?_ hstep
  refine Clearing.ext rfl rfl h.seqNum.symm ?_ ?_ ?_
  · have hinterest := h.openInterest
    rw [h.first.2, h.second.2] at hinterest
    exact hinterest.symm
  · rw [ledger_store, ledger_store, hmovesA.after, hmovesB.after]
    rfl
  · rw [slots_store, slots_store, setPerpPosition_orders,
      setPerpPosition_orders, ← slots_of_account m ⟨perpMarket', book, q⟩ hb,
      ← slots_of_account m ⟨perpMarket', book, q⟩ ha, update_eq_self,
      update_eq_self]
    rfl

/-! ## The instructions -/

theorem perpPlaceOrder_refines {market market' : Market} {order : Order} {funding : FundingUpdate}
    {limit interval : Nat} {posted : Option Key} (hP : ¬ P)
    (h : perpPlaceOrder market account pk order oraclePrice funding nowTs limit interval =
      .ok (posted, market', account'))
    (hindex : market.perpMarket.perpMarketIndex = m) (hwf : market.book.WellFormed)
    (hpk : accounts pk = some account) (hpos : (clearingOf m market accounts).Positive)
    (hkeyed : (clearingOf m market accounts).Keyed) :
    Refines m K P market accounts market' (accounts.store pk account') := by
  obtain ⟨_, -, h⟩ := of_bind h
  obtain ⟨_, -, h⟩ := of_bind h
  obtain ⟨account₁, hensure, h⟩ := of_bind h
  obtain ⟨account₂, hexpire, h⟩ := of_bind h
  obtain ⟨_, -, h⟩ := of_bind h
  obtain ⟨_, -, h⟩ := of_bind h
  obtain ⟨_, -, h⟩ := of_bind h
  obtain ⟨_, -, h⟩ := of_bind h
  obtain ⟨⟨orderId, book', perpMarket', q', account₃⟩, horder, h⟩ := of_bind h
  obtain ⟨rfl, rfl, rfl⟩ := ok_inj₃ h
  -- funding is not part of the clearing
  have hfunding : Refines m K P market accounts
      ⟨market.perpMarket.updateFunding funding, market.book, market.eventQueue⟩ accounts :=
    ⟨rfl, id, .refl, .refl m P accounts⟩
  have hindex' : (market.perpMarket.updateFunding funding).perpMarketIndex = m := hindex
  rw [hindex'] at hensure
  have hensured := ensurePerpPosition_refines (K := K) hP
    ⟨market.perpMarket.updateFunding funding, market.book, market.eventQueue⟩ hpk hensure
  obtain ⟨hperps, horders⟩ := expireBuybackFees_spec hexpire
  have hexpired := refines_of_eq (m := m) (K := K) (P := P)
    ⟨market.perpMarket.updateFunding funding, market.book, market.eventQueue⟩
    (store_self accounts pk account₁) hperps horders
  have hbefore := (hfunding.trans hensured).trans hexpired
  rw [store_store] at hbefore
  have hordered := newOrder_refines (K := K) (P := P) horder hindex' hwf
    (store_self accounts pk account₂)
    (steps_positive hbefore.steps hpos) (steps_keyed hbefore.steps hkeyed)
  rw [store_store] at hordered
  exact hbefore.trans hordered

theorem perpSettlePnl_refines {market : Market} {a b : Pubkey} {amounts : SettleAmounts}
    (h : perpSettlePnl market.perpMarket accountA accountB oraclePrice amounts nowTs =
      .ok (accountA', accountB')) (hindex : market.perpMarket.perpMarketIndex = m) (hab : a ≠ b)
    (ha : accounts a = some accountA) (hb : accounts b = some accountB) :
    Refines m K P market accounts market ((accounts.store a accountA').store b accountB') := by
  obtain ⟨p, hp, h⟩ := of_bind h
  obtain ⟨_, -, h⟩ := of_bind h
  obtain ⟨r, hr, h⟩ := of_bind h
  obtain ⟨_, -, h⟩ := of_bind h
  obtain ⟨p₁, hp₁, h⟩ := of_bind h
  obtain ⟨r₁, hr₁, h⟩ := of_bind h
  obtain ⟨_, -, h⟩ := of_bind h
  obtain ⟨_, -, h⟩ := of_bind h
  obtain ⟨_, -, h⟩ := of_bind h
  obtain ⟨_, -, h⟩ := of_bind h
  obtain ⟨p₂, hp₂, h⟩ := of_bind h
  obtain ⟨r₂, hr₂, h⟩ := of_bind h
  obtain ⟨_, -, h⟩ := of_bind h
  obtain ⟨_, -, h⟩ := of_bind h
  obtain ⟨_, -, h⟩ := of_bind h
  obtain ⟨_, -, h⟩ := of_bind h
  obtain ⟨_, -, h⟩ := of_bind h
  obtain ⟨p₃, hp₃, h⟩ := of_bind h
  obtain ⟨_, -, h⟩ := of_bind h
  obtain ⟨r₃, hr₃, h⟩ := of_bind h
  obtain ⟨rfl, rfl⟩ := ok_inj₂ h
  rw [hindex] at hp hr ⊢
  have hkeepsA : p.Keeps p₃ := ((settleFunding_keeps hp₁).keeps
    (updateSettleLimit_books hp₂).1).keeps (recordSettle_books hp₃).1
  have hkeepsB : r.Keeps r₃ := ((settleFunding_keeps hr₁).keeps
    (updateSettleLimit_books hr₂).1).keeps (recordSettle_books hr₃).1
  have hfirst := refines_of_keeps (K := K) (P := P) market ha
    (perpPositionMut_eq_ok.mp hp) hkeepsA
  have hb' : accounts.store a (accountA.setPerpPosition m p₃) b = some accountB :=
    (store_of_ne hab.symm).trans hb
  have hsecond := refines_of_keeps (K := K) (P := P) market hb'
    (perpPositionMut_eq_ok.mp hr) hkeepsB
  exact hfirst.trans hsecond

theorem perpForceClosePosition_refines {market : Market} {a b : Pubkey}
    (h : perpForceClosePosition market.perpMarket accountA accountB oraclePrice =
      .ok (perpMarket', accountA', accountB'))
    (hindex : market.perpMarket.perpMarketIndex = m) (hab : a ≠ b)
    (ha : accounts a = some accountA) (hb : accounts b = some accountB) :
    Refines m K P market accounts { market with perpMarket := perpMarket' }
      ((accounts.store a accountA').store b accountB') := by
  obtain ⟨p, p', r, r', x, quote, hp, rfl, hr, rfl, hmoved, -⟩ := perpForceClosePosition_spec h
  rw [hindex] at hp hr ⊢
  exact transferred_refines market.book market.eventQueue hmoved hab ha hb hp hr

theorem perpLiqBaseOrPositivePnl_refines {market : Market}
    {liqorPk liqeePk : Pubkey} {liqor liqor' liqee liqee' : MangoAccount}
    {maxBaseTransfer : Int} {amounts : LiquidationAmounts} (hP : ¬ P)
    (h : perpLiqBaseOrPositivePnl market.perpMarket liqor liqee oraclePrice maxBaseTransfer amounts
      nowTs = .ok (perpMarket', liqor', liqee'))
    (hindex : market.perpMarket.perpMarketIndex = m) (hne : liqorPk ≠ liqeePk)
    (hliqor : accounts liqorPk = some liqor) (hliqee : accounts liqeePk = some liqee) :
    Refines m K P market accounts { market with perpMarket := perpMarket' }
      ((accounts.store liqorPk liqor').store liqeePk liqee') := by
  obtain ⟨liqor₁, p, p', r, r', x, quotes, hensure, hp, rfl, hr, rfl, hmoved, -⟩ :=
    perpLiqBaseOrPositivePnl_spec h
  rw [hindex] at hp hr hensure ⊢
  have hfirst := ensurePerpPosition_refines (K := K) hP market hliqor hensure
  have hsecond := transferred_refines (K := K) (P := P) market.book market.eventQueue hmoved.symm hne
    (store_self accounts liqorPk liqor₁) ((store_of_ne hne.symm).trans hliqee) hr hp
  rw [store_store] at hsecond
  exact hfirst.trans hsecond

/-- Only a position that counts nothing can be closed. -/
theorem perpDeactivatePosition_zero (h : perpDeactivatePosition perpMarket account = .ok account') :
    ∃ account₁, PerpMoves account account₁ perpMarket.perpMarketIndex .zero .zero ∧
      account₁.perpOpenOrders = account.perpOpenOrders ∧
      account₁.deactivatePerpPosition perpMarket.perpMarketIndex perpMarket.settleTokenIndex =
        .ok account' := by
  obtain ⟨p, hp, h⟩ := of_bind h
  obtain ⟨p₁, hfunding, h⟩ := of_bind h
  obtain ⟨_, hbase, h⟩ := of_bind h
  obtain ⟨_, -, h⟩ := of_bind h
  obtain ⟨_, hmaker, h⟩ := of_bind h
  obtain ⟨_, htaker, h⟩ := of_bind h
  have hbase := of_require hbase
  obtain ⟨hbids, hasks⟩ := of_require hmaker
  obtain ⟨htakerBase, htakerQuote⟩ := of_require htaker
  have hkeeps := settleFunding_keeps hfunding
  have hzero : p.ledger = .zero := by
    rw [← hkeeps.2]
    exact Ledger.ext hbids hasks htakerBase htakerQuote hbase
  have hmoves := setPerpPosition_moves (perpPositionMut_eq_ok.mp hp) hkeeps
  rw [hzero] at hmoves
  exact ⟨_, hmoves, rfl, h⟩

theorem perpDeactivatePosition_refines {market : Market} (hP : ¬ P)
    (h : perpDeactivatePosition market.perpMarket account = .ok account')
    (hindex : market.perpMarket.perpMarketIndex = m) (hpk : accounts pk = some account)
    (hcount : m ≠ FREE_ORDER_SLOT → account.perpCount m ≤ 1)
    (hK : K (clearingOf m market accounts) pk) :
    Refines m K P market accounts market (accounts.store pk account') := by
  obtain ⟨account₁, hmoves, horders₁, h⟩ := perpDeactivatePosition_zero h
  rw [hindex] at hmoves h
  obtain ⟨⟨l, hdeactivated⟩, horders⟩ := deactivatePerpPosition_spec h
  rw [horders₁] at horders
  have hapart : Apart m P account account' :=
    (hmoves.apart_of_orders horders₁).trans (hdeactivated.apart hP (horders.trans horders₁.symm))
  have hledger := (ledger_of_account m market hpk).trans hmoves.before
  refine ⟨rfl, id, ?_, .store hpk hapart⟩
  by_cases hfree : m = FREE_ORDER_SLOT
  · -- the position stays where it is
    have hl := hdeactivated.before
    rw [hmoves.after] at hl
    have hafter := hdeactivated.free hfree
    rw [← Option.some.inj hl] at hafter
    rw [clearingOf_store_same market hpk (hafter.trans hmoves.before.symm) horders]
  · have hnone := hdeactivated.after hfree ((hmoves.count m).symm ▸ hcount hfree)
    have hstep := Step.closed (m := m) hledger hK
    refine .single (Eq.subst ?_ hstep)
    refine Clearing.ext rfl rfl rfl rfl ?_ ?_
    · rw [ledger_store, hnone]
      rfl
    · rw [slots_store, horders, ← slots_of_account m market hpk, update_eq_self]
      rfl

end Exchange

end MangoV4
