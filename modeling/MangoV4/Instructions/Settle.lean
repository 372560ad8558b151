/-
  MangoV4.Instructions.Settle

  What `perp_settle_pnl`, `perp_settle_fees` and
  `perp_liq_negative_pnl_or_bankruptcy` do to the perp positions they settle,
  with the settle limits they apply.

  Each function also returns the positions as they were when the limit was
  applied to them.  Prices and what health allows are arguments; the token
  transfers that pay for a settlement are left out.
-/

import MangoV4.Instructions.Funding

namespace MangoV4

open Lib Lib.Exec

namespace PerpMarket

variable (product : I80F48 → I80F48 → Int)

/-! ## perp_settle_pnl -/

/-- Settles pnl of the profitable position `a` against the unprofitable `b`. -/
def settlePnl (market : PerpMarket) (a b : PerpPosition) (oraclePrice bMaxSettle : I80F48)
    (nowTs : Nat) : Exec ((PerpPosition × PerpPosition) × PerpPosition × PerpPosition) := do
  let a ← a.settleFunding market
  let b ← b.settleFunding market
  let aPnl ← a.unsettledPnl market oraclePrice
  let bPnl ← b.unsettledPnl market oraclePrice
  require (decide (.zero < aPnl)) .profitabilityMismatch
  require (decide (bPnl < .zero)) .profitabilityMismatch
  let aLimited ← a.updateSettleLimit market nowTs
  let aSettleablePnl ← aLimited.applyPnlSettleLimit product market aPnl
  let bLimited ← b.updateSettleLimit market nowTs
  let bSettleablePnl ← bLimited.applyPnlSettleLimit product market bPnl
  require (decide (.zero < aSettleablePnl)) .profitabilityMismatch
  require (decide (bSettleablePnl < .zero)) .profitabilityMismatch
  require (decide (.zero < bMaxSettle)) .healthMustBePositive
  let settlement := ((aSettleablePnl.min (← bSettleablePnl.neg)).min bMaxSettle).max .zero
  require (decide (.zero ≤ settlement)) .settlementAmountMustBePositive
  let a ← aLimited.recordSettle settlement market
  let b ← bLimited.recordSettle (← settlement.neg) market
  return ((aLimited, bLimited), a, b)

/-! ## perp_settle_fees -/

/-- Settles negative pnl against the fees that the market has accrued. -/
def settleFees (market : PerpMarket) (p : PerpPosition) (oraclePrice : I80F48)
    (maxSettleAmount : Nat) : Exec (PerpPosition × PerpMarket × PerpPosition) := do
  require (decide (0 < maxSettleAmount)) .maxSettleAmountMustBeGreaterThanZero
  let limited ← p.settleFunding market
  let pnl ← limited.unsettledPnl market oraclePrice
  -- the window of the limit is the one the position was left in
  let settleablePnl ← limited.applyPnlSettleLimit product market pnl
  if ¬ settleablePnl < .zero ∨ ¬ .zero < market.feesAccrued then
    return (limited, market, limited)
  else
    let settlement := ((← settleablePnl.abs).min (← market.feesAccrued.abs)).min
      (← Fixed.ofInt maxSettleAmount)
    require (decide (.zero ≤ settlement)) .settlementAmountMustBePositive
    let p ← limited.recordSettle (← settlement.neg) market
    let feesAccrued ← market.feesAccrued.sub settlement
    return (limited, { market with feesAccrued }, p)

/-! ## perp_liq_negative_pnl_or_bankruptcy -/

/-- Prices, and what health and the insurance fund allow. -/
structure BankruptcyTerms where
  perpOraclePrice : I80F48
  settleTokenOraclePrice : I80F48
  insuranceTokenOraclePrice : I80F48
  /-- `perp_max_settle` of the liqee -/
  liqeeMaxSettle : I80F48
  /-- The pnl increase that brings the liqee's health to zero. -/
  maxForHealth : I80F48
  /-- Zero if the market has no claim to the insurance fund. -/
  insuranceVaultAmount : Nat

/-- The outcome of the first step. -/
structure TakenOver where
  settlement : I80F48
  maxSettlementLiqee : I80F48
  liqeePnl : I80F48
  /-- The liqee as the limit was applied to it. -/
  limited : PerpPosition
  liqor : PerpPosition
  liqee : PerpPosition

/-- Step 1: the liqor takes over negative pnl of the liqee within the settle limit. -/
def takeOverNegativePnl (market : PerpMarket) (liqor liqee : PerpPosition)
    (terms : BankruptcyTerms) (maxLiabTransfer nowTs : Nat) : Exec TakenOver := do
  let liqee ← liqee.settleFunding market
  let liqor ← liqor.settleFunding market
  let liqeePnl ← liqee.unsettledPnl market terms.perpOraclePrice
  require (decide (liqeePnl < .zero)) .profitabilityMismatch
  let limited ← liqee.updateSettleLimit market nowTs
  let liqeeSettleablePnl ← limited.applyPnlSettleLimit product market liqeePnl
  let maxSettlementLiqee := (terms.liqeeMaxSettle.min (← liqeeSettleablePnl.neg)).max .zero
  let settlement := (maxSettlementLiqee.min (← Fixed.ofInt maxLiabTransfer)).max .zero
  if .zero < settlement then
    let liqor ← liqor.recordLiquidationQuoteChange (← settlement.neg)
    let liqee ← limited.recordSettle (← settlement.neg) market
    let liqeePnl ← liqeePnl.add settlement
    return { settlement, maxSettlementLiqee, liqeePnl, limited, liqor, liqee }
  else return { settlement, maxSettlementLiqee, liqeePnl, limited, liqor, liqee := limited }

def socializeLoss (market : PerpMarket) (loss : I80F48) : Exec (I80F48 × PerpMarket) := do
  require (decide (loss ≤ .zero)) .requireGteViolated
  let socializedLoss ← (if market.openInterest = 0 then .ok .zero
    else do loss.div (← Fixed.ofInt market.openInterest) : Exec I80F48)
  let longFunding ← market.longFunding.sub socializedLoss
  let shortFunding ← market.shortFunding.add socializedLoss
  return (socializedLoss, { market with longFunding, shortFunding })

/-- Step 2: pnl that cannot be settled is paid for by the insurance fund, and
    socialized once the fund is empty. -/
def bankruptcy (market : PerpMarket) (liqor liqee : PerpPosition) (terms : BankruptcyTerms)
    (maxLiabTransfer : I80F48) : Exec (PerpMarket × PerpPosition × PerpPosition) := do
  let liqeePnl ← liqee.unsettledPnl market terms.perpOraclePrice
  let maxLiabTransferFromLiqee := ((← liqeePnl.neg).min terms.maxForHealth).max .zero
  let maxLiabTransferToLiqor := (maxLiabTransferFromLiqee.min maxLiabTransfer).max .zero
  let liquidationFeeFactor ← I80F48.ONE.add market.baseLiquidationFee
  let priceWithFee ← terms.settleTokenOraclePrice.mul liquidationFeeFactor
  let wanted ← (← (← maxLiabTransferToLiqor.mul priceWithFee).div
    terms.insuranceTokenOraclePrice).ceil
  let insuranceTransfer := min (← wanted.toU64) terms.insuranceVaultAmount
  let insuranceWorth ← (← Fixed.ofInt insuranceTransfer).mul terms.insuranceTokenOraclePrice
  let insuranceLiabTransfer := (← insuranceWorth.div priceWithFee).min maxLiabTransferToLiqor
  let (liqor, liqee) ← (if 0 < insuranceTransfer then do
      let liqee ← liqee.recordSettle (← insuranceLiabTransfer.neg) market
      let liqor ← liqor.recordLiquidationQuoteChange (← insuranceLiabTransfer.neg)
      return (liqor, liqee)
    else .ok (liqor, liqee) : Exec (PerpPosition × PerpPosition))
  let remainingLiab ← maxLiabTransferFromLiqee.sub insuranceLiabTransfer
  if insuranceTransfer = terms.insuranceVaultAmount ∧ .zero < remainingLiab then
    let (_, market) ← market.socializeLoss (← remainingLiab.neg)
    let liqee ← liqee.recordSettle (← remainingLiab.neg) market
    return (market, liqor, liqee)
  else return (market, liqor, liqee)

def liqNegativePnlOrBankruptcy (market : PerpMarket) (liqor liqee : PerpPosition)
    (terms : BankruptcyTerms) (maxLiabTransfer nowTs : Nat) :
    Exec (PerpPosition × PerpMarket × PerpPosition × PerpPosition) := do
  let taken ← market.takeOverNegativePnl product liqor liqee terms maxLiabTransfer nowTs
  let rest ← (← Fixed.ofInt maxLiabTransfer).sub taken.settlement
  -- pnl that is still negative and could not be settled any further
  if taken.settlement = taken.maxSettlementLiqee ∧ taken.liqeePnl < .zero then
    let (market, liqor, liqee) ← market.bankruptcy taken.liqor taken.liqee terms rest
    return (taken.limited, market, liqor, liqee)
  else return (taken.limited, market, taken.liqor, taken.liqee)

/-! ## The same functions elsewhere -/

/-- `socializeLoss` is the function that funding is studied with. -/
theorem socializeLoss_funding {market market' : PerpMarket} {loss x : I80F48} (c : FundingConfig)
    (h : market.socializeLoss loss = .ok (x, market')) :
    (market.fundingMarket c).socializeLoss loss = .ok (x, market'.fundingMarket c) := by
  obtain ⟨_, hloss, h⟩ := of_bind h
  obtain ⟨_, hx, h⟩ := of_bind h
  obtain ⟨long, hlong, h⟩ := of_bind h
  obtain ⟨short, hshort, h⟩ := of_bind h
  obtain ⟨rfl, rfl⟩ := ok_inj₂ h
  exact bind_eq_ok.mpr ⟨_, hloss, bind_eq_ok.mpr ⟨_, hx, bind_eq_ok.mpr ⟨long, hlong,
    bind_eq_ok.mpr ⟨short, hshort, rfl⟩⟩⟩⟩

/-- `perp_settle_pnl` on accounts settles their positions with the amounts that
    the limits give. -/
theorem perpSettlePnl_of_settlePnl {market : PerpMarket} {accountA accountB : MangoAccount}
    {a b aLimited bLimited a' b' : PerpPosition} {ta tb : TokenPosition}
    {oraclePrice bMaxSettle : I80F48} {nowTs : Nat}
    (ha : accountA.perpPositionMut market.perpMarketIndex = .ok a)
    (hta : accountA.tokenPositionMut market.settleTokenIndex = .ok ta)
    (hb : accountB.perpPositionMut market.perpMarketIndex = .ok b)
    (htb : accountB.tokenPositionMut market.settleTokenIndex = .ok tb)
    (h : market.settlePnl product a b oraclePrice bMaxSettle nowTs =
      .ok ((aLimited, bLimited), a', b')) :
    ∃ amounts, perpSettlePnl market accountA accountB oraclePrice amounts nowTs =
      .ok (accountA.setPerpPosition market.perpMarketIndex a',
        accountB.setPerpPosition market.perpMarketIndex b') := by
  obtain ⟨a₁, ha₁, h⟩ := of_bind h
  obtain ⟨b₁, hb₁, h⟩ := of_bind h
  obtain ⟨aPnl, haPnl, h⟩ := of_bind h
  obtain ⟨bPnl, hbPnl, h⟩ := of_bind h
  obtain ⟨_, hgain, h⟩ := of_bind h
  obtain ⟨_, hloss, h⟩ := of_bind h
  obtain ⟨a₂, ha₂, h⟩ := of_bind h
  obtain ⟨aSettleablePnl, -, h⟩ := of_bind h
  obtain ⟨b₂, hb₂, h⟩ := of_bind h
  obtain ⟨bSettleablePnl, -, h⟩ := of_bind h
  obtain ⟨_, hgain', h⟩ := of_bind h
  obtain ⟨_, hloss', h⟩ := of_bind h
  obtain ⟨_, hmax, h⟩ := of_bind h
  obtain ⟨n, hn, h⟩ := of_bind h
  obtain ⟨_, hpos, h⟩ := of_bind h
  obtain ⟨a₃, ha₃, h⟩ := of_bind h
  obtain ⟨n', hn', h⟩ := of_bind h
  obtain ⟨b₃, hb₃, h⟩ := of_bind h
  obtain ⟨-, hab⟩ := ok_inj₂ h
  obtain ⟨rfl, rfl⟩ := Prod.mk.inj hab
  refine ⟨⟨aSettleablePnl, bSettleablePnl, bMaxSettle⟩, ?_⟩
  unfold perpSettlePnl
  rw [ha, hta, hb, htb]
  simp only [ok_bind]
  rw [ha₁, ok_bind, hb₁, ok_bind, haPnl, ok_bind, hbPnl, ok_bind, hgain, ok_bind, hloss, ok_bind,
    ha₂, ok_bind, hb₂, ok_bind, hgain', ok_bind, hloss', ok_bind, hmax, ok_bind, hn, ok_bind,
    hpos, ok_bind, ha₃, ok_bind, hn', ok_bind, hb₃, ok_bind]
  rfl

end PerpMarket

end MangoV4
