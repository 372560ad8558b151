/-
  MangoV4.Instructions.Perp

  The instructions that trade, settle and liquidate perp positions
  (`instructions/perp_*.rs`).

  Health and oracles are outside of this model.  Where an instruction asks them
  for a price or an amount, that value is an argument, and every value is
  allowed; where they can only reject an instruction, nothing is lost by
  leaving the check out, because a rejected instruction changes nothing.
-/

import MangoV4.Orderbook.Book

namespace MangoV4

open Lib Lib.Exec

/-- The accounts that belong to one perp market. -/
structure Market where
  perpMarket : PerpMarket
  book : Orderbook
  eventQueue : EventQueue

/-! ## perp_place_order -/

/-- What updating funding and the stable price writes to the market. -/
structure FundingUpdate where
  longFunding : I80F48
  shortFunding : I80F48
  stablePrice : I80F48

def PerpMarket.updateFunding (m : PerpMarket) (u : FundingUpdate) : PerpMarket :=
  { m with
    longFunding := u.longFunding
    shortFunding := u.shortFunding
    stablePrice := u.stablePrice }

/-- The position once all queued taker fills are processed. -/
def PerpPosition.effectiveBasePositionLots (p : PerpPosition) : Exec Int :=
  checkI64 (p.basePositionLots + p.takerBaseLots)

/-- The part of a reduce-only order that does reduce the position. -/
def reduceOnlyMaxBaseLots (pp : PerpPosition) (order : Order) (marketReduceOnly : Bool) :
    Exec Int := do
  let effectivePos ← pp.effectiveBasePositionLots
  let allowedBaseLots ←
    (if (order.side = .bid ∧ 0 ≤ effectivePos) ∨ (order.side = .ask ∧ effectivePos ≤ 0) then .ok 0
    else if marketReduceOnly then
      -- stricter: all open orders in the order's direction count as executed
      match order.side with
      | .bid => do absI64 (min (← checkI64 (effectivePos + pp.bidsBaseLots)) 0)
      | .ask => do return max (← checkI64 (effectivePos - pp.asksBaseLots)) 0
    else absI64 effectivePos : Exec Int)
  return min allowedBaseLots order.maxBaseLots

def perpPlaceOrder (market : Market) (account : MangoAccount) (accountPk : Pubkey) (order : Order)
    (oraclePrice : I80F48) (funding : FundingUpdate) (nowTs limit buybackFeesExpiryInterval : Nat) :
    Exec (Option Key × Market × MangoAccount) := do
  require (decide (0 ≤ order.maxBaseLots)) .requireGteViolated
  require (decide (0 ≤ order.maxQuoteLots)) .requireGteViolated
  let perpMarket := market.perpMarket.updateFunding funding
  let account ← account.ensurePerpPosition perpMarket.perpMarketIndex perpMarket.settleTokenIndex
  let account ← account.expireBuybackFees nowTs buybackFeesExpiryInterval
  let pp ← account.perpPositionMut perpMarket.perpMarketIndex
  let _ ← pp.effectiveBasePositionLots
  let maxBaseLots ← (if order.reduceOnly || perpMarket.reduceOnly then
      reduceOnlyMaxBaseLots pp order perpMarket.reduceOnly
    else .ok order.maxBaseLots : Exec Int)
  require (!perpMarket.reduceOnly || order.reduceOnly ||
    decide (maxBaseLots = order.maxBaseLots)) .marketInReduceOnlyMode
  let (orderId, book, perpMarket, eventQueue, account) ←
    market.book.newOrder { order with maxBaseLots } perpMarket market.eventQueue oraclePrice
      account accountPk nowTs limit
  return (orderId, { perpMarket, book, eventQueue }, account)

/-! ## perp_consume_events -/

/-- All mango accounts, by their address. -/
abbrev Accounts := Pubkey → Option MangoAccount

def Accounts.load (accounts : Accounts) (key : Pubkey) : Exec MangoAccount :=
  match accounts key with
  | some account => .ok account
  | none => fail .accountNotInitialized

/-- Writes back a loaded account. -/
def Accounts.store (accounts : Accounts) (key : Pubkey) (account : MangoAccount) : Accounts :=
  Function.update accounts key (some account)

/-- `load_mango_account!`: `none` if the account was not passed in. -/
def loadPassed (accounts : Accounts) (passed : List Pubkey) (key : Pubkey) :
    Exec (Option MangoAccount) :=
  if key ∈ passed then do return some (← accounts.load key) else .ok none

/-- Processes one event; `none` if one of its accounts was not passed in. -/
def consumeEvent (perpMarket : PerpMarket) (accounts : Accounts) (passed : List Pubkey)
    (nowTs buybackFeesExpiryInterval : Nat) :
    AnyEvent → Exec (Option (PerpMarket × Accounts))
  | .fill fill =>
    if fill.maker = fill.taker then do
      match ← loadPassed accounts passed fill.maker with
      | none => return none
      | some makerTaker =>
        let (makerTaker, perpMarket) ←
          makerTaker.executePerpMaker perpMarket fill nowTs buybackFeesExpiryInterval
        let (makerTaker, perpMarket) ← makerTaker.executePerpTaker perpMarket fill
        return some (perpMarket, accounts.store fill.maker makerTaker)
    else do
      match ← loadPassed accounts passed fill.maker with
      | none => return none
      | some maker =>
        match ← loadPassed accounts passed fill.taker with
        | none => return none
        | some taker =>
          let (maker, perpMarket) ←
            maker.executePerpMaker perpMarket fill nowTs buybackFeesExpiryInterval
          let (taker, perpMarket) ← taker.executePerpTaker perpMarket fill
          return some (perpMarket, (accounts.store fill.maker maker).store fill.taker taker)
  | .out out => do
    match ← loadPassed accounts passed out.owner with
    | none => return none
    | some owner =>
      let owner ← owner.executePerpOutEvent perpMarket.perpMarketIndex out.side out.ownerSlot
        out.quantity out.orderId
      return some (perpMarket, accounts.store out.owner owner)
  -- for record keeping only
  | .liquidate => .ok (some (perpMarket, accounts))

/-- Events are processed in order; a missing account ends the loop and keeps
    what has been done so far. -/
def consumeLoop (passed : List Pubkey) (nowTs buybackFeesExpiryInterval : Nat) :
    Nat → Market → Accounts → Exec (Market × Accounts)
  | 0, market, accounts => .ok (market, accounts)
  | limit + 1, market, accounts =>
    match market.eventQueue.peekFront with
    | none => .ok (market, accounts)
    | some event => do
      match ← consumeEvent market.perpMarket accounts passed nowTs buybackFeesExpiryInterval
          event with
      | none => return (market, accounts)
      | some (perpMarket, accounts) =>
        let (_, eventQueue) ← market.eventQueue.popFront
        consumeLoop passed nowTs buybackFeesExpiryInterval limit
          { market with perpMarket, eventQueue } accounts

def perpConsumeEvents (market : Market) (accounts : Accounts) (passed : List Pubkey)
    (limit nowTs buybackFeesExpiryInterval : Nat) : Exec (Market × Accounts) :=
  consumeLoop passed nowTs buybackFeesExpiryInterval (min limit 8) market accounts

/-! ## perp_settle_pnl and perp_deactivate_position -/

/-- What the settle limits and the health of account b allow to settle. -/
structure SettleAmounts where
  aSettleablePnl : I80F48
  bSettleablePnl : I80F48
  bMaxSettle : I80F48

def perpSettlePnl (perpMarket : PerpMarket) (accountA accountB : MangoAccount)
    (oraclePrice : I80F48) (amounts : SettleAmounts) (nowTs : Nat) :
    Exec (MangoAccount × MangoAccount) := do
  let a ← accountA.perpPositionMut perpMarket.perpMarketIndex
  let _ ← accountA.tokenPositionMut perpMarket.settleTokenIndex
  let b ← accountB.perpPositionMut perpMarket.perpMarketIndex
  let _ ← accountB.tokenPositionMut perpMarket.settleTokenIndex
  let a ← a.settleFunding perpMarket
  let b ← b.settleFunding perpMarket
  let aPnl ← a.unsettledPnl perpMarket oraclePrice
  let bPnl ← b.unsettledPnl perpMarket oraclePrice
  require (decide (.zero < aPnl)) .profitabilityMismatch
  require (decide (bPnl < .zero)) .profitabilityMismatch
  let a ← a.updateSettleLimit perpMarket nowTs
  let b ← b.updateSettleLimit perpMarket nowTs
  require (decide (.zero < amounts.aSettleablePnl)) .profitabilityMismatch
  require (decide (amounts.bSettleablePnl < .zero)) .profitabilityMismatch
  require (decide (.zero < amounts.bMaxSettle)) .healthMustBePositive
  let settlement := ((amounts.aSettleablePnl.min (← amounts.bSettleablePnl.neg)).min
    amounts.bMaxSettle).max .zero
  require (decide (.zero ≤ settlement)) .settlementAmountMustBePositive
  let a ← a.recordSettle settlement perpMarket
  let b ← b.recordSettle (← settlement.neg) perpMarket
  return (accountA.setPerpPosition perpMarket.perpMarketIndex a,
    accountB.setPerpPosition perpMarket.perpMarketIndex b)

def perpDeactivatePosition (perpMarket : PerpMarket) (account : MangoAccount) :
    Exec MangoAccount := do
  let p ← account.perpPositionMut perpMarket.perpMarketIndex
  -- is the perp position closable?
  let p ← p.settleFunding perpMarket
  let account := account.setPerpPosition perpMarket.perpMarketIndex p
  require (decide (p.basePositionLots = 0)) .someError
  require (decide (p.quotePositionNative = .zero)) .someError
  require (decide (p.bidsBaseLots = 0 ∧ p.asksBaseLots = 0)) .someError
  require (decide (p.takerBaseLots = 0 ∧ p.takerQuoteLots = 0)) .someError
  account.deactivatePerpPosition perpMarket.perpMarketIndex perpMarket.settleTokenIndex

/-! ## perp_force_close_position -/

def perpForceClosePosition (perpMarket : PerpMarket) (accountA accountB : MangoAccount)
    (oraclePrice : I80F48) : Exec (PerpMarket × MangoAccount × MangoAccount) := do
  let index := perpMarket.perpMarketIndex
  let a ← accountA.perpPositionMut index
  let b ← accountB.perpPositionMut index
  require (decide (0 < a.basePositionLots)) .someError
  require (decide (b.basePositionLots < 0)) .someError
  let baseTransfer := max (min a.basePositionLots (← absI64 b.basePositionLots)) 0
  let baseNative ← Fixed.ofInt (← checkI64 (baseTransfer * perpMarket.baseLotSize))
  let quoteTransfer ← baseNative.mul oraclePrice
  let (a, perpMarket) ← a.recordTrade perpMarket (← checkI64 (-baseTransfer)) quoteTransfer
  let (b, perpMarket) ← b.recordTrade perpMarket baseTransfer (← quoteTransfer.neg)
  return (perpMarket, accountA.setPerpPosition index a, accountB.setPerpPosition index b)

/-! ## perp_liq_base_or_positive_pnl -/

/-- One base reduction step: `wanted` lots would be enough for the liqee's
    health, position and limit allow at most what they have left. -/
def reduceBase (liqeeBaseLots maxBaseTransfer baseReduction wanted : Int) : Exec Int := do
  let byPosition ← checkI64 ((← absI64 liqeeBaseLots) - baseReduction)
  let byLimit ← checkI64 ((← absI64 maxBaseTransfer) - baseReduction)
  checkI64 (baseReduction + max (min (min wanted byPosition) byLimit) 0)

/-- Direction in which the liqee's base position moves, fee factor of the
    liquidator and of all fees together, and gain of unsettled pnl in health
    terms for each lot. -/
structure LiquidationTerms where
  direction : Int
  baseFeeFactorLiqor : I80F48
  baseFeeFactorAll : I80F48
  uhupnlPerLot : I80F48

def liquidationTerms (perpMarket : PerpMarket) (liqeeBaseLots maxBaseTransfer : Int)
    (oraclePricePerLot : I80F48) : Exec LiquidationTerms := do
  let one ← Fixed.ofInt 1
  if 0 < liqeeBaseLots then
    require (decide (0 ≤ maxBaseTransfer)) .someError
    let factorLiqor ← one.sub perpMarket.baseLiquidationFee
    let factorAll ← factorLiqor.sub perpMarket.platformLiquidationFee
    let uhupnlPerLot ← oraclePricePerLot.mul
      (← (← perpMarket.initBaseAssetWeight.neg).add factorAll)
    return ⟨-1, factorLiqor, factorAll, uhupnlPerLot⟩
  else
    require (decide (maxBaseTransfer ≤ 0)) .someError
    let factorLiqor ← one.add perpMarket.baseLiquidationFee
    let factorAll ← factorLiqor.add perpMarket.platformLiquidationFee
    let uhupnlPerLot ← oraclePricePerLot.mul (← perpMarket.initBaseLiabWeight.sub factorAll)
    return ⟨1, factorLiqor, factorAll, uhupnlPerLot⟩

/-- What health asks a liquidation to do: the lots wanted in each base
    reduction step, and the pnl and settle limits that are taken over. -/
structure LiquidationAmounts where
  wantedBaseLots : List Int
  pnlTransfer : I80F48
  limitTransferRecurring : Int
  limitTransferOneshot : Int

/-- A forced trade of liqee and liquidator. -/
def transferBase (perpMarket : PerpMarket) (liqor liqee : PerpPosition) (terms : LiquidationTerms)
    (oraclePricePerLot : I80F48) (baseReduction : Int) :
    Exec (PerpMarket × PerpPosition × PerpPosition) := do
  let baseTransfer ← checkI64 (terms.direction * baseReduction)
  let quoteTransferBase ← (← (← Fixed.ofInt baseTransfer).neg).mul oraclePricePerLot
  let quoteTransferLiqee ← quoteTransferBase.mul terms.baseFeeFactorAll
  let quoteTransferLiqor ← (← quoteTransferBase.neg).mul terms.baseFeeFactorLiqor
  let (perpMarket, liqor, liqee) ← (if baseTransfer ≠ 0 then do
      let (liqee, perpMarket) ← liqee.recordTrade perpMarket baseTransfer quoteTransferLiqee
      let (liqor, perpMarket) ←
        liqor.recordTrade perpMarket (← checkI64 (-baseTransfer)) quoteTransferLiqor
      return (perpMarket, liqor, liqee)
    else .ok (perpMarket, liqor, liqee) : Exec (PerpMarket × PerpPosition × PerpPosition))
  let platformFee := (← (← quoteTransferLiqor.neg).sub quoteTransferLiqee).max .zero
  let feesAccrued ← perpMarket.feesAccrued.add platformFee
  let accruedLiquidationFees ← perpMarket.accruedLiquidationFees.add platformFee
  return ({ perpMarket with feesAccrued, accruedLiquidationFees }, liqor, liqee)

def liquidationAction (perpMarket : PerpMarket) (liqor liqee : PerpPosition)
    (oraclePrice : I80F48) (maxBaseTransfer : Int) (amounts : LiquidationAmounts) :
    Exec (PerpMarket × PerpPosition × PerpPosition) := do
  let oraclePricePerLot ← (← Fixed.ofInt perpMarket.baseLotSize).mul oraclePrice
  let liqeeBaseLots := liqee.basePositionLots
  let terms ← liquidationTerms perpMarket liqeeBaseLots maxBaseTransfer oraclePricePerLot
  assert (decide (.zero < terms.uhupnlPerLot))
  let baseReduction ← amounts.wantedBaseLots.foldlM (reduceBase liqeeBaseLots maxBaseTransfer) 0
  assert (decide (baseReduction ≤ |liqeeBaseLots|))
  let (perpMarket, liqor, liqee) ←
    transferBase perpMarket liqor liqee terms oraclePricePerLot baseReduction
  if .zero < amounts.pnlTransfer then
    let liqor ← liqor.recordLiquidationPnlTakeover amounts.pnlTransfer
      amounts.limitTransferRecurring amounts.limitTransferOneshot
    let liqee ← liqee.recordSettle amounts.pnlTransfer perpMarket
    return (perpMarket, liqor, liqee)
  else return (perpMarket, liqor, liqee)

def perpLiqBaseOrPositivePnl (perpMarket : PerpMarket) (liqor liqee : MangoAccount)
    (oraclePrice : I80F48) (maxBaseTransfer : Int) (amounts : LiquidationAmounts) (nowTs : Nat) :
    Exec (PerpMarket × MangoAccount × MangoAccount) := do
  -- ensure that it can be negated
  let maxBaseTransfer := max maxBaseTransfer (I64_MIN + 1)
  let index := perpMarket.perpMarketIndex
  let liqeePosition ← liqee.perpPositionMut index
  require (!liqeePosition.hasOpenTakerFills) .hasOpenPerpTakerFills
  let liqor ← liqor.ensurePerpPosition index perpMarket.settleTokenIndex
  let liqorPosition ← liqor.perpPositionMut index
  let liqeePosition ← liqeePosition.settleFunding perpMarket
  let liqorPosition ← liqorPosition.settleFunding perpMarket
  let liqeePosition ← liqeePosition.updateSettleLimit perpMarket nowTs
  let (perpMarket, liqorPosition, liqeePosition) ←
    liquidationAction perpMarket liqorPosition liqeePosition oraclePrice maxBaseTransfer amounts
  return (perpMarket, liqor.setPerpPosition index liqorPosition,
    liqee.setPerpPosition index liqeePosition)

/-! ## The exchange -/

/-- All perp markets and all mango accounts. -/
structure Exchange where
  markets : PerpMarketIndex → Option Market
  accounts : Accounts

namespace Exchange

def loadMarket (s : Exchange) (index : PerpMarketIndex) : Exec Market :=
  match s.markets index with
  | some market => .ok market
  | none => fail .accountNotInitialized

/-- Writes back a loaded market and all accounts. -/
def store (s : Exchange) (index : PerpMarketIndex) (market : Market) (accounts : Accounts) :
    Exchange where
  markets := Function.update s.markets index (some market)
  accounts := accounts

/-- The instructions on one market, and the bare calls on its book that they make. -/
inductive Op where
  | newOrder (account : Pubkey) (order : Order) (oraclePrice : I80F48) (nowTs limit : Nat)
  | perpPlaceOrder (account : Pubkey) (order : Order) (oraclePrice : I80F48)
      (funding : FundingUpdate) (nowTs limit buybackFeesExpiryInterval : Nat)
  | cancelOrderBySlot (account : Pubkey) (slot : Nat)
  | cancelAllOrders (account : Pubkey) (limit : Nat) (sideToCancel : Option Side)
  | perpConsumeEvents (passed : List Pubkey) (limit nowTs buybackFeesExpiryInterval : Nat)
  | perpSettlePnl (accountA accountB : Pubkey) (oraclePrice : I80F48) (amounts : SettleAmounts)
      (nowTs : Nat)
  | perpDeactivatePosition (account : Pubkey)
  | perpForceClosePosition (accountA accountB : Pubkey) (oraclePrice : I80F48)
  | perpLiqBaseOrPositivePnl (liqor liqee : Pubkey) (oraclePrice : I80F48) (maxBaseTransfer : Int)
      (amounts : LiquidationAmounts) (nowTs : Nat)

/-- The market and the accounts after an instruction. -/
def execOp (market : Market) (accounts : Accounts) : Op → Exec (Market × Accounts)
  | .newOrder pk order oraclePrice nowTs limit => do
    let account ← accounts.load pk
    let (_, book, perpMarket, eventQueue, account) ← market.book.newOrder order
      market.perpMarket market.eventQueue oraclePrice account pk nowTs limit
    return ({ perpMarket, book, eventQueue }, accounts.store pk account)
  | .perpPlaceOrder pk order oraclePrice funding nowTs limit interval => do
    let account ← accounts.load pk
    let (_, market, account) ←
      perpPlaceOrder market account pk order oraclePrice funding nowTs limit interval
    return (market, accounts.store pk account)
  | .cancelOrderBySlot pk slot => do
    let account ← accounts.load pk
    let (book, account) ←
      market.book.cancelOrderBySlot account pk slot market.perpMarket.perpMarketIndex
    return ({ market with book }, accounts.store pk account)
  | .cancelAllOrders pk limit sideToCancel => do
    let account ← accounts.load pk
    let (book, account) ← market.book.cancelAllOrders account pk
      market.perpMarket.perpMarketIndex limit sideToCancel
    return ({ market with book }, accounts.store pk account)
  | .perpConsumeEvents passed limit nowTs interval =>
    perpConsumeEvents market accounts passed limit nowTs interval
  | .perpSettlePnl a b oraclePrice amounts nowTs => do
    require (decide (a ≠ b)) .cannotSettleWithSelf
    let accountA ← accounts.load a
    let accountB ← accounts.load b
    let (accountA, accountB) ←
      perpSettlePnl market.perpMarket accountA accountB oraclePrice amounts nowTs
    return (market, (accounts.store a accountA).store b accountB)
  | .perpDeactivatePosition pk => do
    let account ← accounts.load pk
    let account ← perpDeactivatePosition market.perpMarket account
    return (market, accounts.store pk account)
  | .perpForceClosePosition a b oraclePrice => do
    -- an account cannot be borrowed twice
    require (decide (a ≠ b)) .requireKeysNeqViolated
    let accountA ← accounts.load a
    let accountB ← accounts.load b
    let (perpMarket, accountA, accountB) ←
      perpForceClosePosition market.perpMarket accountA accountB oraclePrice
    return ({ market with perpMarket }, (accounts.store a accountA).store b accountB)
  | .perpLiqBaseOrPositivePnl liqorPk liqeePk oraclePrice maxBaseTransfer amounts nowTs => do
    require (decide (liqorPk ≠ liqeePk)) .requireKeysNeqViolated
    let liqor ← accounts.load liqorPk
    let liqee ← accounts.load liqeePk
    let (perpMarket, liqor, liqee) ← perpLiqBaseOrPositivePnl market.perpMarket liqor liqee
      oraclePrice maxBaseTransfer amounts nowTs
    return ({ market with perpMarket }, (accounts.store liqorPk liqor).store liqeePk liqee)

/-- An instruction on the market with the given index. -/
structure Call where
  market : PerpMarketIndex
  op : Op

def exec (call : Call) (s : Exchange) : Exec (Unit × Exchange) := do
  let market ← s.loadMarket call.market
  let (market, accounts) ← execOp market s.accounts call.op
  return ((), s.store call.market market accounts)

end Exchange

end MangoV4
