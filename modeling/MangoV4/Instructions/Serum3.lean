/-
  MangoV4.Instructions.Serum3

  The instructions for spot orders (`instructions/serum3_*.rs`): open and close
  an open orders account, place an order, settle, and force cancel.

  The spot market program is outside of this model: what it makes of an open
  orders account and of the token vaults is an argument of the instruction, and
  so is what a fill or a cancel makes of the account in between.  Health,
  price bands and prices computed in floating point are arguments as well, or
  left out where they can only reject an instruction.
-/

import MangoV4.Instructions.Tokens
import MangoV4.State.Serum3

namespace MangoV4

open Lib Lib.Exec

/-- `MAX_BANKS` -/
def MAX_BANKS : Nat := 6

/-- `1 - min_vault_to_deposits_ratio` is an argument. -/
def Bank.enforceMaxUtilization (b : Bank) (maxUtilization : I80F48) : Exec Unit := do
  let bankNativeDeposits ← b.nativeDeposits
  let bankNativeBorrows ← b.nativeBorrows
  require (decide (bankNativeBorrows ≤ (← maxUtilization.mul bankNativeDeposits)))
    .bankBorrowLimitReached

/-- Values that must be reset; all others are copied. -/
def Bank.fromExistingBank (b : Bank) : Bank :=
  { b with
    indexedDeposits := .zero
    indexedBorrows := .zero
    collectedFeesNative := .zero
    dust := .zero
    netBorrowsInWindow := 0
    potentialSerumTokens := 0 }

def Serum3Market.tokenIndex (market : Serum3Market) : TokenSide → TokenIndex
  | .base => market.baseTokenIndex
  | .quote => market.quoteTokenIndex

/-- An open orders account of the spot market program.  `settled` is false if
    it has become empty otherwise than by settling. -/
structure OpenOrdersAccount where
  amounts : OpenOrdersSlim
  settled : Bool
deriving DecidableEq

namespace OpenOrdersAccount

def new : OpenOrdersAccount := ⟨.empty, true⟩

/-- After a placement, a fill or a cancel. -/
def trade (oo : OpenOrdersAccount) (after : OpenOrdersSlim) : OpenOrdersAccount where
  amounts := after
  settled := !after.isEmpty || (oo.amounts.isEmpty && oo.settled)

/-- After its free funds were paid out. -/
def settle (after : OpenOrdersSlim) : OpenOrdersAccount where
  amounts := after
  settled := true

/-- It can be closed when it is empty and settled. -/
def closable (oo : OpenOrdersAccount) : Bool := oo.amounts.isEmpty && oo.settled

end OpenOrdersAccount

/-- A group and the open orders accounts of its mango accounts. -/
structure SpotGroup extends Group where
  openOrders : Pubkey → Serum3MarketIndex → OpenOrdersAccount
  testing : Bool

namespace SpotGroup

def setBank (s : SpotGroup) (tokenIndex : TokenIndex) (i : Nat) (b : Bank) : SpotGroup :=
  { s with toGroup := s.toGroup.setBank tokenIndex i b }

def setAccount (s : SpotGroup) (key : Pubkey) (account : MangoAccount) : SpotGroup :=
  { s with toGroup := s.toGroup.setAccount key account }

def setOpenOrders (s : SpotGroup) (key : Pubkey) (marketIndex : Serum3MarketIndex)
    (oo : OpenOrdersAccount) : SpotGroup :=
  { s with
    openOrders := Function.update s.openOrders key
      (Function.update (s.openOrders key) marketIndex oo) }

end SpotGroup

/-! ## serum3_place_order -/

/-- `receiverBank` is the bank that health uses.  `afterOo`, `beforeVault` and
    `afterVault` are what the spot market program made of the open orders account
    and of the payer's vault. -/
structure PlaceOrder where
  key : Pubkey
  marketIndex : Serum3MarketIndex
  side : Serum3Side
  payerBank : Nat
  receiverBank : Nat
  isV2Instruction : Bool
  afterOo : OpenOrdersSlim
  beforeVault : Nat
  afterVault : Nat
  products : Products
  payerBankOracle : I80F48
  maxUtilization : I80F48
  nowTs : Nat

namespace PlaceOrder

variable (x : PlaceOrder)

/-- Updates the tracking in both banks, or in the payer's only. -/
def updatePotentialTokens (o : Serum3Orders) (payerBank receiverBank : Bank) :
    Exec (Serum3Orders × Bank × Bank) :=
  if x.isV2Instruction then
    match x.side with
    | .bid => do
      let (o, baseBank, quoteBank) ←
        updateBankPotentialTokens o receiverBank payerBank x.afterOo x.products
      return (o, quoteBank, baseBank)
    | .ask => updateBankPotentialTokens o payerBank receiverBank x.afterOo x.products
  else do
    let (o, payerBank) ←
      updateBankPotentialTokensPayerOnly o payerBank x.afterOo x.products
    return (o, payerBank, receiverBank)

/-- Reduce-only mode, utilization, net borrows and deposit limit, if the order
    is paid for with a borrow. -/
def checkPayerBank (payerBank : Bank) (beforePositionNative withdrawnFromVault : I80F48) :
    Exec Unit :=
  if beforePositionNative < withdrawnFromVault then do
    require (!payerBank.areBorrowsReduceOnly) .tokenInReduceOnlyMode
    payerBank.enforceMaxUtilization x.maxUtilization
    payerBank.checkNetBorrows x.payerBankOracle
    payerBank.checkDepositAndOoLimit
  else payerBank.enforceMaxUtilization I80F48.ONE

/-- Everything after the order has been handed to the spot market. -/
def track (account : MangoAccount) (marketIndex : Serum3MarketIndex)
    (payerBank receiverBank : Bank) : Exec (Bank × Bank × MangoAccount) := do
  let o ← account.serum3Orders marketIndex
  -- placing an order cannot increase the vault balance
  require (decide (x.afterVault ≤ x.beforeVault)) .requireGteViolated
  let (o, payerBank, receiverBank) ← x.updatePotentialTokens o payerBank receiverBank
  let account := account.setSerum3Orders o
  let beforePositionNative ← (← account.tokenPositionMut payerBank.tokenIndex).native payerBank
  let (payerBank, account) ←
    applyVaultDifference account marketIndex payerBank x.afterVault x.beforeVault x.nowTs
  receiverBank.checkDepositAndOoLimit
  let withdrawnFromVault ← Fixed.ofInt (x.beforeVault - x.afterVault : Nat)
  x.checkPayerBank payerBank beforePositionNative withdrawnFromVault
  return (payerBank, receiverBank, account)

end PlaceOrder

namespace SpotGroup

/-- The open orders of the account, which must be the ones passed in. -/
def loadOpenOrders (account : MangoAccount) (market : Serum3Market) : Exec Serum3Orders := do
  let o ← account.serum3Orders market.marketIndex
  require (decide (o.openOrders = some market.marketIndex)) .someError
  return o

/-- An account can be borrowed mutably only once. -/
def requireDistinct (tokenIndex₁ bank₁ tokenIndex₂ bank₂ : Nat) : Exec Unit :=
  require (decide (¬ (tokenIndex₁ = tokenIndex₂ ∧ bank₁ = bank₂))) .accountBorrowFailed

def serum3PlaceOrder (s : SpotGroup) (x : PlaceOrder) : Exec SpotGroup := do
  let market ← s.loadSerum3Market x.marketIndex
  let account ← s.accounts.load x.key
  let _ ← loadOpenOrders account market
  let payerTokenIndex := market.tokenIndex x.side.payer
  let receiverTokenIndex := market.tokenIndex x.side.payer.other
  let payerBank ← s.loadBank payerTokenIndex x.payerBank
  require (decide (payerBank.tokenIndex = payerTokenIndex)) .requireEqViolated
  -- the token position already exists
  let (_, account) ← account.ensureTokenPosition receiverTokenIndex
  let receiverBank ← s.loadBank receiverTokenIndex x.receiverBank
  assert (decide (receiverBank.tokenIndex = receiverTokenIndex))
  requireDistinct payerTokenIndex x.payerBank receiverTokenIndex x.receiverBank
  let (payerBank, receiverBank, account) ←
    x.track account market.marketIndex payerBank receiverBank
  return (((s.setBank payerTokenIndex x.payerBank payerBank).setBank receiverTokenIndex
    x.receiverBank receiverBank).setAccount x.key account).setOpenOrders x.key market.marketIndex
      ((s.openOrders x.key market.marketIndex).trade x.afterOo)

end SpotGroup

/-! ## serum3_settle_funds -/

/-- `afterOo` and the vault balances are what the spot market program made of
    them. -/
structure SettleFunds where
  key : Pubkey
  marketIndex : Serum3MarketIndex
  baseBank : Nat
  quoteBank : Nat
  beforeBaseVault : Nat
  afterBaseVault : Nat
  beforeQuoteVault : Nat
  afterQuoteVault : Nat
  afterOo : OpenOrdersSlim
  products : Products
  buybackFeesExpiryInterval : Nat
  nowTs : Nat

namespace SettleFunds

variable (x : SettleFunds)

/-- Referrer rebates are fees of the DAO, or go to the account. -/
def receivedFees (beforeOo : OpenOrdersSlim) (feesToDao : Bool) : Nat :=
  if feesToDao then beforeOo.referrerRebatesAccrued - x.afterOo.referrerRebatesAccrued else 0

/-- Credits the buyback fees at the current value of the quote token. -/
def accrueFees (account : MangoAccount) (quoteBank : Bank) (receivedFees : Nat)
    (quoteOraclePrice : I80F48) : Exec MangoAccount := do
  let account ← account.expireBuybackFees x.nowTs x.buybackFeesExpiryInterval
  let feesInUsd ← (← Fixed.ofInt receivedFees : I80F48).mul
    (quoteOraclePrice.min quoteBank.stablePrice)
  return account.accrueBuybackFees (min U64_MAX feesInUsd.toInt.toNat)

/-- The fees are collected, and the account may buy them back. -/
def collectFees (account : MangoAccount) (quoteBank : Bank) (receivedFees : Nat) (feesToDao : Bool)
    (quoteOracle : Option I80F48) : Exec (Bank × MangoAccount) :=
  if feesToDao then do
    let collectedFeesNative ← quoteBank.collectedFeesNative.add (← Fixed.ofInt receivedFees)
    let quoteBank := { quoteBank with collectedFeesNative }
    match quoteOracle with
    | some price => return (quoteBank, ← x.accrueFees account quoteBank receivedFees price)
    | none => return (quoteBank, account)
  else .ok (quoteBank, account)

def applySettleChanges (account : MangoAccount) (marketIndex : Serum3MarketIndex)
    (baseBank quoteBank : Bank) (beforeOo : OpenOrdersSlim) (feesToDao : Bool)
    (quoteOracle : Option I80F48) : Exec (Bank × Bank × MangoAccount) := do
  let receivedFees := x.receivedFees beforeOo feesToDao
  let (quoteBank, account) ← x.collectFees account quoteBank receivedFees feesToDao quoteOracle
  -- rebates are not part of what is credited to the user
  let afterQuoteVaultAdjusted ← subUnsigned x.afterQuoteVault receivedFees
  -- settle cannot decrease vault balances
  require (decide (x.beforeBaseVault ≤ x.afterBaseVault)) .requireGteViolated
  require (decide (x.beforeQuoteVault ≤ afterQuoteVaultAdjusted)) .requireGteViolated
  let (baseBank, account) ←
    applyVaultDifference account marketIndex baseBank x.afterBaseVault x.beforeBaseVault x.nowTs
  let (quoteBank, account) ←
    applyVaultDifference account marketIndex quoteBank afterQuoteVaultAdjusted x.beforeQuoteVault
      x.nowTs
  let o ← account.serum3Orders marketIndex
  let (o, baseBank, quoteBank) ←
    updateBankPotentialTokens o baseBank quoteBank x.afterOo x.products
  return (baseBank, quoteBank, account.setSerum3Orders o)

end SettleFunds

namespace SpotGroup

/-- What settling and force cancelling have in common. -/
def chargeAndSettle (s : SpotGroup) (x : SettleFunds) (feesToDao : Bool)
    (quoteOracle : Option I80F48) : Exec SpotGroup := do
  let market ← s.loadSerum3Market x.marketIndex
  let account ← s.accounts.load x.key
  let _ ← loadOpenOrders account market
  let quoteBank ← s.loadBank market.quoteTokenIndex x.quoteBank
  require (decide (quoteBank.tokenIndex = market.quoteTokenIndex)) .someError
  let baseBank ← s.loadBank market.baseTokenIndex x.baseBank
  require (decide (baseBank.tokenIndex = market.baseTokenIndex)) .someError
  requireDistinct market.baseTokenIndex x.baseBank market.quoteTokenIndex x.quoteBank
  let beforeOo := (s.openOrders x.key market.marketIndex).amounts
  let (baseBank, quoteBank, account) ←
    chargeLoanOriginationFees account market.marketIndex baseBank quoteBank beforeOo x.nowTs
  let (baseBank, quoteBank, account) ←
    x.applySettleChanges account market.marketIndex baseBank quoteBank beforeOo feesToDao quoteOracle
  return (((s.setBank market.baseTokenIndex x.baseBank baseBank).setBank market.quoteTokenIndex
    x.quoteBank quoteBank).setAccount x.key account).setOpenOrders x.key market.marketIndex
      (.settle x.afterOo)

def serum3SettleFunds (s : SpotGroup) (x : SettleFunds) (feesToDao : Bool)
    (quoteOraclePrice : I80F48) : Exec SpotGroup :=
  s.chargeAndSettle x feesToDao (some quoteOraclePrice)

/-! ## serum3_liq_force_cancel_orders -/

/-- `canForceCancel`: the account is frozen or liquidatable, or the market is in
    force close.  Otherwise nothing is done. -/
def serum3LiqForceCancelOrders (s : SpotGroup) (x : SettleFunds) (canForceCancel : Bool) :
    Exec SpotGroup :=
  if canForceCancel then s.chargeAndSettle x true none else .ok s

/-! ## Opening and closing -/

def serum3CreateOpenOrders (s : SpotGroup) (key : Pubkey) (marketIndex : Serum3MarketIndex) :
    Exec SpotGroup := do
  let group ← s.toGroup.serum3CreateOpenOrders key marketIndex
  let market ← s.loadSerum3Market marketIndex
  return { s with toGroup := group }.setOpenOrders key market.marketIndex .new

/-- The spot market program closes an account only if it is empty and settled. -/
def serum3CloseOpenOrders (s : SpotGroup) (key : Pubkey) (marketIndex : Serum3MarketIndex) :
    Exec SpotGroup := do
  let market ← s.loadSerum3Market marketIndex
  require (s.openOrders key market.marketIndex).closable .someError
  let group ← s.toGroup.serum3CloseOpenOrders key marketIndex
  return { s with toGroup := group }

/-! ## token_add_bank -/

/-- Only in testing groups.  The concerns are a general reaudit, client support
    and `potential_serum_tokens`. -/
def tokenAddBank (s : SpotGroup) (tokenIndex existingBank bankNum : Nat) : Exec SpotGroup := do
  require s.testing .constraintRaw
  let existing ← s.loadBank tokenIndex existingBank
  let freeSlot := (s.banks tokenIndex).length
  (if freeSlot < MAX_BANKS then .ok () else panic .unwrap : Exec Unit)
  require (decide (bankNum = freeSlot)) .requireEqViolated
  let banks := Function.update s.banks tokenIndex (s.banks tokenIndex ++ [existing.fromExistingBank])
  return { s with banks }

/-! ## Runs -/

end SpotGroup

/-- A bank with the token and the potential tokens of another one. -/
def Bank.trackedAs (b old : Bank) : Bank :=
  { b with tokenIndex := old.tokenIndex, potentialSerumTokens := old.potentialSerumTokens }

namespace SpotGroup

/-- `openOrdersChange` is a fill or a cancel of the spot market program.
    `balanceChange` is what any other instruction makes of a token position, and
    `bankChange` what it makes of a bank: none of them tracks open orders. -/
inductive Op where
  | serum3CreateOpenOrders (key : Pubkey) (marketIndex : Serum3MarketIndex)
  | serum3PlaceOrder (x : PlaceOrder)
  | serum3SettleFunds (x : SettleFunds) (feesToDao : Bool) (quoteOraclePrice : I80F48)
  | serum3LiqForceCancelOrders (x : SettleFunds) (canForceCancel : Bool)
  | serum3CloseOpenOrders (key : Pubkey) (marketIndex : Serum3MarketIndex)
  | openOrdersChange (key : Pubkey) (marketIndex : Serum3MarketIndex) (after : OpenOrdersSlim)
  | balanceChange (key : Pubkey) (p : TokenPosition)
  | bankChange (tokenIndex bank : Nat) (b : Bank)
  | tokenAddBank (tokenIndex existingBank bankNum : Nat)

def apply : Op → SpotGroup → Exec SpotGroup
  | .serum3CreateOpenOrders key m, s => s.serum3CreateOpenOrders key m
  | .serum3PlaceOrder x, s => s.serum3PlaceOrder x
  | .serum3SettleFunds x feesToDao price, s => s.serum3SettleFunds x feesToDao price
  | .serum3LiqForceCancelOrders x canForceCancel, s => s.serum3LiqForceCancelOrders x canForceCancel
  | .serum3CloseOpenOrders key m, s => s.serum3CloseOpenOrders key m
  | .openOrdersChange key m after, s =>
    .ok (s.setOpenOrders key m ((s.openOrders key m).trade after))
  | .balanceChange key p, s => do
    return s.setAccount key ((← s.accounts.load key).setTokenPosition p)
  | .bankChange t i b, s => do
    return s.setBank t i (b.trackedAs (← s.loadBank t i))
  | .tokenAddBank t existing bankNum, s => s.tokenAddBank t existing bankNum

def exec (op : Op) (s : SpotGroup) : Exec (Unit × SpotGroup) := do return ((), ← apply op s)

end SpotGroup

end MangoV4
