/-
  MangoV4.State.Serum3

  Spot open orders as mango keeps track of them (`mango_account_components.rs`,
  `serum3_cpi.rs`, and the helpers of `serum3_place_order.rs` and
  `serum3_settle_funds.rs`).

  The funds of an order are in an open orders account of the spot market
  program.  Mango only sees its amounts.  From them it estimates how many tokens
  might come back (`potential_base_tokens`, `potential_quote_tokens`, and their
  sum in the bank), and it remembers which part of them was borrowed
  (`*_borrows_without_fee`).

  What holds for the base token of a market holds for its quote token, so the
  functions that treat both in the same way are written for a `TokenSide`.
-/

import MangoV4.State.TokenAccount

namespace MangoV4

open Lib Lib.Exec

/-- The two tokens of a spot market. -/
inductive TokenSide where
  | base
  | quote
deriving DecidableEq

def TokenSide.other : TokenSide → TokenSide
  | .base => .quote
  | .quote => .base

theorem TokenSide.eq_or_other (side side' : TokenSide) : side = side' ∨ side = side'.other := by
  cases side <;> cases side' <;> simp [TokenSide.other]

inductive Serum3Side where
  | bid
  | ask
deriving DecidableEq

/-- The token that pays for an order. -/
def Serum3Side.payer : Serum3Side → TokenSide
  | .bid => .quote
  | .ask => .base

/-! ## Open orders accounts -/

/-- The amounts of an open orders account; what is free is part of the total. -/
structure OpenOrdersSlim where
  nativeCoinFree : Nat
  nativeCoinTotal : Nat
  nativePcFree : Nat
  nativePcTotal : Nat
  referrerRebatesAccrued : Nat
deriving DecidableEq

namespace OpenOrdersSlim

/-- A new account. -/
def empty : OpenOrdersSlim := ⟨0, 0, 0, 0, 0⟩

/-- `native_base_free`, `native_quote_free` -/
def free (oo : OpenOrdersSlim) : TokenSide → Nat
  | .base => oo.nativeCoinFree
  | .quote => oo.nativePcFree

/-- `native_base_total`, `native_quote_total` -/
def total (oo : OpenOrdersSlim) : TokenSide → Nat
  | .base => oo.nativeCoinTotal
  | .quote => oo.nativePcTotal

/-- `native_base_reserved`, `native_quote_reserved` -/
def reserved (oo : OpenOrdersSlim) (side : TokenSide) : Exec Nat :=
  subUnsigned (oo.total side) (oo.free side)

/-- There are no tokens in it. -/
def isEmpty (oo : OpenOrdersSlim) : Bool :=
  decide (oo.nativeCoinTotal = 0 ∧ oo.nativePcTotal = 0)

theorem total_of_isEmpty {oo : OpenOrdersSlim} (h : oo.isEmpty = true) (side : TokenSide) :
    oo.total side = 0 := by
  obtain ⟨hbase, hquote⟩ := of_decide_eq_true h
  cases side with
  | base => exact hbase
  | quote => exact hquote

end OpenOrdersSlim

/-! ## What an account remembers of them -/

namespace Serum3Orders

/-- `base_token_index`, `quote_token_index` -/
def tokenIndex (o : Serum3Orders) : TokenSide → TokenIndex
  | .base => o.baseTokenIndex
  | .quote => o.quoteTokenIndex

/-- `base_borrows_without_fee`, `quote_borrows_without_fee` -/
def borrowsWithoutFee (o : Serum3Orders) : TokenSide → Nat
  | .base => o.baseBorrowsWithoutFee
  | .quote => o.quoteBorrowsWithoutFee

def setBorrowsWithoutFee (o : Serum3Orders) (n : Nat) : TokenSide → Serum3Orders
  | .base => { o with baseBorrowsWithoutFee := n }
  | .quote => { o with quoteBorrowsWithoutFee := n }

/-- `potential_base_tokens`, `potential_quote_tokens` -/
def potentialTokens (o : Serum3Orders) : TokenSide → Nat
  | .base => o.potentialBaseTokens
  | .quote => o.potentialQuoteTokens

def setPotentialTokens (o : Serum3Orders) (n : Nat) : TokenSide → Serum3Orders
  | .base => { o with potentialBaseTokens := n }
  | .quote => { o with potentialQuoteTokens := n }

variable (o : Serum3Orders) (n : Nat) (side side' : TokenSide)

@[simp] theorem marketIndex_setBorrowsWithoutFee :
    (o.setBorrowsWithoutFee n side).marketIndex = o.marketIndex := by
  cases side <;> rfl

@[simp] theorem openOrders_setBorrowsWithoutFee :
    (o.setBorrowsWithoutFee n side).openOrders = o.openOrders := by
  cases side <;> rfl

@[simp] theorem tokenIndex_setBorrowsWithoutFee :
    (o.setBorrowsWithoutFee n side).tokenIndex side' = o.tokenIndex side' := by
  cases side <;> cases side' <;> rfl

@[simp] theorem potentialTokens_setBorrowsWithoutFee :
    (o.setBorrowsWithoutFee n side).potentialTokens side' = o.potentialTokens side' := by
  cases side <;> cases side' <;> rfl

theorem borrowsWithoutFee_setBorrowsWithoutFee :
    (o.setBorrowsWithoutFee n side).borrowsWithoutFee side' =
      if side' = side then n else o.borrowsWithoutFee side' := by
  cases side <;> cases side' <;> rfl

@[simp] theorem marketIndex_setPotentialTokens :
    (o.setPotentialTokens n side).marketIndex = o.marketIndex := by
  cases side <;> rfl

@[simp] theorem openOrders_setPotentialTokens :
    (o.setPotentialTokens n side).openOrders = o.openOrders := by
  cases side <;> rfl

@[simp] theorem tokenIndex_setPotentialTokens :
    (o.setPotentialTokens n side).tokenIndex side' = o.tokenIndex side' := by
  cases side <;> cases side' <;> rfl

@[simp] theorem borrowsWithoutFee_setPotentialTokens :
    (o.setPotentialTokens n side).borrowsWithoutFee side' = o.borrowsWithoutFee side' := by
  cases side <;> cases side' <;> rfl

end Serum3Orders

namespace MangoAccount

/-- Writes through the reference that `serum3_orders_mut` returned. -/
def setSerum3Orders (a : MangoAccount) (o : Serum3Orders) : MangoAccount :=
  { a with serum3 := replaceFirst (Serum3Orders.isActiveForMarket o.marketIndex) o a.serum3 }

end MangoAccount

/-! ## Potential tokens -/

/-- `(reserved as f64 * price) as u64`, where the product is an argument:
    nothing reserved converts to nothing at any price. -/
def convertReserved (reserved product : Nat) : Nat := if reserved = 0 then 0 else product

/-- What the reserved tokens of one side convert to on the other one, at the
    prices of the orders that were placed. -/
structure Products where
  base : Nat
  quote : Nat

def Products.of (products : Products) : TokenSide → Nat
  | .base => products.base
  | .quote => products.quote

/-- All tokens of the side, and those reserved on the other side at a favorable
    price. -/
def newPotentialTokens (oo : OpenOrdersSlim) (products : Products) (side : TokenSide) :
    Exec Nat := do
  checkU64 (oo.total side + convertReserved (← oo.reserved side.other) (products.of side))

/-- Grows if `new` is larger than `old`, and shrinks otherwise. -/
def Bank.updatePotentialSerumTokens (b : Bank) (old new : Nat) : Exec Bank :=
  if old ≤ new then do
    return { b with potentialSerumTokens := ← checkU64 (b.potentialSerumTokens + (new - old)) }
  -- saturates at zero
  else .ok { b with potentialSerumTokens := b.potentialSerumTokens - (old - new) }

/-- `update_bank_potential_tokens_payer_only` -/
def updateBankPotentialTokensPayerOnly (o : Serum3Orders) (payerBank : Bank) (oo : OpenOrdersSlim)
    (products : Products) : Exec (Serum3Orders × Bank) :=
  if o.baseTokenIndex = payerBank.tokenIndex then do
    let newBase ← newPotentialTokens oo products .base
    let payerBank ← payerBank.updatePotentialSerumTokens o.potentialBaseTokens newBase
    return (o.setPotentialTokens newBase .base, payerBank)
  else do
    assert (decide (o.quoteTokenIndex = payerBank.tokenIndex))
    let newQuote ← newPotentialTokens oo products .quote
    let payerBank ← payerBank.updatePotentialSerumTokens o.potentialQuoteTokens newQuote
    return (o.setPotentialTokens newQuote .quote, payerBank)

def updateBankPotentialTokens (o : Serum3Orders) (baseBank quoteBank : Bank) (oo : OpenOrdersSlim)
    (products : Products) : Exec (Serum3Orders × Bank × Bank) := do
  assert (decide (o.baseTokenIndex = baseBank.tokenIndex))
  assert (decide (o.quoteTokenIndex = quoteBank.tokenIndex))
  let newBase ← newPotentialTokens oo products .base
  let newQuote ← newPotentialTokens oo products .quote
  let baseBank ← baseBank.updatePotentialSerumTokens o.potentialBaseTokens newBase
  let quoteBank ← quoteBank.updatePotentialSerumTokens o.potentialQuoteTokens newQuote
  return ((o.setPotentialTokens newBase .base).setPotentialTokens newQuote .quote,
    baseBank, quoteBank)

/-! ## Borrows in open orders -/

/-- What was borrowed is added; what comes back into the bank takes off. -/
def countBorrows (borrowsWithoutFee newBorrows : Nat) (neededChange : I80F48) : Exec Nat := do
  -- only for place
  let borrows ← checkU64 (borrowsWithoutFee + newBorrows)
  -- only for settle and force cancel
  if .zero < neededChange then return borrows - (← neededChange.toU64) else return borrows

/-- Adjusts the token position after the balance of the vault has changed. -/
def applyVaultDifference (account : MangoAccount) (marketIndex : Serum3MarketIndex) (bank : Bank)
    (vaultAfter vaultBefore nowTs : Nat) : Exec (Bank × MangoAccount) := do
  let neededChange ← (← Fixed.ofInt vaultAfter : I80F48).sub (← Fixed.ofInt vaultBefore)
  let p ← account.tokenPositionMut bank.tokenIndex
  let nativeBefore ← p.native bank
  let (_, bank, p) ← bank.changeWithoutFee p neededChange nowTs
  let nativeAfter ← p.native bank
  let nativeChange ← nativeAfter.sub nativeBefore
  -- the part of the tokens that left the bank which was borrowed
  let newBorrows ← (← ((nativeChange.max nativeAfter).min .zero).abs).toU64
  let account := account.setTokenPosition p
  let o ← unwrapResult (account.serum3Orders marketIndex)
  let side ← (if bank.tokenIndex = o.baseTokenIndex then .ok .base
    else if bank.tokenIndex = o.quoteTokenIndex then .ok .quote
    else fail .someError : Exec TokenSide)
  let borrows ← countBorrows (o.borrowsWithoutFee side) newBorrows neededChange
  return (bank, account.setSerum3Orders (o.setBorrowsWithoutFee borrows side))

/-- Charges the fee for borrows that are not covered by the open orders account
    any more: these have been spent. -/
def chargeLoanOriginationFee (account : MangoAccount) (marketIndex : Serum3MarketIndex)
    (bank : Bank) (oo : OpenOrdersSlim) (side : TokenSide) (nowTs : Nat) :
    Exec (Bank × MangoAccount) := do
  let o ← unwrapResult (account.serum3Orders marketIndex)
  let actualizedLoan := o.borrowsWithoutFee side - oo.total side
  if 0 < actualizedLoan then
    let account := account.setSerum3Orders (o.setBorrowsWithoutFee (oo.total side) side)
    let p ← account.tokenPositionMut bank.tokenIndex
    let (_, bank, p) ← bank.withdrawLoanOriginationFee p (← Fixed.ofInt actualizedLoan) nowTs
    return (bank, account.setTokenPosition p)
  else return (bank, account)

def chargeLoanOriginationFees (account : MangoAccount) (marketIndex : Serum3MarketIndex)
    (baseBank quoteBank : Bank) (beforeOo : OpenOrdersSlim) (nowTs : Nat) :
    Exec (Bank × Bank × MangoAccount) := do
  let (baseBank, account) ←
    chargeLoanOriginationFee account marketIndex baseBank beforeOo .base nowTs
  let (quoteBank, account) ←
    chargeLoanOriginationFee account marketIndex quoteBank beforeOo .quote nowTs
  return (baseBank, quoteBank, account)

end MangoV4
