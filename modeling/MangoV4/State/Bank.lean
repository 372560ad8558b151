/-
  MangoV4.State.Bank

  A bank (`bank.rs`): the deposits and borrows of one token, and how a token
  position changes together with them.

  A position is kept in units of the deposit index while it is positive and of
  the borrow index while it is negative; which of the two branches of a deposit
  or a withdrawal runs is decided on its native value.  `Posts` says what the
  books and a position keep in common: the totals move by exactly what the
  position moves.

  The interest curve's scaling and the stable price are floating-point numbers
  that are only converted to `I80F48` here, so the fields hold the converted
  values.  The cumulative interest of a position is for display only.
-/

import MangoV4.State.MangoAccount

namespace MangoV4

open Lib Lib.Exec TokenPosition Fixed

/-- A bank that passes `Bank::verify`: registering and editing a token refuse
    a negative loan origination fee. -/
structure Bank where
  tokenIndex : TokenIndex
  depositIndex : I80F48
  borrowIndex : I80F48
  indexedDeposits : I80F48
  indexedBorrows : I80F48
  indexLastUpdated : Nat
  bankRateLastUpdated : Nat
  avgUtilization : I80F48
  /-- The borrow rate is linear between the points `(0, zeroUtilRate)`,
      `(util0, rate0)`, `(util1, rate1)` and `(1, maxRate)`. -/
  util0 : I80F48
  rate0 : I80F48
  util1 : I80F48
  rate1 : I80F48
  maxRate : I80F48
  zeroUtilRate : I80F48
  /-- Zero until it is introduced, at least one from then on. -/
  interestCurveScaling : I80F48
  collectedFeesNative : I80F48
  loanOriginationFeeRate : I80F48
  loanFeeRate : I80F48
  maintAssetWeight : I80F48
  maintLiabWeight : I80F48
  maintWeightShiftStart : Nat
  maintWeightShiftEnd : Nat
  maintWeightShiftDurationInv : I80F48
  maintWeightShiftAssetTarget : I80F48
  maintWeightShiftLiabTarget : I80F48
  liquidationFee : I80F48
  /-- Fractions of native tokens that got rounded away. -/
  dust : I80F48
  netBorrowLimitWindowSizeTs : Nat
  lastNetBorrowsWindowStartTs : Nat
  netBorrowLimitPerWindowQuote : Int
  netBorrowsInWindow : Int
  stablePrice : I80F48
  reduceOnly : Nat
  potentialSerumTokens : Nat
  depositLimit : Nat
  mintDecimals : Nat
  loanOriginationFeeRate_nonneg : .zero ≤ loanOriginationFeeRate

/-- The balance of a position in native tokens. -/
def TokenPosition.native (p : TokenPosition) (bank : Bank) : Exec I80F48 :=
  if .zero < p.indexedPosition then p.indexedPosition.mul bank.depositIndex
  else p.indexedPosition.mul bank.borrowIndex

def TokenPosition.isInUse (p : TokenPosition) : Bool := decide (0 < p.inUseCount)

structure WithdrawResult where
  positionIsActive : Bool
  loanOriginationFee : I80F48
  loanAmount : I80F48

structure TransferResult where
  sourceIsActive : Bool
  targetIsActive : Bool
  loanOriginationFee : I80F48
  loanAmount : I80F48

namespace Bank

def areDepositsReduceOnly (b : Bank) : Bool := decide (b.reduceOnly = 1)

def areBorrowsReduceOnly (b : Bank) : Bool := decide (b.reduceOnly = 1 ∨ b.reduceOnly = 2)

def nativeBorrows (b : Bank) : Exec I80F48 := b.borrowIndex.mul b.indexedBorrows

def nativeDeposits (b : Bank) : Exec I80F48 := b.depositIndex.mul b.indexedDeposits

/-! ## Limits -/

/-- Counts `nativeAmount` for the net borrow limit of the current window. -/
def updateNetBorrows (b : Bank) (nativeAmount : I80F48) (nowTs : Nat) : Exec Bank := do
  let windowEnd ← checkU64 (b.lastNetBorrowsWindowStartTs + b.netBorrowLimitWindowSizeTs)
  let amount := clampToI64 (← nativeAmount.ceil)
  if windowEnd ≤ nowTs then
    if b.netBorrowLimitWindowSizeTs = 0 then panic .divideByZero
    else
      return { b with
        lastNetBorrowsWindowStartTs :=
          nowTs / b.netBorrowLimitWindowSizeTs * b.netBorrowLimitWindowSizeTs
        netBorrowsInWindow := amount }
  else return { b with netBorrowsInWindow := ← checkI64 (b.netBorrowsInWindow + amount) }

def remainingNetBorrowsQuote (b : Bank) (oraclePrice : I80F48) : Exec I80F48 :=
  if b.netBorrowsInWindow < 0 ∨ b.netBorrowLimitPerWindowQuote < 0 then .ok I80F48.MAX
  else do
    let price := oraclePrice.max b.stablePrice
    let netBorrowsQuote : I80F48 ← Fixed.ofRaw (price.raw * b.netBorrowsInWindow)
    (← Fixed.ofInt b.netBorrowLimitPerWindowQuote : I80F48).sub netBorrowsQuote

def checkNetBorrows (b : Bank) (oraclePrice : I80F48) : Exec Unit := do
  require (decide (.zero ≤ (← b.remainingNetBorrowsQuote oraclePrice)))
    .bankNetBorrowsLimitReached

/-- What can be deposited before the limit is reached, counting one step more
    of deposits than there are. -/
def remainingDepositsUntilLimit (b : Bank) : Exec I80F48 :=
  if b.depositLimit = 0 then .ok I80F48.MAX
  else do
    let deposits ← b.depositIndex.mul (← b.indexedDeposits.add I80F48.DELTA)
    let total ← deposits.add (← Fixed.ofInt b.potentialSerumTokens)
    (← Fixed.ofInt b.depositLimit : I80F48).sub total

def checkDepositAndOoLimit (b : Bank) : Exec Unit :=
  if b.depositLimit = 0 then .ok ()
  else do
    let total ← (← b.nativeDeposits).add (← Fixed.ofInt b.potentialSerumTokens)
    let remaining ← (← Fixed.ofInt b.depositLimit : I80F48).sub total
    require (decide (.zero ≤ remaining)) .bankDepositLimit

/-! ## Deposits -/

/-- `native / index`, one step more if that is worth less than `native`. -/
def divRoundingUp (native index : I80F48) : Exec I80F48 := do
  let indexed ← native.div index
  if (← indexed.mul index) < native then indexed.add I80F48.DELTA else return indexed

/-- Adds to the deposits. -/
def addDeposit (b : Bank) (p : TokenPosition) (nativeAmount : I80F48) :
    Exec (Bool × Bank × TokenPosition) := do
  let indexedChange ← divRoundingUp nativeAmount b.depositIndex
  return (true,
    { b with indexedDeposits := ← b.indexedDeposits.add indexedChange },
    { p with indexedPosition := ← p.indexedPosition.add indexedChange })

/-- The returned flag is false if the position was dusted. -/
def depositInternal (b : Bank) (p : TokenPosition) (nativeAmount : I80F48) (allowDusting : Bool)
    (nowTs : Nat) : Exec (Bool × Bank × TokenPosition) := do
  require (decide (.zero ≤ nativeAmount)) .requireGteViolated
  let nativePosition ← p.native b
  if nativePosition < .zero then
    -- only account for the borrows that are repaid
    let b ← b.updateNetBorrows (nativePosition.max (← nativeAmount.neg)) nowTs
    let newNativePosition ← nativePosition.add nativeAmount
    let indexedChange ← divRoundingUp nativeAmount b.borrowIndex
    -- only correct if it is not positive: the whole amount is scaled by the borrow index
    let newIndexedValue ← p.indexedPosition.add indexedChange
    if newIndexedValue < .zero then
      return (true,
        { b with indexedBorrows := ← b.indexedBorrows.sub indexedChange },
        { p with indexedPosition := newIndexedValue })
    else if newNativePosition < I80F48.ONE ∧ allowDusting then
      return (false,
        { b with
          dust := ← b.dust.add newNativePosition
          indexedBorrows := ← b.indexedBorrows.add p.indexedPosition },
        { p with indexedPosition := .zero })
    else
      -- pay back all borrows and deposit the rest
      let indexedBorrows ← b.indexedBorrows.add p.indexedPosition
      { b with indexedBorrows }.addDeposit { p with indexedPosition := .zero }
        (newNativePosition.max .zero)
  else b.addDeposit p nativeAmount

/-- The index of the last change, and the overflow checks of the interest that
    is displayed. -/
def updateCumulativeInterest (b : Bank) (p : TokenPosition) (openingIndexedPosition : I80F48) :
    Exec TokenPosition := do
  let _ ← (← (if .zero < openingIndexedPosition then b.depositIndex else b.borrowIndex).sub
    p.previousIndex).mul openingIndexedPosition
  return { p with
    previousIndex := if .zero < p.indexedPosition then b.depositIndex else b.borrowIndex }

def depositInternalWrapper (b : Bank) (p : TokenPosition) (nativeAmount : I80F48)
    (allowDusting : Bool) (nowTs : Nat) : Exec (Bool × Bank × TokenPosition) := do
  let (result, b, p') ← b.depositInternal p nativeAmount allowDusting nowTs
  let p' ← b.updateCumulativeInterest p' p.indexedPosition
  return (result, b, p')

def deposit (b : Bank) (p : TokenPosition) (nativeAmount : I80F48) (nowTs : Nat) :
    Exec (Bool × Bank × TokenPosition) :=
  b.depositInternalWrapper p nativeAmount (!p.isInUse) nowTs

/-- Like `deposit`, but positions in use are dusted as well. -/
def depositWithDusting (b : Bank) (p : TokenPosition) (nativeAmount : I80F48) (nowTs : Nat) :
    Exec (Bool × Bank × TokenPosition) := do
  let (notDusted, b, p) ← b.depositInternalWrapper p nativeAmount true nowTs
  return (notDusted || p.isInUse, b, p)

/-! ## Withdrawals -/

/-- Adds to the borrows. -/
def addBorrow (b : Bank) (p : TokenPosition) (nativeAmount : I80F48)
    (withLoanOriginationFee : Bool) (nowTs : Nat) : Exec (WithdrawResult × Bank × TokenPosition) := do
  let loanOriginationFee ← (if withLoanOriginationFee then
      b.loanOriginationFeeRate.mul nativeAmount
    else .ok .zero : Exec I80F48)
  let collectedFeesNative ← b.collectedFeesNative.add loanOriginationFee
  let nativeAmount ← nativeAmount.add loanOriginationFee
  let indexedChange ← nativeAmount.div b.borrowIndex
  let indexedBorrows ← b.indexedBorrows.add indexedChange
  let indexedPosition ← p.indexedPosition.sub indexedChange
  let b ← { b with collectedFeesNative, indexedBorrows }.updateNetBorrows nativeAmount nowTs
  return ({ positionIsActive := true, loanOriginationFee, loanAmount := nativeAmount }, b,
    { p with indexedPosition })

def withdrawInternal (b : Bank) (p : TokenPosition) (nativeAmount : I80F48)
    (withLoanOriginationFee allowDusting : Bool) (nowTs : Nat) :
    Exec (WithdrawResult × Bank × TokenPosition) := do
  require (decide (.zero ≤ nativeAmount)) .requireGteViolated
  let nativePosition ← p.native b
  if .zero ≤ nativePosition then
    let newNativePosition ← nativePosition.sub nativeAmount
    if .zero ≤ newNativePosition then
      -- withdraw deposits only
      if newNativePosition < I80F48.ONE ∧ allowDusting then
        return (⟨false, .zero, .zero⟩,
          { b with
            dust := ← b.dust.add newNativePosition
            indexedDeposits := ← b.indexedDeposits.sub p.indexedPosition },
          { p with indexedPosition := .zero })
      else
        let indexedChange ← nativeAmount.div b.depositIndex
        return (⟨true, .zero, .zero⟩,
          { b with indexedDeposits := ← b.indexedDeposits.sub indexedChange },
          { p with indexedPosition := ← p.indexedPosition.sub indexedChange })
    else
      -- withdraw all deposits and borrow the rest
      let indexedDeposits ← b.indexedDeposits.sub p.indexedPosition
      { b with indexedDeposits }.addBorrow { p with indexedPosition := .zero }
        (← newNativePosition.neg) withLoanOriginationFee nowTs
  else b.addBorrow p nativeAmount withLoanOriginationFee nowTs

def withdrawInternalWrapper (b : Bank) (p : TokenPosition) (nativeAmount : I80F48)
    (withLoanOriginationFee allowDusting : Bool) (nowTs : Nat) :
    Exec (WithdrawResult × Bank × TokenPosition) := do
  let (result, b, p') ←
    b.withdrawInternal p nativeAmount withLoanOriginationFee allowDusting nowTs
  let p' ← b.updateCumulativeInterest p' p.indexedPosition
  return (result, b, p')

def withdrawWithoutFee (b : Bank) (p : TokenPosition) (nativeAmount : I80F48) (nowTs : Nat) :
    Exec (Bool × Bank × TokenPosition) := do
  let (result, b, p) ← b.withdrawInternalWrapper p nativeAmount false (!p.isInUse) nowTs
  return (result.positionIsActive, b, p)

/-- Like `withdrawWithoutFee`, but positions in use are dusted as well. -/
def withdrawWithoutFeeWithDusting (b : Bank) (p : TokenPosition) (nativeAmount : I80F48)
    (nowTs : Nat) : Exec (Bool × Bank × TokenPosition) := do
  let (result, b, p) ← b.withdrawInternalWrapper p nativeAmount false true nowTs
  return (result.positionIsActive || p.isInUse, b, p)

def withdrawWithFee (b : Bank) (p : TokenPosition) (nativeAmount : I80F48) (nowTs : Nat) :
    Exec (WithdrawResult × Bank × TokenPosition) :=
  b.withdrawInternalWrapper p nativeAmount true (!p.isInUse) nowTs

/-- The loan origination fee of a borrow that happened earlier. -/
def withdrawLoanOriginationFee (b : Bank) (p : TokenPosition)
    (alreadyBorrowedNativeAmount : I80F48) (nowTs : Nat) :
    Exec (WithdrawResult × Bank × TokenPosition) := do
  let loanOriginationFee ← b.loanOriginationFeeRate.mul alreadyBorrowedNativeAmount
  let collectedFeesNative ← b.collectedFeesNative.add loanOriginationFee
  let (result, b, p) ← { b with collectedFeesNative }.withdrawInternalWrapper p loanOriginationFee
    false (!p.isInUse) nowTs
  return ({ positionIsActive := result.positionIsActive, loanOriginationFee, loanAmount := .zero },
    b, p)

/-! ## Changes in either direction -/

/-- The returned flag is true if the position remains active. -/
def dustIfPossible (b : Bank) (p : TokenPosition) (nowTs : Nat) :
    Exec (Bool × Bank × TokenPosition) :=
  if p.isInUse then .ok (true, b, p)
  else do
    let native ← p.native b
    -- withdrawing nothing triggers the dusting check
    if .zero ≤ native ∧ native < I80F48.ONE then b.withdrawWithoutFee p .zero nowTs
    else return (true, b, p)

def changeWithoutFee (b : Bank) (p : TokenPosition) (nativeAmount : I80F48) (nowTs : Nat) :
    Exec (Bool × Bank × TokenPosition) :=
  if .zero ≤ nativeAmount then b.deposit p nativeAmount nowTs
  else do b.withdrawWithoutFee p (← nativeAmount.neg) nowTs

def changeWithFee (b : Bank) (p : TokenPosition) (nativeAmount : I80F48) (nowTs : Nat) :
    Exec (WithdrawResult × Bank × TokenPosition) :=
  if .zero ≤ nativeAmount then do
    let (positionIsActive, b, p) ← b.deposit p nativeAmount nowTs
    return (⟨positionIsActive, .zero, .zero⟩, b, p)
  else do b.withdrawWithFee p (← nativeAmount.neg) nowTs

def withdrawFromSource (b : Bank) (source : TokenPosition) (sourceAmount : I80F48) (nowTs : Nat) :
    Exec (WithdrawResult × Bank × TokenPosition) :=
  if sourceAmount = .zero then .ok (⟨true, .zero, .zero⟩, b, source)
  else do
    let (result, b, source) ← b.withdrawWithFee source sourceAmount nowTs
    require (decide (.zero ≤ source.indexedPosition) || !b.areBorrowsReduceOnly)
      .tokenInReduceOnlyMode
    return (result, b, source)

def depositToTarget (b : Bank) (target : TokenPosition) (targetAmount : I80F48) (nowTs : Nat) :
    Exec (Bool × Bank × TokenPosition) :=
  if targetAmount = .zero then .ok (true, b, target)
  else do
    let (active, b, target) ← b.deposit target targetAmount nowTs
    require (decide (target.indexedPosition ≤ .zero) || !b.areDepositsReduceOnly)
      .tokenInReduceOnlyMode
    return (active, b, target)

/-- Moves tokens from one position to another; the amounts can differ and can
    be zero. -/
def checkedTransferWithFee (b : Bank) (source : TokenPosition) (sourceAmount : I80F48)
    (target : TokenPosition) (targetAmount : I80F48) (nowTs : Nat) (oraclePrice : I80F48) :
    Exec (TransferResult × Bank × TokenPosition × TokenPosition) := do
  let beforeBorrows := b.indexedBorrows
  let beforeDeposits := b.indexedDeposits
  let (withdrawResult, b, source) ← b.withdrawFromSource source sourceAmount nowTs
  let (targetIsActive, b, target) ← b.depositToTarget target targetAmount nowTs
  -- a step more covers that slightly more is added than withdrawn
  (if (← beforeBorrows.add I80F48.DELTA) < b.indexedBorrows then b.checkNetBorrows oraclePrice
    else .ok () : Exec Unit)
  (if (← beforeDeposits.add I80F48.DELTA) < b.indexedDeposits then b.checkDepositAndOoLimit
    else .ok () : Exec Unit)
  return ({
    sourceIsActive := withdrawResult.positionIsActive
    targetIsActive
    loanOriginationFee := withdrawResult.loanOriginationFee
    loanAmount := withdrawResult.loanAmount }, b, source, target)

/-- A bank without deposits and borrows, limits or interest. -/
def plain (tokenIndex : TokenIndex) : Bank where
  tokenIndex := tokenIndex
  depositIndex := I80F48.ONE
  borrowIndex := I80F48.ONE
  indexedDeposits := .zero
  indexedBorrows := .zero
  indexLastUpdated := 0
  bankRateLastUpdated := 0
  avgUtilization := .zero
  util0 := .zero
  rate0 := .zero
  util1 := .zero
  rate1 := .zero
  maxRate := .zero
  zeroUtilRate := .zero
  interestCurveScaling := I80F48.ONE
  collectedFeesNative := .zero
  loanOriginationFeeRate := ⟨2 ^ 38, by decide⟩
  loanFeeRate := .zero
  maintAssetWeight := I80F48.ONE
  maintLiabWeight := I80F48.ONE
  maintWeightShiftStart := 0
  maintWeightShiftEnd := 0
  maintWeightShiftDurationInv := .zero
  maintWeightShiftAssetTarget := .zero
  maintWeightShiftLiabTarget := .zero
  liquidationFee := .zero
  dust := .zero
  netBorrowLimitWindowSizeTs := 1
  lastNetBorrowsWindowStartTs := 0
  netBorrowLimitPerWindowQuote := -1
  netBorrowsInWindow := 0
  stablePrice := I80F48.ONE
  reduceOnly := 0
  potentialSerumTokens := 0
  depositLimit := 0
  mintDecimals := 6
  loanOriginationFeeRate_nonneg := by decide

/-! ## What the books keep -/

/-- Both indices are positive. -/
def Indexed (b : Bank) : Prop := .zero < b.depositIndex ∧ .zero < b.borrowIndex

instance (b : Bank) : Decidable b.Indexed :=
  inferInstanceAs (Decidable (.zero < b.depositIndex ∧ .zero < b.borrowIndex))

end Bank

namespace TokenPosition

/-- What the position adds to the indexed deposits. -/
def deposited (p : TokenPosition) : Int := max p.indexedPosition.raw 0

/-- What the position adds to the indexed borrows. -/
def borrowed (p : TokenPosition) : Int := max (-p.indexedPosition.raw) 0

theorem native_eq_ok {p : TokenPosition} {b : Bank} {n : I80F48} (h : p.native b = .ok n) :
    n.raw = p.indexedPosition.raw *
      (if 0 < p.indexedPosition.raw then b.depositIndex.raw else b.borrowIndex.raw) / 2 ^ 48 := by
  unfold native at h
  split at h
  · rename_i hpos
    rw [if_pos (show 0 < p.indexedPosition.raw from hpos)]
    exact mul_eq_ok.mp h
  · rename_i hpos
    rw [if_neg (show ¬ 0 < p.indexedPosition.raw from hpos)]
    exact mul_eq_ok.mp h

/-- The native value has the sign of the position, also where it is rounded. -/
theorem native_nonneg_iff {p : TokenPosition} {b : Bank} {n : I80F48} (hb : b.Indexed)
    (h : p.native b = .ok n) : 0 ≤ n.raw ↔ 0 ≤ p.indexedPosition.raw := by
  have hdeposit : 0 < b.depositIndex.raw := hb.1
  have hborrow : 0 < b.borrowIndex.raw := hb.2
  have hindex : 0 < if 0 < p.indexedPosition.raw then b.depositIndex.raw else b.borrowIndex.raw := by
    split
    · exact hdeposit
    · exact hborrow
  rw [native_eq_ok h, Int.ediv_nonneg_iff_of_pos (by norm_num)]
  exact mul_nonneg_iff_of_pos_right hindex

end TokenPosition

namespace Bank

/-- The totals of the bank move by exactly what the position moves, if the
    indices are positive; indices, token and use count stay. -/
structure Posts (b : Bank) (p : TokenPosition) (b' : Bank) (p' : TokenPosition) : Prop where
  deposits : b.Indexed → b'.indexedDeposits.raw - p'.deposited = b.indexedDeposits.raw - p.deposited
  borrows : b.Indexed → b'.indexedBorrows.raw - p'.borrowed = b.indexedBorrows.raw - p.borrowed
  depositIndex : b'.depositIndex = b.depositIndex
  borrowIndex : b'.borrowIndex = b.borrowIndex
  tokenIndex : p'.tokenIndex = p.tokenIndex
  inUseCount : p'.inUseCount = p.inUseCount

namespace Posts

variable {b b' b₁ : Bank} {p p' p₁ : TokenPosition}

theorem indexed_iff (h : Posts b p b' p') : b'.Indexed ↔ b.Indexed := by
  unfold Indexed
  rw [h.depositIndex, h.borrowIndex]

theorem refl (b : Bank) (p : TokenPosition) : Posts b p b p :=
  ⟨fun _ => rfl, fun _ => rfl, rfl, rfl, rfl, rfl⟩

theorem trans (h : Posts b p b₁ p₁) (h' : Posts b₁ p₁ b' p') : Posts b p b' p' where
  deposits := fun hb => (h'.deposits (h.indexed_iff.mpr hb)).trans (h.deposits hb)
  borrows := fun hb => (h'.borrows (h.indexed_iff.mpr hb)).trans (h.borrows hb)
  depositIndex := h'.depositIndex.trans h.depositIndex
  borrowIndex := h'.borrowIndex.trans h.borrowIndex
  tokenIndex := h'.tokenIndex.trans h.tokenIndex
  inUseCount := h'.inUseCount.trans h.inUseCount

end Posts

section Spec

variable {b b' : Bank} {p p' : TokenPosition} {amount : I80F48} {nowTs : Nat} {active : Bool}

variable {native : I80F48}

theorem divRoundingUp_nonneg {index indexed : I80F48} (hnative : 0 ≤ native.raw)
    (hindex : 0 < index.raw) (h : divRoundingUp native index = .ok indexed) : 0 ≤ indexed.raw := by
  obtain ⟨quotient, hquotient, h⟩ := of_bind h
  obtain ⟨-, hraw⟩ := div_eq_ok.mp hquotient
  have hnonneg : 0 ≤ quotient.raw := by
    rw [hraw]
    exact Int.tdiv_nonneg (by positivity) hindex.le
  obtain ⟨_, -, h⟩ := of_bind h
  split at h
  · have hsum : indexed.raw = quotient.raw + 1 := add_eq_ok.mp h
    omega
  · obtain rfl := ok_inj h
    exact hnonneg

/-- Taking the whole position out of the books. -/
theorem clear_borrow_posts {x : I80F48} (hp : b.Indexed → p.indexedPosition.raw < 0)
    (hx : x.raw = b.indexedBorrows.raw + p.indexedPosition.raw) (dust : I80F48) :
    Posts b p { b with indexedBorrows := x, dust } { p with indexedPosition := .zero } := by
  refine ⟨fun hb => ?_, fun hb => ?_, rfl, rfl, rfl, rfl⟩
  · have hp := hp hb
    simp only [deposited, raw_zero]
    omega
  · have hp := hp hb
    simp only [borrowed, raw_zero]
    omega

theorem clear_deposit_posts {x : I80F48} (hp : b.Indexed → 0 ≤ p.indexedPosition.raw)
    (hx : x.raw = b.indexedDeposits.raw - p.indexedPosition.raw) (dust : I80F48) :
    Posts b p { b with indexedDeposits := x, dust } { p with indexedPosition := .zero } := by
  refine ⟨fun hb => ?_, fun hb => ?_, rfl, rfl, rfl, rfl⟩
  · have hp := hp hb
    simp only [deposited, raw_zero]
    omega
  · have hp := hp hb
    simp only [borrowed, raw_zero]
    omega

theorem updateCumulativeInterest_eq_ok {opening : I80F48}
    (h : b.updateCumulativeInterest p opening = .ok p') :
    ∃ previousIndex, p' = { p with previousIndex } := by
  obtain ⟨_, -, h⟩ := of_bind h
  obtain ⟨_, -, h⟩ := of_bind h
  exact ⟨_, (ok_inj h).symm⟩

theorem Posts.with_previousIndex (h : Posts b p b' p') (previousIndex : I80F48) :
    Posts b p b' { p' with previousIndex } :=
  ⟨h.deposits, h.borrows, h.depositIndex, h.borrowIndex, h.tokenIndex, h.inUseCount⟩

/-- A withdrawal that the native balance covers takes no more than the position:
    rounding is always down. -/
theorem withdrawal_le_position {change : I80F48} (hb : b.Indexed)
    (hp : 0 ≤ p.indexedPosition.raw) (hnative : p.native b = .ok native)
    (hamount : 0 ≤ amount.raw) (hle : amount.raw ≤ native.raw)
    (hchange : amount.div b.depositIndex = (.ok change : Exec I80F48)) :
    0 ≤ change.raw ∧ change.raw ≤ p.indexedPosition.raw := by
  have hindex : 0 < b.depositIndex.raw := hb.1
  obtain ⟨-, hraw⟩ := div_eq_ok.mp hchange
  rw [Int.tdiv_eq_ediv_of_nonneg (by positivity)] at hraw
  refine ⟨by rw [hraw]; positivity, ?_⟩
  have hvalue := native_eq_ok hnative
  rcases hp.eq_or_lt with hzero | hpos
  · -- nothing to withdraw from
    rw [← hzero, zero_mul, Int.zero_ediv] at hvalue
    have : amount.raw = 0 := by omega
    rw [hraw, this, zero_mul, Int.zero_ediv]
    exact hp
  · rw [if_pos hpos] at hvalue
    have hfloor : native.raw * 2 ^ 48 ≤ p.indexedPosition.raw * b.depositIndex.raw := by
      rw [hvalue]
      exact Int.ediv_mul_le _ (by norm_num)
    have hscaled : amount.raw * 2 ^ 48 ≤ p.indexedPosition.raw * b.depositIndex.raw :=
      le_trans (by gcongr) hfloor
    rw [hraw]
    exact Int.ediv_le_of_le_mul hindex hscaled

/-- What every change of a position does.  A position that is reported as no
    longer active is empty and nothing uses it. -/
structure Changes (b : Bank) (p : TokenPosition) (active : Bool) (b' : Bank) (p' : TokenPosition) :
    Prop where
  posts : Posts b p b' p'
  dusted : active = false → p.inUseCount = 0 ∧ p'.indexedPosition = .zero

theorem inUseCount_eq_zero (h : (!p.isInUse) = true) : p.inUseCount = 0 := by
  simpa [isInUse] using h

theorem Changes.refl (b : Bank) (p : TokenPosition) : Changes b p true b p :=
  ⟨.refl b p, fun hf => by cases hf⟩

end Spec

end Bank

end MangoV4
