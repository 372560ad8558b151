/-
  MangoV4.State.BankNative

  What deposits and withdrawals do to a bank and to the native value of a
  position.

  `depositInternal_spec` and `withdrawInternal_spec` say that the books move
  with the position (`Posts`), and list what can happen to a position, with the
  roundings: a change in indexed units is rounded up for a
  deposit and towards zero for a withdrawal, and the native value is rounded
  down.  From them follow bounds that hold whatever the roundings are.  They also
  say what is counted as net borrows (`Counted`) and added to the deposits.
-/

import MangoV4.State.Bank

namespace MangoV4

open Lib Lib.Exec TokenPosition

/-- What the net borrow limit of a bank works with. -/
structure NetBorrows where
  windowSizeTs : Nat
  windowStartTs : Nat
  inWindow : Int
  limitPerWindowQuote : Int
  stablePrice : I80F48

namespace Bank

def netBorrows (b : Bank) : NetBorrows where
  windowSizeTs := b.netBorrowLimitWindowSizeTs
  windowStartTs := b.lastNetBorrowsWindowStartTs
  inWindow := b.netBorrowsInWindow
  limitPerWindowQuote := b.netBorrowLimitPerWindowQuote
  stablePrice := b.stablePrice

end Bank

/-! ## What is counted -/

/-- An amount, in units of the last bit, that is not clamped. -/
def FitsI64 (n : Int) : Prop := I64_MIN * 2 ^ 48 ≤ n ∧ n ≤ I64_MAX * 2 ^ 48

/-- How an amount of `n` units of the last bit is counted at `nowTs`. -/
inductive Counted (w w' : NetBorrows) (n : Int) (nowTs : Nat) : Prop where
  | untouched (hn : n = 0) (hw : w' = w)
  /-- The window is over, and the amount is the first of the next one. -/
  | opened {counted : Int} (hover : w.windowStartTs + w.windowSizeTs ≤ nowTs)
      (hcounted : FitsI64 n → n ≤ counted * 2 ^ 48 ∧ counted * 2 ^ 48 < n + 2 ^ 48)
      (hw : w' = { w with
        windowStartTs := nowTs / w.windowSizeTs * w.windowSizeTs, inWindow := counted })
  | added {counted : Int} (hnow : nowTs < w.windowStartTs + w.windowSizeTs)
      (hcounted : FitsI64 n → n ≤ counted * 2 ^ 48 ∧ counted * 2 ^ 48 < n + 2 ^ 48)
      (hw : w' = { w with inWindow := w.inWindow + counted })

theorem clampToI64_ceil {x y : I80F48} (h : x.ceil = (.ok y : Exec I80F48)) (hx : FitsI64 x.raw) :
    x.raw ≤ clampToI64 y * 2 ^ 48 ∧ clampToI64 y * 2 ^ 48 < x.raw + 2 ^ 48 := by
  have hy : y.raw = x.ceilInt * 2 ^ 48 := Fixed.ofRaw_eq_ok.mp h
  have hint : y.toInt = x.ceilInt := by
    unfold Fixed.toInt
    rw [hy]
    exact Int.mul_ediv_cancel _ (by norm_num)
  obtain ⟨hmin, hmax⟩ := hx
  unfold clampToI64
  rw [hint]
  unfold Fixed.ceilInt
  omega

namespace Bank

/-- What changes of positions leave alone in a bank. -/
structure SameTerms (b b' : Bank) : Prop where
  tokenIndex : b'.tokenIndex = b.tokenIndex
  depositIndex : b'.depositIndex = b.depositIndex
  borrowIndex : b'.borrowIndex = b.borrowIndex
  potentialSerumTokens : b'.potentialSerumTokens = b.potentialSerumTokens
  reduceOnly : b'.reduceOnly = b.reduceOnly

namespace SameTerms

variable {b b₁ b' : Bank}

theorem refl (b : Bank) : SameTerms b b := ⟨rfl, rfl, rfl, rfl, rfl⟩

theorem trans (h : SameTerms b b₁) (h' : SameTerms b₁ b') : SameTerms b b' where
  tokenIndex := h'.tokenIndex.trans h.tokenIndex
  depositIndex := h'.depositIndex.trans h.depositIndex
  borrowIndex := h'.borrowIndex.trans h.borrowIndex
  potentialSerumTokens := h'.potentialSerumTokens.trans h.potentialSerumTokens
  reduceOnly := h'.reduceOnly.trans h.reduceOnly

theorem indexed_iff (h : SameTerms b b') : b'.Indexed ↔ b.Indexed := by
  unfold Indexed
  rw [h.depositIndex, h.borrowIndex]

/-- Positions are worth the same. -/
theorem native_eq (h : SameTerms b b') (p : TokenPosition) : p.native b' = p.native b := by
  unfold native
  rw [h.depositIndex, h.borrowIndex]

end SameTerms

variable {b b' : Bank} {p p' : TokenPosition} {amount : I80F48} {nowTs : Nat} {active : Bool}

/-- Net borrows are not part of the books. -/
theorem updateNetBorrows_spec (p : TokenPosition) (h : b.updateNetBorrows amount nowTs = .ok b') :
    Posts b p b' p ∧ SameTerms b b' ∧ Counted b.netBorrows b'.netBorrows amount.raw nowTs ∧
      b'.indexedDeposits = b.indexedDeposits ∧ b'.depositLimit = b.depositLimit := by
  obtain ⟨-, h⟩ := of_checkU64 h
  obtain ⟨whole, hwhole, h⟩ := of_bind h
  split at h
  · rename_i hover
    split at h
    · cases h
    · obtain rfl := ok_inj h
      exact ⟨⟨fun _ => rfl, fun _ => rfl, rfl, rfl, rfl, rfl⟩, ⟨rfl, rfl, rfl, rfl, rfl⟩,
        .opened hover (clampToI64_ceil hwhole) rfl, rfl, rfl⟩
  · rename_i hover
    obtain ⟨-, h⟩ := of_checkI64 h
    obtain rfl := ok_inj h
    exact ⟨⟨fun _ => rfl, fun _ => rfl, rfl, rfl, rfl, rfl⟩, ⟨rfl, rfl, rfl, rfl, rfl⟩,
      .added (not_le.mp hover) (clampToI64_ceil hwhole) rfl, rfl, rfl⟩

/-- Deposits are only added to a position that is not a borrow. -/
theorem addDeposit_spec (hamount : 0 ≤ amount.raw)
    (hp : b.Indexed → 0 ≤ p.indexedPosition.raw) (h : b.addDeposit p amount = .ok (active, b', p')) :
    active = true ∧ Posts b p b' p' ∧ SameTerms b b' ∧ b'.netBorrows = b.netBorrows ∧
      b'.depositLimit = b.depositLimit ∧
      ∃ change, divRoundingUp amount b.depositIndex = .ok change ∧
        p'.indexedPosition.raw = p.indexedPosition.raw + change.raw ∧
        b'.indexedDeposits.raw = b.indexedDeposits.raw + change.raw := by
  obtain ⟨change, hchange, h⟩ := of_bind h
  obtain ⟨deposits, hdeposits, h⟩ := of_bind h
  obtain ⟨position, hposition, h⟩ := of_bind h
  obtain ⟨rfl, rfl, rfl⟩ := ok_inj₃ h
  rw [Fixed.add_eq_ok] at hdeposits hposition
  refine ⟨rfl, ⟨fun hb => ?_, fun hb => ?_, rfl, rfl, rfl, rfl⟩, ⟨rfl, rfl, rfl, rfl, rfl⟩, rfl, rfl,
    change, hchange, hposition, hdeposits⟩
  · have hnonneg := divRoundingUp_nonneg hamount hb.1 hchange
    have hp := hp hb
    simp only [deposited]
    omega
  · have hnonneg := divRoundingUp_nonneg hamount hb.1 hchange
    have hp := hp hb
    simp only [borrowed]
    omega

/-! ## What a deposit does -/

/-- How a deposit of `amount` changes a position that is worth `native`.  Only
    dusting reports that the position is not active any more. -/
inductive Deposited (b : Bank) (allowDusting : Bool) (amount native : I80F48)
    (p p' : TokenPosition) : Bool → Prop where
  /-- A borrow is paid back in part. -/
  | repaid {change : I80F48} (hnative : native.raw < 0)
      (hchange : divRoundingUp amount b.borrowIndex = .ok change)
      (hp' : p'.indexedPosition.raw = p.indexedPosition.raw + change.raw)
      (hneg : p'.indexedPosition.raw < 0) : Deposited b allowDusting amount native p p' true
  /-- It is paid back, and what is left is less than one native token. -/
  | dusted {change : I80F48} (hnative : native.raw < 0) (hdusting : allowDusting = true)
      (hchange : divRoundingUp amount b.borrowIndex = .ok change)
      (hpaid : 0 ≤ p.indexedPosition.raw + change.raw)
      (hrest : native.raw + amount.raw < 2 ^ 48) (hp' : p'.indexedPosition.raw = 0) :
      Deposited b allowDusting amount native p p' false
  /-- It is paid back, and the rest is deposited. -/
  | crossed {change rest restChange : I80F48} (hnative : native.raw < 0)
      (hchange : divRoundingUp amount b.borrowIndex = .ok change)
      (hpaid : 0 ≤ p.indexedPosition.raw + change.raw)
      (hrest : rest.raw = max (native.raw + amount.raw) 0)
      (hrestChange : divRoundingUp rest b.depositIndex = .ok restChange)
      (hp' : p'.indexedPosition.raw = restChange.raw) :
      Deposited b allowDusting amount native p p' true
  /-- There was no borrow. -/
  | added {change : I80F48} (hnative : 0 ≤ native.raw)
      (hchange : divRoundingUp amount b.depositIndex = .ok change)
      (hp' : p'.indexedPosition.raw = p.indexedPosition.raw + change.raw) :
      Deposited b allowDusting amount native p p' true

/-- Only the balance matters. -/
theorem Deposited.congr {allowDusting : Bool} {native : I80F48} {q : TokenPosition}
    (h : Deposited b allowDusting amount native p p' active)
    (hq : q.indexedPosition = p'.indexedPosition) :
    Deposited b allowDusting amount native p q active := by
  cases h with
  | repaid hneg hchange hp' hstill => exact .repaid hneg hchange (hq ▸ hp') (hq ▸ hstill)
  | dusted hneg hdusting hchange hpaid hrest hp' =>
    exact .dusted hneg hdusting hchange hpaid hrest (hq ▸ hp')
  | crossed hneg hchange hpaid hrest hrestChange hp' =>
    exact .crossed hneg hchange hpaid hrest hrestChange (hq ▸ hp')
  | added hnonneg hchange hp' => exact .added hnonneg hchange (hq ▸ hp')

variable {allowDusting : Bool}

/-- Only a dusted position is reported as no longer active, and it is empty. -/
theorem Deposited.dusted_eq {native : I80F48} (h : Deposited b allowDusting amount native p p' false) :
    allowDusting = true ∧ p'.indexedPosition = .zero := by
  cases h with
  | dusted _ hdusting _ _ _ hp' => exact ⟨hdusting, Fixed.ext hp'⟩

/-- What a deposit does to the deposits of the bank: nothing while it repays, and
    the rest is added. -/
def AddsDeposits (b b' : Bank) (amount : I80F48) : Prop :=
  b'.indexedDeposits = b.indexedDeposits ∨ ∃ rest change : I80F48, 0 ≤ rest.raw ∧
    rest.raw ≤ amount.raw ∧ divRoundingUp rest b.depositIndex = .ok change ∧
      b'.indexedDeposits.raw = b.indexedDeposits.raw + change.raw

/-- What a deposit repays. -/
def repaid (native amount : I80F48) : Int := min (max (-native.raw) 0) amount.raw

/-- What a deposit does to the counts of a bank. -/
structure CountsDeposit (b b' : Bank) (native amount : I80F48) (nowTs : Nat) : Prop where
  counted : Counted b.netBorrows b'.netBorrows (-repaid native amount) nowTs
  depositLimit : b'.depositLimit = b.depositLimit
  adds : AddsDeposits b b' amount

theorem depositInternal_spec
    (h : b.depositInternal p amount allowDusting nowTs = .ok (active, b', p')) :
    Posts b p b' p' ∧ SameTerms b b' ∧ 0 ≤ amount.raw ∧ ∃ native, p.native b = .ok native ∧
      CountsDeposit b b' native amount nowTs ∧
      Deposited b allowDusting amount native p p' active := by
  obtain ⟨_, hreq, h⟩ := of_bind h
  have hamount : 0 ≤ amount.raw := of_require hreq
  obtain ⟨native, hnative, h⟩ := of_bind h
  split at h
  · rename_i hneg
    have hneg : native.raw < 0 := hneg
    have hp : b.Indexed → p.indexedPosition.raw < 0 := fun hb => by
      have hsign := native_nonneg_iff hb hnative
      omega
    obtain ⟨opposite, hopposite, h⟩ := of_bind h
    obtain ⟨b₁, hnet, h⟩ := of_bind h
    obtain ⟨newNative, hnewNative, h⟩ := of_bind h
    obtain ⟨change, hchange, h⟩ := of_bind h
    obtain ⟨newIndexed, hnew, h⟩ := of_bind h
    obtain ⟨hposts, hterms, hcounted, hdeposits, hlimit⟩ := updateNetBorrows_spec p hnet
    rw [hterms.borrowIndex] at hchange
    rw [Fixed.add_eq_ok] at hnew hnewNative
    rw [Fixed.neg_eq_ok] at hopposite
    have hrepaid : (native.max opposite).raw = -repaid native amount := by
      rw [Fixed.raw_max, hopposite, repaid]
      omega
    rw [hrepaid] at hcounted
    split at h
    · rename_i hstill
      -- the position stays a borrow: both shrink by the same indexed change
      have hstill : newIndexed.raw < 0 := hstill
      obtain ⟨borrows, hborrows, h⟩ := of_bind h
      obtain ⟨rfl, rfl, rfl⟩ := ok_inj₃ h
      rw [Fixed.sub_eq_ok] at hborrows
      refine ⟨hposts.trans ⟨fun hb => ?_, fun hb => ?_, rfl, rfl, rfl, rfl⟩,
        hterms.trans ⟨rfl, rfl, rfl, rfl, rfl⟩, hamount, native, hnative,
        ⟨hcounted, hlimit, .inl hdeposits⟩, .repaid hneg hchange hnew hstill⟩
      · have hnonneg := divRoundingUp_nonneg hamount (hposts.indexed_iff.mp hb).2 hchange
        simp only [deposited]
        omega
      · have hnonneg := divRoundingUp_nonneg hamount (hposts.indexed_iff.mp hb).2 hchange
        simp only [borrowed]
        omega
    · rename_i hstill
      have hpaid : 0 ≤ p.indexedPosition.raw + change.raw := hnew ▸ not_lt.mp hstill
      have hp₁ : b₁.Indexed → p.indexedPosition.raw < 0 := fun hb => hp (hposts.indexed_iff.mp hb)
      split at h
      · rename_i hdust
        obtain ⟨dust, -, h⟩ := of_bind h
        obtain ⟨borrows, hborrows, h⟩ := of_bind h
        obtain ⟨rfl, rfl, rfl⟩ := ok_inj₃ h
        have hrest : newNative.raw < 2 ^ 48 := hdust.1
        exact ⟨hposts.trans (clear_borrow_posts hp₁ (Fixed.add_eq_ok.mp hborrows) dust),
          hterms.trans ⟨rfl, rfl, rfl, rfl, rfl⟩, hamount, native, hnative,
          ⟨hcounted, hlimit, .inl hdeposits⟩, .dusted hneg hdust.2 hchange hpaid (hnewNative ▸ hrest) rfl⟩
      · obtain ⟨borrows, hborrows, h⟩ := of_bind h
        have hclear := clear_borrow_posts hp₁ (Fixed.add_eq_ok.mp hborrows) b₁.dust
        have hrest : (newNative.max .zero).raw = max (native.raw + amount.raw) 0 := by
          rw [Fixed.raw_max, hnewNative, Fixed.raw_zero]
        obtain ⟨rfl, hadd, hadded, hsame, hlimit', restChange, hrestChange, hp', hdeposits'⟩ :=
          addDeposit_spec (hrest ▸ le_max_right _ _) (fun _ => le_rfl) h
        replace hrestChange : divRoundingUp (newNative.max .zero) b.depositIndex = .ok restChange :=
          hterms.depositIndex ▸ hrestChange
        rw [Fixed.raw_zero, Int.zero_add] at hp'
        exact ⟨(hposts.trans hclear).trans hadd, hterms.trans ⟨hadded.tokenIndex, hadded.depositIndex,
          hadded.borrowIndex, hadded.potentialSerumTokens, hadded.reduceOnly⟩, hamount, native,
          hnative, ⟨hsame ▸ hcounted, hlimit'.trans hlimit, .inr ⟨newNative.max .zero, restChange,
            by omega, by omega, hrestChange, hdeposits ▸ hdeposits'⟩⟩,
          .crossed hneg hchange hpaid hrest hrestChange hp'⟩
  · rename_i hneg
    have hp : b.Indexed → 0 ≤ p.indexedPosition.raw := fun hb =>
      (native_nonneg_iff hb hnative).mp (not_lt.mp hneg)
    have hneg : 0 ≤ native.raw := not_lt.mp hneg
    obtain ⟨rfl, hadd, hadded, hsame, hlimit, change, hchange, hp', hdeposits⟩ :=
      addDeposit_spec hamount hp h
    refine ⟨hadd, hadded, hamount, native, hnative, ⟨.untouched ?_ hsame, hlimit,
      .inr ⟨amount, change, hamount, le_rfl, hchange, hdeposits⟩⟩, .added hneg hchange hp'⟩
    rw [repaid]
    omega

/-- Only the display fields change after that. -/
theorem depositInternalWrapper_spec
    (h : b.depositInternalWrapper p amount allowDusting nowTs = .ok (active, b', p')) :
    Posts b p b' p' ∧ SameTerms b b' ∧ 0 ≤ amount.raw ∧ ∃ native, p.native b = .ok native ∧
      CountsDeposit b b' native amount nowTs ∧
      Deposited b allowDusting amount native p p' active := by
  obtain ⟨⟨active₁, b₁, p₁⟩, hdeposit, h⟩ := of_bind h
  obtain ⟨p₂, hinterest, h⟩ := of_bind h
  obtain ⟨rfl, rfl, rfl⟩ := ok_inj₃ h
  obtain ⟨previousIndex, rfl⟩ := updateCumulativeInterest_eq_ok hinterest
  obtain ⟨hposts, hterms, hamount, native, hnative, hcounts, hcases⟩ := depositInternal_spec hdeposit
  exact ⟨hposts.with_previousIndex previousIndex, hterms, hamount, native, hnative, hcounts,
    hcases.congr rfl⟩

theorem deposit_cases (h : b.deposit p amount nowTs = .ok (active, b', p')) :
    SameTerms b b' ∧ 0 ≤ amount.raw ∧ ∃ native, p.native b = .ok native ∧
      Deposited b (!p.isInUse) amount native p p' active := by
  obtain ⟨-, hterms, hamount, native, hnative, -, hcases⟩ := depositInternalWrapper_spec h
  exact ⟨hterms, hamount, native, hnative, hcases⟩

theorem deposit_changes (h : b.deposit p amount nowTs = .ok (active, b', p')) :
    Changes b p active b' p' := by
  obtain ⟨hposts, -, -, _, -, -, hcases⟩ := depositInternalWrapper_spec h
  refine ⟨hposts, ?_⟩
  rintro rfl
  exact ⟨inUseCount_eq_zero hcases.dusted_eq.1, hcases.dusted_eq.2⟩

/-- Positions in use are dusted, and reported as active. -/
theorem Changes.of_dusting {notDusted : Bool} (hposts : Posts b p b' p')
    (hdusted : notDusted = false → p'.indexedPosition = .zero) :
    Changes b p (notDusted || p'.isInUse) b' p' := by
  refine ⟨hposts, fun hf => ?_⟩
  rw [Bool.or_eq_false_iff] at hf
  refine ⟨?_, hdusted hf.1⟩
  rw [← hposts.inUseCount]
  exact inUseCount_eq_zero (by rw [hf.2]; rfl)

theorem depositWithDusting_changes
    (h : b.depositWithDusting p amount nowTs = .ok (active, b', p')) :
    Changes b p active b' p' := by
  obtain ⟨⟨notDusted, b₁, p₁⟩, hdeposit, h⟩ := of_bind h
  obtain ⟨rfl, rfl, rfl⟩ := ok_inj₃ h
  obtain ⟨hposts, -, -, _, -, -, hcases⟩ := depositInternalWrapper_spec hdeposit
  refine .of_dusting hposts ?_
  rintro rfl
  exact hcases.dusted_eq.2

/-! ## What a withdrawal does -/

/-- How a withdrawal of `amount` changes a position that is worth `native`;
    `fee` is charged on top of what is borrowed. -/
inductive Withdrawn (b : Bank) (allowDusting : Bool) (amount native fee : I80F48)
    (p p' : TokenPosition) : Bool → Prop where
  /-- What is left of the deposits is less than one native token. -/
  | dusted (hnative : amount.raw ≤ native.raw) (hnonneg : 0 ≤ native.raw)
      (hdusting : allowDusting = true) (hrest : native.raw - amount.raw < 2 ^ 48)
      (hp' : p'.indexedPosition.raw = 0) (hfee : fee.raw = 0) :
      Withdrawn b allowDusting amount native fee p p' false
  /-- Deposits are enough. -/
  | taken {change : I80F48} (hnative : amount.raw ≤ native.raw) (hnonneg : 0 ≤ native.raw)
      (hchange : amount.div b.depositIndex = (.ok change : Exec I80F48))
      (hp' : p'.indexedPosition.raw = p.indexedPosition.raw - change.raw) (hfee : fee.raw = 0) :
      Withdrawn b allowDusting amount native fee p p' true
  /-- All deposits are withdrawn, and the rest is borrowed. -/
  | crossed {loan change : I80F48} (hnative : native.raw < amount.raw) (hnonneg : 0 ≤ native.raw)
      (hloan : loan.raw = amount.raw - native.raw + fee.raw)
      (hchange : loan.div b.borrowIndex = (.ok change : Exec I80F48))
      (hp' : p'.indexedPosition.raw = -change.raw) :
      Withdrawn b allowDusting amount native fee p p' true
  /-- There were no deposits. -/
  | borrowed {loan change : I80F48} (hnative : native.raw < 0)
      (hloan : loan.raw = amount.raw + fee.raw)
      (hchange : loan.div b.borrowIndex = (.ok change : Exec I80F48))
      (hp' : p'.indexedPosition.raw = p.indexedPosition.raw - change.raw) :
      Withdrawn b allowDusting amount native fee p p' true

/-- Only the balance matters. -/
theorem Withdrawn.congr {allowDusting : Bool} {native fee : I80F48} {q : TokenPosition}
    (h : Withdrawn b allowDusting amount native fee p p' active)
    (hq : q.indexedPosition = p'.indexedPosition) :
    Withdrawn b allowDusting amount native fee p q active := by
  cases h with
  | dusted hle hpos hdusting hrest hp' hfee => exact .dusted hle hpos hdusting hrest (hq ▸ hp') hfee
  | taken hle hpos hchange hp' hfee => exact .taken hle hpos hchange (hq ▸ hp') hfee
  | crossed hlt hpos hloan hchange hp' => exact .crossed hlt hpos hloan hchange (hq ▸ hp')
  | borrowed hneg hloan hchange hp' => exact .borrowed hneg hloan hchange (hq ▸ hp')

theorem Withdrawn.dusted_eq {native fee : I80F48}
    (h : Withdrawn b allowDusting amount native fee p p' false) :
    allowDusting = true ∧ p'.indexedPosition = .zero := by
  cases h with
  | dusted _ _ hdusting _ hp' _ => exact ⟨hdusting, Fixed.ext hp'⟩

variable {withFee : Bool} {result : WithdrawResult}

/-- The fee is never negative, so borrowing only takes from the position. -/
theorem addBorrow_spec (hamount : 0 ≤ amount.raw) (hp : b.Indexed → p.indexedPosition.raw ≤ 0)
    (h : b.addBorrow p amount withFee nowTs = .ok (result, b', p')) :
    result.positionIsActive = true ∧ Posts b p b' p' ∧ SameTerms b b' ∧
      (withFee = false → result.loanOriginationFee = .zero) ∧ 0 ≤ result.loanOriginationFee.raw ∧
      Counted b.netBorrows b'.netBorrows (amount.raw + result.loanOriginationFee.raw) nowTs ∧
      ∃ loan change : I80F48, loan.raw = amount.raw + result.loanOriginationFee.raw ∧
        loan.div b.borrowIndex = (.ok change : Exec I80F48) ∧
        p'.indexedPosition.raw = p.indexedPosition.raw - change.raw := by
  obtain ⟨fee, hfee, h⟩ := of_bind h
  obtain ⟨fees, -, h⟩ := of_bind h
  obtain ⟨loan, hloan, h⟩ := of_bind h
  obtain ⟨change, hchange, h⟩ := of_bind h
  obtain ⟨borrows, hborrows, h⟩ := of_bind h
  obtain ⟨position, hposition, h⟩ := of_bind h
  obtain ⟨b₁, hnet, h⟩ := of_bind h
  obtain ⟨rfl, rfl, rfl⟩ := ok_inj₃ h
  rw [Fixed.add_eq_ok] at hborrows hloan
  rw [Fixed.sub_eq_ok] at hposition
  have hfee_nonneg : 0 ≤ fee.raw := by
    split at hfee
    · have hrate : 0 ≤ b.loanOriginationFeeRate.raw := b.loanOriginationFeeRate_nonneg
      rw [Fixed.mul_eq_ok.mp hfee]
      positivity
    · obtain rfl := ok_inj hfee
      exact le_rfl
  have hnonneg : b.Indexed → 0 ≤ change.raw := fun hb => by
    have hborrowIndex : 0 < b.borrowIndex.raw := hb.2
    rw [(Fixed.div_eq_ok.mp hchange).2]
    exact Int.tdiv_nonneg (by rw [hloan]; positivity) hborrowIndex.le
  obtain ⟨hposts, hterms, hcounted, -⟩ :=
    updateNetBorrows_spec { p with indexedPosition := position } hnet
  refine ⟨rfl, Posts.trans ?_ hposts, ⟨hterms.tokenIndex, hterms.depositIndex, hterms.borrowIndex,
    hterms.potentialSerumTokens, hterms.reduceOnly⟩, ?_, hfee_nonneg, hloan ▸ hcounted, loan, change,
    hloan, hchange, hposition⟩
  · refine ⟨fun hb => ?_, fun hb => ?_, rfl, rfl, rfl, rfl⟩
    · have hp := hp hb
      have hnonneg := hnonneg hb
      simp only [deposited]
      omega
    · have hp := hp hb
      have hnonneg := hnonneg hb
      simp only [borrowed]
      omega
  · rintro rfl
    exact (ok_inj hfee).symm

/-- What a withdrawal borrows, the fee not included. -/
def loan (native amount : I80F48) : Int := max (amount.raw - max native.raw 0) 0

theorem withdrawInternal_spec
    (h : b.withdrawInternal p amount withFee allowDusting nowTs = .ok (result, b', p')) :
    Posts b p b' p' ∧ SameTerms b b' ∧ 0 ≤ amount.raw ∧
      (withFee = false → result.loanOriginationFee = .zero) ∧ 0 ≤ result.loanOriginationFee.raw ∧
      ∃ native, p.native b = .ok native ∧
        Counted b.netBorrows b'.netBorrows (loan native amount + result.loanOriginationFee.raw)
          nowTs ∧
        (amount.raw ≤ native.raw → result.loanAmount = .zero) ∧
        Withdrawn b allowDusting amount native result.loanOriginationFee p p'
          result.positionIsActive := by
  obtain ⟨_, hreq, h⟩ := of_bind h
  have hamount : 0 ≤ amount.raw := of_require hreq
  obtain ⟨native, hnative, h⟩ := of_bind h
  split at h
  · rename_i hpos
    have hpos : 0 ≤ native.raw := hpos
    have hp : b.Indexed → 0 ≤ p.indexedPosition.raw := fun hb =>
      (native_nonneg_iff hb hnative).mp hpos
    obtain ⟨newNative, hnewNative, h⟩ := of_bind h
    rw [Fixed.sub_eq_ok] at hnewNative
    split at h
    · rename_i hleft
      have hleft : 0 ≤ newNative.raw := hleft
      have hloan : loan native amount + (.zero : I80F48).raw = 0 := by
        rw [loan, Fixed.raw_zero]
        omega
      split at h
      · rename_i hdust
        obtain ⟨dust, -, h⟩ := of_bind h
        obtain ⟨deposits, hdeposits, h⟩ := of_bind h
        obtain ⟨rfl, rfl, rfl⟩ := ok_inj₃ h
        have hrest : newNative.raw < 2 ^ 48 := hdust.1
        exact ⟨clear_deposit_posts hp (Fixed.sub_eq_ok.mp hdeposits) dust, ⟨rfl, rfl, rfl, rfl, rfl⟩,
          hamount, fun _ => rfl, le_rfl, native, hnative, .untouched hloan rfl, fun _ => rfl,
          .dusted (by omega) hpos hdust.2 (hnewNative ▸ hrest) rfl rfl⟩
      · obtain ⟨change, hchange, h⟩ := of_bind h
        obtain ⟨deposits, hdeposits, h⟩ := of_bind h
        obtain ⟨position, hposition, h⟩ := of_bind h
        obtain ⟨rfl, rfl, rfl⟩ := ok_inj₃ h
        have hle : b.Indexed → 0 ≤ change.raw ∧ change.raw ≤ p.indexedPosition.raw := fun hb =>
          withdrawal_le_position hb (hp hb) hnative hamount (by omega) hchange
        rw [Fixed.sub_eq_ok] at hdeposits hposition
        refine ⟨⟨fun hb => ?_, fun hb => ?_, rfl, rfl, rfl, rfl⟩, ⟨rfl, rfl, rfl, rfl, rfl⟩, hamount,
          fun _ => rfl, le_rfl, native, hnative, .untouched hloan rfl, fun _ => rfl,
          .taken (by omega) hpos hchange hposition rfl⟩
        · have hle := hle hb
          simp only [deposited]
          omega
        · have hle := hle hb
          simp only [borrowed]
          omega
    · rename_i hleft
      have hleft : newNative.raw < 0 := not_le.mp hleft
      obtain ⟨deposits, hdeposits, h⟩ := of_bind h
      obtain ⟨rest, hrest, h⟩ := of_bind h
      have hclear := clear_deposit_posts hp (Fixed.sub_eq_ok.mp hdeposits) b.dust
      rw [Fixed.neg_eq_ok] at hrest
      have hmissing : loan native amount = rest.raw := by
        rw [loan]
        omega
      obtain ⟨hactive, hborrow, hterms, hfee, hfeeNonneg, hcounted, loan, change, hloan, hchange,
        hp'⟩ := addBorrow_spec (by omega) (fun _ => le_rfl) h
      rw [Fixed.raw_zero, Int.zero_sub] at hp'
      exact ⟨hclear.trans hborrow, ⟨hterms.tokenIndex, hterms.depositIndex, hterms.borrowIndex,
        hterms.potentialSerumTokens, hterms.reduceOnly⟩, hamount, hfee, hfeeNonneg, native, hnative,
        hmissing ▸ hcounted, fun hle => by omega, hactive ▸ .crossed (by omega) hpos (by omega) hchange hp'⟩
  · rename_i hpos
    have hneg : native.raw < 0 := not_le.mp hpos
    have hp : b.Indexed → p.indexedPosition.raw ≤ 0 := fun hb => by
      have hsign := native_nonneg_iff hb hnative
      omega
    have hmissing : loan native amount = amount.raw := by
      rw [loan]
      omega
    obtain ⟨hactive, hborrow, hterms, hfee, hfeeNonneg, hcounted, loan, change, hloan, hchange,
      hp'⟩ := addBorrow_spec hamount hp h
    exact ⟨hborrow, hterms, hamount, hfee, hfeeNonneg, native, hnative, hmissing ▸ hcounted,
      fun hle => by omega,
      hactive ▸ .borrowed hneg hloan hchange hp'⟩

theorem withdrawInternalWrapper_spec
    (h : b.withdrawInternalWrapper p amount withFee allowDusting nowTs = .ok (result, b', p')) :
    Posts b p b' p' ∧ SameTerms b b' ∧ 0 ≤ amount.raw ∧
      (withFee = false → result.loanOriginationFee = .zero) ∧ 0 ≤ result.loanOriginationFee.raw ∧
      ∃ native, p.native b = .ok native ∧
        Counted b.netBorrows b'.netBorrows (loan native amount + result.loanOriginationFee.raw)
          nowTs ∧
        (amount.raw ≤ native.raw → result.loanAmount = .zero) ∧
        Withdrawn b allowDusting amount native result.loanOriginationFee p p'
          result.positionIsActive := by
  obtain ⟨⟨result₁, b₁, p₁⟩, hwithdraw, h⟩ := of_bind h
  obtain ⟨p₂, hinterest, h⟩ := of_bind h
  obtain ⟨rfl, rfl, rfl⟩ := ok_inj₃ h
  obtain ⟨previousIndex, rfl⟩ := updateCumulativeInterest_eq_ok hinterest
  obtain ⟨hposts, hterms, hamount, hfee, hfeeNonneg, native, hnative, hcounted, hloan, hcases⟩ :=
    withdrawInternal_spec hwithdraw
  exact ⟨hposts.with_previousIndex previousIndex, hterms, hamount, hfee, hfeeNonneg, native, hnative,
    hcounted, hloan, hcases.congr rfl⟩

/-- Positions in use are not dusted. -/
theorem withdrawInternalWrapper_changes
    (h : b.withdrawInternalWrapper p amount withFee (!p.isInUse) nowTs = .ok (result, b', p')) :
    Changes b p result.positionIsActive b' p' := by
  obtain ⟨hposts, -, -, -, -, _, -, -, -, hcases⟩ := withdrawInternalWrapper_spec h
  refine ⟨hposts, fun hf => ?_⟩
  rw [hf] at hcases
  exact ⟨inUseCount_eq_zero hcases.dusted_eq.1, hcases.dusted_eq.2⟩

theorem withdrawWithFee_changes (h : b.withdrawWithFee p amount nowTs = .ok (result, b', p')) :
    Changes b p result.positionIsActive b' p' :=
  withdrawInternalWrapper_changes h

theorem withdrawWithoutFee_changes
    (h : b.withdrawWithoutFee p amount nowTs = .ok (active, b', p')) :
    Changes b p active b' p' := by
  obtain ⟨⟨result, b₁, p₁⟩, hwithdraw, h⟩ := of_bind h
  obtain ⟨rfl, rfl, rfl⟩ := ok_inj₃ h
  exact withdrawInternalWrapper_changes hwithdraw

theorem withdrawWithoutFee_cases (h : b.withdrawWithoutFee p amount nowTs = .ok (active, b', p')) :
    SameTerms b b' ∧ 0 ≤ amount.raw ∧ ∃ native fee, p.native b = .ok native ∧ fee.raw = 0 ∧
      Withdrawn b (!p.isInUse) amount native fee p p' active := by
  obtain ⟨⟨result, b₁, p₁⟩, hwithdraw, h⟩ := of_bind h
  obtain ⟨rfl, rfl, rfl⟩ := ok_inj₃ h
  obtain ⟨-, hterms, hamount, hfee, -, native, hnative, -, -, hcases⟩ :=
    withdrawInternalWrapper_spec hwithdraw
  exact ⟨hterms, hamount, native, _, hnative, congrArg Fixed.raw (hfee rfl), hcases⟩

theorem withdrawWithoutFeeWithDusting_changes
    (h : b.withdrawWithoutFeeWithDusting p amount nowTs = .ok (active, b', p')) :
    Changes b p active b' p' := by
  obtain ⟨⟨result, b₁, p₁⟩, hwithdraw, h⟩ := of_bind h
  obtain ⟨rfl, rfl, rfl⟩ := ok_inj₃ h
  obtain ⟨hposts, -, -, -, -, _, -, -, -, hcases⟩ := withdrawInternalWrapper_spec hwithdraw
  refine .of_dusting hposts fun hf => ?_
  rw [hf] at hcases
  exact hcases.dusted_eq.2

/-- Collected fees are not part of the books. -/
theorem withdrawLoanOriginationFee_changes
    (h : b.withdrawLoanOriginationFee p amount nowTs = .ok (result, b', p')) :
    Changes b p result.positionIsActive b' p' ∧ SameTerms b b' := by
  obtain ⟨fee, -, h⟩ := of_bind h
  obtain ⟨fees, -, h⟩ := of_bind h
  obtain ⟨⟨result₁, b₁, p₁⟩, hwithdraw, h⟩ := of_bind h
  obtain ⟨rfl, rfl, rfl⟩ := ok_inj₃ h
  have hchanges := withdrawInternalWrapper_changes hwithdraw
  have hterms := (withdrawInternalWrapper_spec hwithdraw).2.1
  refine ⟨⟨Posts.trans ?_ hchanges.posts, hchanges.dusted⟩, hterms.tokenIndex, hterms.depositIndex,
    hterms.borrowIndex, hterms.potentialSerumTokens, hterms.reduceOnly⟩
  exact ⟨fun _ => rfl, fun _ => rfl, rfl, rfl, rfl, rfl⟩

theorem dustIfPossible_changes (h : b.dustIfPossible p nowTs = .ok (active, b', p')) :
    Changes b p active b' p' ∧ SameTerms b b' ∧
      (p'.indexedPosition.raw = p.indexedPosition.raw ∨ p'.indexedPosition.raw = 0) := by
  unfold dustIfPossible at h
  split at h
  · obtain ⟨rfl, rfl, rfl⟩ := ok_inj₃ h
    exact ⟨.refl b p, .refl b, .inl rfl⟩
  · obtain ⟨native, hnative, h⟩ := of_bind h
    split at h
    · rename_i hdust
      have hnonneg : 0 ≤ native.raw := hdust.1
      obtain ⟨hterms, -, n, fee, hn, -, hcases⟩ := withdrawWithoutFee_cases h
      obtain rfl : native = n := ok_unique hnative hn
      refine ⟨withdrawWithoutFee_changes h, hterms, ?_⟩
      cases hcases with
      | dusted _ _ _ _ hp' _ => exact .inr hp'
      | taken _ _ hchange hp' _ =>
        obtain ⟨-, hraw⟩ := Fixed.div_eq_ok.mp hchange
        rw [Fixed.raw_zero, zero_mul, Int.zero_tdiv] at hraw
        exact .inl (by omega)
      | crossed hlt _ _ _ _ =>
        rw [Fixed.raw_zero] at hlt
        omega
      | borrowed hneg _ _ _ => omega
    · obtain ⟨rfl, rfl, rfl⟩ := ok_inj₃ h
      exact ⟨.refl b p, .refl b, .inl rfl⟩

theorem changeWithoutFee_changes
    (h : b.changeWithoutFee p amount nowTs = .ok (active, b', p')) :
    Changes b p active b' p' ∧ SameTerms b b' := by
  unfold changeWithoutFee at h
  split at h
  · exact ⟨deposit_changes h, (deposit_cases h).1⟩
  · obtain ⟨_, -, h⟩ := of_bind h
    exact ⟨withdrawWithoutFee_changes h, (withdrawWithoutFee_cases h).1⟩

theorem changeWithFee_changes
    (h : b.changeWithFee p amount nowTs = .ok (result, b', p')) :
    Changes b p result.positionIsActive b' p' := by
  unfold changeWithFee at h
  split at h
  · obtain ⟨⟨active, b₁, p₁⟩, hdeposit, h⟩ := of_bind h
    obtain ⟨rfl, rfl, rfl⟩ := ok_inj₃ h
    exact deposit_changes hdeposit
  · obtain ⟨_, -, h⟩ := of_bind h
    exact withdrawWithFee_changes h

/-! ## Transfers -/

theorem withdrawFromSource_changes
    (h : b.withdrawFromSource p amount nowTs = .ok (result, b', p')) :
    Changes b p result.positionIsActive b' p' ∧ SameTerms b b' := by
  unfold withdrawFromSource at h
  split at h
  · obtain ⟨rfl, rfl, rfl⟩ := ok_inj₃ h
    exact ⟨.refl b p, .refl b⟩
  · obtain ⟨⟨result₁, b₁, p₁⟩, hwithdraw, h⟩ := of_bind h
    obtain ⟨_, -, h⟩ := of_bind h
    obtain ⟨rfl, rfl, rfl⟩ := ok_inj₃ h
    exact ⟨withdrawWithFee_changes hwithdraw, (withdrawInternalWrapper_spec hwithdraw).2.1⟩

theorem depositToTarget_changes (h : b.depositToTarget p amount nowTs = .ok (active, b', p')) :
    Changes b p active b' p' ∧ SameTerms b b' := by
  unfold depositToTarget at h
  split at h
  · obtain ⟨rfl, rfl, rfl⟩ := ok_inj₃ h
    exact ⟨.refl b p, .refl b⟩
  · obtain ⟨⟨active₁, b₁, p₁⟩, hdeposit, h⟩ := of_bind h
    obtain ⟨_, -, h⟩ := of_bind h
    obtain ⟨rfl, rfl, rfl⟩ := ok_inj₃ h
    exact ⟨deposit_changes hdeposit, (deposit_cases hdeposit).1⟩

/-- A transfer changes the source, then the target; the limits only reject. -/
theorem checkedTransferWithFee_parts {source source' target target' : TokenPosition}
    {sourceAmount targetAmount oraclePrice : I80F48} {result : TransferResult}
    (h : b.checkedTransferWithFee source sourceAmount target targetAmount nowTs oraclePrice =
      .ok (result, b', source', target')) :
    ∃ withdrawn b₁ active, b.withdrawFromSource source sourceAmount nowTs =
        .ok (withdrawn, b₁, source') ∧
      b₁.depositToTarget target targetAmount nowTs = .ok (active, b', target') ∧
      result.sourceIsActive = withdrawn.positionIsActive ∧ result.targetIsActive = active := by
  obtain ⟨⟨withdrawn, b₁, source₁⟩, hwithdraw, h⟩ := of_bind h
  obtain ⟨⟨active, b₂, target₁⟩, hdeposit, h⟩ := of_bind h
  obtain ⟨_, -, h⟩ := of_bind h
  obtain ⟨_, -, h⟩ := of_bind h
  obtain ⟨_, -, h⟩ := of_bind h
  obtain ⟨_, -, h⟩ := of_bind h
  obtain ⟨rfl, rfl, rfl, rfl⟩ := ok_inj₄ h
  exact ⟨withdrawn, b₁, active, hwithdraw, hdeposit, rfl, rfl⟩

/-! ## Native values -/

section Native

variable {native native' fee : I80F48}

/-- Rounding towards zero, a quotient is worth no more than the amount. -/
theorem div_mul_le {x index change : I80F48} (hx : 0 ≤ x.raw) (hindex : 0 < index.raw)
    (h : x.div index = (.ok change : Exec I80F48)) :
    0 ≤ change.raw ∧ change.raw * index.raw ≤ x.raw * 2 ^ 48 := by
  obtain ⟨-, hraw⟩ := Fixed.div_eq_ok.mp h
  rw [Int.tdiv_eq_ediv_of_nonneg (by positivity)] at hraw
  rw [hraw]
  exact ⟨by positivity, Int.ediv_mul_le _ hindex.ne'⟩

theorem native_of_nonpos (hp : p.indexedPosition.raw ≤ 0) (h : p.native b = .ok native) :
    native.raw = p.indexedPosition.raw * b.borrowIndex.raw / 2 ^ 48 := by
  rw [native_eq_ok h, if_neg (not_lt.mpr hp)]

/-- A position that is worth `n` is worth at least `n - loan` after a loan. -/
theorem sub_le_native_of_borrow {q change loan n : Int} (hq : q ≤ 0) (hchange : 0 ≤ change)
    (hp' : p'.indexedPosition.raw = q - change) (hn : n * 2 ^ 48 ≤ q * b.borrowIndex.raw)
    (hle : change * b.borrowIndex.raw ≤ loan * 2 ^ 48) (h : p'.native b = .ok native') :
    n - loan ≤ native'.raw := by
  rw [native_of_nonpos (by omega) h, hp', sub_mul]
  exact (Int.le_ediv_iff_mul_le (by norm_num)).mpr (by omega)

/-- Withdrawing no more than the position is worth leaves no borrow. -/
theorem Withdrawn.indexed_nonneg (hb : b.Indexed)
    (h : Withdrawn b allowDusting amount native fee p p' active) (hamount : 0 ≤ amount.raw)
    (hnative : p.native b = .ok native) (hle : amount.raw ≤ native.raw) :
    0 ≤ p'.indexedPosition.raw := by
  cases h with
  | dusted _ _ _ _ hp' _ => exact hp'.ge
  | taken _ hnonneg hchange hp' _ =>
    have hp := (native_nonneg_iff hb hnative).mp hnonneg
    have hle' := withdrawal_le_position hb hp hnative hamount hle hchange
    omega
  | crossed hlt _ _ _ _ => omega
  | borrowed hneg _ _ _ => omega

/-- However it is rounded. -/
theorem withdrawInternalWrapper_nonneg (hb : b.Indexed) (hnative : p.native b = .ok native)
    (hle : amount ≤ native)
    (h : b.withdrawInternalWrapper p amount withFee allowDusting nowTs = .ok (result, b', p')) :
    .zero ≤ p'.indexedPosition := by
  obtain ⟨-, -, hamount, -, -, n, hn, -, -, hcases⟩ := withdrawInternalWrapper_spec h
  obtain rfl : native = n := ok_unique hnative hn
  exact hcases.indexed_nonneg hb hamount hnative hle

/-- Withdrawing without a fee takes no more than the amount, or leaves no borrow. -/
theorem Withdrawn.native_le (hb : b.Indexed) (h : Withdrawn b allowDusting amount native fee p p' active)
    (hamount : 0 ≤ amount.raw) (hfee : fee.raw = 0) (hnative : p.native b = .ok native)
    (hnative' : p'.native b = .ok native') :
    native.raw ≤ native'.raw + amount.raw ∨ 0 ≤ native'.raw := by
  rcases le_or_gt amount.raw native.raw with hle | hlt
  · have hcovered := h.indexed_nonneg hb hamount hnative hle
    exact Or.inr ((native_nonneg_iff hb hnative').mpr hcovered)
  have hsign := native_nonneg_iff hb hnative
  cases h with
  | dusted hle _ _ _ _ _ => omega
  | taken hle _ _ _ _ => omega
  | crossed hlt hnonneg hloan hchange hp' =>
    obtain ⟨hpos, hle⟩ := div_mul_le (by omega) hb.2 hchange
    have hge := sub_le_native_of_borrow (q := 0) (n := 0) le_rfl hpos (by omega) (by omega) hle
      hnative'
    exact Or.inl (by omega)
  | borrowed hneg hloan hchange hp' =>
    have hp : p.indexedPosition.raw < 0 := by omega
    obtain ⟨hpos, hle⟩ := div_mul_le (by omega) hb.2 hchange
    have hfloor : native.raw * 2 ^ 48 ≤ p.indexedPosition.raw * b.borrowIndex.raw := by
      rw [native_of_nonpos hp.le hnative]
      exact Int.ediv_mul_le _ (by norm_num)
    have hge := sub_le_native_of_borrow hp.le hpos hp' hfloor hle hnative'
    exact Or.inl (by omega)

/-- A deposit does not make a borrow larger. -/
theorem Deposited.native_le (hb : b.Indexed) (h : Deposited b allowDusting amount native p p' active)
    (hamount : 0 ≤ amount.raw) (hnative : p.native b = .ok native)
    (hnative' : p'.native b = .ok native') : native.raw ≤ native'.raw ∨ 0 ≤ native'.raw := by
  have hsign := native_nonneg_iff hb hnative
  have hsign' := native_nonneg_iff hb hnative'
  cases h with
  | repaid hneg hchange hp' hstill =>
    left
    have hchange := divRoundingUp_nonneg hamount hb.2 hchange
    have hindex : 0 ≤ b.borrowIndex.raw := le_of_lt hb.2
    rw [native_of_nonpos (by omega) hnative, native_of_nonpos hstill.le hnative', hp']
    exact Int.ediv_le_ediv (by norm_num) (mul_le_mul_of_nonneg_right (by omega) hindex)
  | dusted _ _ _ _ _ hp' => exact Or.inr (hsign'.mpr hp'.ge)
  | crossed hneg _ _ hrest hrestChange hp' =>
    have hrestChange := divRoundingUp_nonneg (hrest ▸ le_max_right _ _) hb.1 hrestChange
    exact Or.inr (hsign'.mpr (by omega))
  | added hnonneg hchange hp' =>
    have hchange := divRoundingUp_nonneg hamount hb.1 hchange
    exact Or.inr (hsign'.mpr (by omega))

/-- A position loses at most what a change takes off, or is left without a borrow. -/
theorem changeWithoutFee_native_le (hb : b.Indexed)
    (h : b.changeWithoutFee p amount nowTs = .ok (active, b', p')) (hnative : p.native b = .ok native)
    (hnative' : p'.native b' = .ok native') :
    native.raw ≤ native'.raw + max (-amount.raw) 0 ∨ 0 ≤ native'.raw := by
  rw [(changeWithoutFee_changes h).2.native_eq] at hnative'
  unfold changeWithoutFee at h
  split at h
  · rename_i hamount
    have hamount : 0 ≤ amount.raw := hamount
    obtain ⟨-, -, n, hn, hcases⟩ := deposit_cases h
    obtain rfl : native = n := ok_unique hnative hn
    exact (hcases.native_le hb hamount hnative hnative').imp_left (by omega)
  · obtain ⟨taken, htaken, h⟩ := of_bind h
    rw [Fixed.neg_eq_ok] at htaken
    obtain ⟨-, hpos, n, fee, hn, hfee, hcases⟩ := withdrawWithoutFee_cases h
    obtain rfl : native = n := ok_unique hnative hn
    exact (hcases.native_le hb hpos hfee hnative hnative').imp_left (by omega)

end Native

end Bank

end MangoV4
