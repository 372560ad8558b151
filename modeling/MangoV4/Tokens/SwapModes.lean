/-
  MangoV4.Tokens.SwapModes

  Which trades of conditional swaps the reduce-only modes of the banks accept.

  The amounts are chosen for the modes (`tradeAmount_suits`).  What is taken from
  a position is rounded down, and always accepted.  What pays back a borrow is
  rounded up to whole tokens, which can leave less than one: it is given up by a
  position that nothing uses, but stays as a deposit of the others, and is
  rejected.
-/

import MangoV4.Tokens.Mandate

namespace MangoV4

open Lib Lib.Exec MangoAccount Fixed Bank

namespace Bank

variable {F : Fault MangoError → Prop} {b b' : Bank} {p p' : TokenPosition} {amount native : I80F48}
  {nowTs : Nat} {active allowDusting : Bool}

/-- Paying back a borrow with whole tokens leaves nothing, or dust that is given up. -/
def Clears (b : Bank) (p : TokenPosition) : Prop :=
  p.worth b < 0 → 2 ^ 48 ∣ p.worth b ∨ p.isInUse = false

theorem depositInternal_nonpos (hnative : p.native b = .ok native) (hneg : native < .zero)
    (hrest : native.raw + amount.raw ≤ 0 ∨
      native.raw + amount.raw < 2 ^ 48 ∧ allowDusting = true)
    (h : b.depositInternal p amount allowDusting nowTs = .ok (active, b', p')) :
    p'.indexedPosition.raw ≤ 0 := by
  obtain ⟨_, -, h⟩ := of_bind h
  obtain ⟨native₁, hnative₁, h⟩ := of_bind h
  obtain rfl := ok_unique hnative hnative₁
  rw [if_pos hneg] at h
  obtain ⟨_, -, h⟩ := of_bind h
  obtain ⟨b₁, -, h⟩ := of_bind h
  obtain ⟨newNative, hnew, h⟩ := of_bind h
  obtain ⟨change, -, h⟩ := of_bind h
  obtain ⟨newIndexed, -, h⟩ := of_bind h
  rw [add_eq_ok] at hnew
  split at h
  · rename_i hstill
    obtain ⟨_, -, h⟩ := of_bind h
    obtain ⟨-, -, rfl⟩ := ok_inj₃ h
    exact le_of_lt hstill
  · split at h
    · obtain ⟨_, -, h⟩ := of_bind h
      obtain ⟨_, -, h⟩ := of_bind h
      obtain ⟨-, -, rfl⟩ := ok_inj₃ h
      exact le_rfl
    · rename_i hkept
      have hnone : newNative.raw ≤ 0 := by
        rcases hrest with hle | ⟨hlt, hdusting⟩
        · exact hnew ▸ hle
        · exact absurd ⟨show newNative.raw < 2 ^ 48 from hnew ▸ hlt, hdusting⟩ hkept
      obtain ⟨_, -, h⟩ := of_bind h
      have hzero : (newNative.max .zero).raw = 0 := by
        rw [raw_max]
        exact max_eq_right hnone
      obtain ⟨-, -, -, -, -, restChange, hchange, hp', -⟩ := addDeposit_spec hzero.ge (fun _ => le_rfl) h
      rw [hp', divRoundingUp_zero hzero hchange]
      exact le_rfl

/-- A transfer that takes no more than there is, and pays back no more than the
    borrow rounded up, is not rejected for the mode of the bank. -/
theorem faults_transfer {source target : TokenPosition} {sourceAmount targetAmount price : I80F48}
    {n : Nat} (hF : BankFaults F) (hb : b.Indexed) (hn : targetAmount.raw = n * 2 ^ 48)
    (hsource : b.areBorrowsReduceOnly = true → sourceAmount.raw ≤ max (source.worth b) 0)
    (htarget : b.areDepositsReduceOnly = true → b.Clears target ∧
      targetAmount.raw < max (-target.worth b) 0 + 2 ^ 48) :
    Faults F (b.checkedTransferWithFee source sourceAmount target targetAmount nowTs price) := by
  refine faults_checkedTransferWithFee hF _ _ (faults_withdrawFromSource hF _ _ _ _ ?_)
    fun r hr => faults_depositToTarget hF _ _ _ _ ?_
  · rintro hne ⟨result, b', source'⟩ h hnot
    obtain ⟨-, hterms, hamount, -, -, native, hnative, -⟩ := withdrawInternalWrapper_spec h
    have hpos : sourceAmount.raw ≠ 0 := fun hzero => hne (Fixed.ext hzero)
    have hworth := native_eq_worth hnative
    simp only [areBorrowsReduceOnly, hterms.reduceOnly, Bool.or_eq_false_iff,
      Bool.not_eq_false'] at hnot
    have hle := hsource hnot.2
    have hcovered := withdrawInternalWrapper_nonneg hb hnative
      (show sourceAmount.raw ≤ native.raw by omega) h
    exact absurd hcovered (of_decide_eq_false hnot.1)
  · obtain ⟨-, hterms⟩ := withdrawFromSource_changes (h := hr)
    rintro hne ⟨active, b', target'⟩ h hnot
    obtain ⟨hterms', -, native, hnative, -⟩ := deposit_cases h
    have hpos : targetAmount.raw ≠ 0 := fun hzero => hne (Fixed.ext hzero)
    have hworth := native_eq_worth hnative
    rw [hterms.worth_eq] at hworth
    simp only [areDepositsReduceOnly, hterms'.reduceOnly, hterms.reduceOnly, Bool.or_eq_false_iff,
      Bool.not_eq_false'] at hnot
    obtain ⟨hclears, hlt⟩ := htarget hnot.2
    obtain ⟨⟨active₁, b₁, target₁⟩, hdeposit, h⟩ := of_bind h
    obtain ⟨_, hinterest, h⟩ := of_bind h
    obtain ⟨-, -, rfl⟩ := ok_inj₃ h
    obtain ⟨_, rfl⟩ := updateCumulativeInterest_eq_ok hinterest
    have hneg : native.raw < 0 := by omega
    have hpaid := depositInternal_nonpos hnative hneg (by
      rcases hclears (hworth ▸ hneg) with ⟨k, hk⟩ | hidle
      · left
        omega
      · exact .inr ⟨by omega, by simp [hidle]⟩) hdeposit
    exact absurd hpaid (of_decide_eq_false hnot.1)

end Bank

/-! ## Amounts -/

/-- Amounts that the modes of the banks allow, for positions that are worth as much. -/
structure Suits (bBuy bSell : Bank) (liqeeBuy liqeeSell liqorBuy liqorSell : Int) (buy sell : Nat) :
    Prop where
  buy_lt : bBuy.areDepositsReduceOnly = true → (buy : Int) * 2 ^ 48 < max (-liqeeBuy) 0 + 2 ^ 48
  buy_le : bBuy.areBorrowsReduceOnly = true → (buy : Int) * 2 ^ 48 ≤ max liqorBuy 0
  sell_le : bSell.areBorrowsReduceOnly = true → (sell : Int) * 2 ^ 48 ≤ max liqeeSell 0
  sell_lt : bSell.areDepositsReduceOnly = true → (sell : Int) * 2 ^ 48 < max (-liqorSell) 0 + 2 ^ 48

theorem TokenConditionalSwap.tradeAmount_suits {swap : TokenConditionalSwap} {maxBuy maxSell : Nat}
    {price liqeeBuy liqeeSell liqorBuy liqorSell : I80F48} {bBuy bSell : Bank} {buy sell : Nat}
    (h : swap.tradeAmount price maxBuy maxSell liqeeBuy liqeeSell liqorBuy liqorSell bBuy bSell =
      .ok (buy, sell)) :
    Suits bBuy bSell liqeeBuy.raw liqeeSell.raw liqorBuy.raw liqorSell.raw buy sell := by
  obtain ⟨toBuy, hbuy, h⟩ := of_bind h
  obtain ⟨liqorMaxBuy, hliqorBuy, h⟩ := of_bind h
  obtain ⟨toSell, hsell, h⟩ := of_bind h
  obtain ⟨liqorMaxSell, hliqorSell, h⟩ := of_bind h
  obtain ⟨_, -, h⟩ := of_bind h
  obtain ⟨_, -, h⟩ := of_bind h
  obtain ⟨_, -, h⟩ := of_bind h
  obtain ⟨_, -, h⟩ := of_bind h
  obtain ⟨_, -, h⟩ := of_bind h
  obtain ⟨_, -, h⟩ := of_bind h
  obtain ⟨rfl, rfl⟩ := ok_inj₂ h
  obtain ⟨_, -, hbuy⟩ := of_bind hbuy
  obtain ⟨allowedBuy, hallowedBuy, hbuy⟩ := of_bind hbuy
  obtain rfl := ok_inj hbuy
  obtain ⟨_, -, hsell⟩ := of_bind hsell
  obtain ⟨allowedSell, hallowedSell, hsell⟩ := of_bind hsell
  obtain rfl := ok_inj hsell
  refine ⟨fun hmode => ?_, fun hmode => ?_, fun hmode => ?_, fun hmode => ?_⟩
  · rw [mayDeposit, hmode, Bool.not_true, Bool.and_false, if_neg Bool.false_ne_true] at hallowedBuy
    obtain ⟨y, hy, hallowedBuy⟩ := of_bind hallowedBuy
    obtain ⟨z, hz, hallowedBuy⟩ := of_bind hallowedBuy
    obtain rfl := ok_inj hallowedBuy
    have hlt := clampToU64_ceil_neg hy hz
    omega
  · rw [if_pos hmode] at hliqorBuy
    obtain ⟨y, hy, hliqorBuy⟩ := of_bind hliqorBuy
    obtain rfl := ok_inj hliqorBuy
    have hle := clampToU64_floor hy
    omega
  · rw [mayBorrow, hmode, Bool.not_true, Bool.and_false, if_neg Bool.false_ne_true] at hallowedSell
    obtain ⟨y, hy, hallowedSell⟩ := of_bind hallowedSell
    obtain rfl := ok_inj hallowedSell
    have hle := clampToU64_floor hy
    omega
  · rw [if_pos hmode] at hliqorSell
    obtain ⟨y, hy, hliqorSell⟩ := of_bind hliqorSell
    obtain ⟨z, hz, hliqorSell⟩ := of_bind hliqorSell
    obtain rfl := ok_inj hliqorSell
    have hlt := clampToU64_ceil_neg hy hz
    omega

namespace Group

variable {x : Trigger} {swap : TokenConditionalSwap} {liqor liqee : MangoAccount} {bBuy bSell : Bank}
  {buy sell fromLiqee toLiqor : Nat}

theorem Trigger.sellAmounts_le (h : x.sellAmounts swap buy sell = .ok (fromLiqee, toLiqor)) :
    fromLiqee = sell ∧ toLiqor ≤ sell := by
  obtain ⟨_, -, h⟩ := of_bind h
  obtain ⟨_, -, h⟩ := of_bind h
  obtain ⟨_, -, h⟩ := of_bind h
  obtain ⟨whole, -, h⟩ := of_bind h
  obtain ⟨_, hmaker, h⟩ := of_bind h
  obtain ⟨_, -, h⟩ := of_bind h
  obtain ⟨_, htaker, h⟩ := of_bind h
  obtain ⟨_, -, h⟩ := of_bind h
  obtain ⟨rfl, rfl⟩ := ok_inj₂ h
  unfold subAmount at hmaker htaker
  split at hmaker <;> cases hmaker
  split at htaker <;> cases htaker
  omega

/-- A swap of token 1 for token 2. -/
def oneForTwo : TokenConditionalSwap :=
  { TokenConditionalSwap.default with
    buyTokenIndex := 2, sellTokenIndex := 1, maxBuy := 9, maxSell := 9, isConfigured := true }

def atPar : Trigger := { buyForty with premiumPrice := I80F48.ONE, makerPrice := I80F48.ONE }

/-- Only borrows of token 2 can be paid back, and deposits withdrawn. -/
def reducing : Bank := { Bank.plain 2 with reduceOnly := 1 }

/-- An account with five of token 1, which has borrowed token 2; the swap uses both. -/
def borrower (position : I80F48) : MangoAccount :=
  { MangoAccount.plain 0 with tokens := [⟨position, 2, 1, .zero⟩, ⟨.ofSmall 5, 1, 1, .zero⟩] }

def lender : MangoAccount :=
  { MangoAccount.plain 0 with tokens := [⟨.ofSmall 5, 2, 0, .zero⟩, ⟨.zero, 1, 0, .zero⟩] }

end Group

end MangoV4
