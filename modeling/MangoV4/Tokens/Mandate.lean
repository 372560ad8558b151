/-
  MangoV4.Tokens.Mandate

  A conditional swap never exceeds its mandate.

  What is traded is what the swap allows (`tradeAmount_yields`), so that the
  amounts it has bought and sold stay within their maxima, and neither the
  assertions about them nor a subtraction of amounts fails.  What a trade does
  to the two positions of the swap's owner follows from the rounding of
  deposits and withdrawals.  Both together are what a trigger does to a group
  (`triggerSwap_yields`), and runs keep it.
-/

import MangoV4.Tokens.InUse
import MangoV4.Tokens.Indices
import MangoV4.Tokens.Rounding
import MangoV4.Tokens.TradeAmount

namespace MangoV4

open Lib Lib.Exec MangoAccount List Function Fixed Bank TokenPosition TokenGroup Yields I80F48

/-! ## The worth of a position -/

/-- Native tokens in units of `2 ^ -48`, rounded down. -/
def TokenPosition.worth (p : TokenPosition) (b : Bank) : Int :=
  p.indexedPosition.raw *
    (if 0 < p.indexedPosition.raw then b.depositIndex.raw else b.borrowIndex.raw) / 2 ^ 48

/-- The worth of the position of a token; an account without one has none. -/
def MangoAccount.worthIn (a : MangoAccount) (t : TokenIndex) (b : Bank) : Int :=
  (a.tokenPosition t).elim 0 fun p => p.worth b

namespace Bank

variable {b b' : Bank} {p p' : TokenPosition} {amount : I80F48} {nowTs : Nat} {active : Bool}

theorem native_eq_worth {n : I80F48} (h : p.native b = .ok n) : n.raw = p.worth b :=
  native_eq_ok h

theorem worth_nonneg (hb : b.Indexed) (hp : 0 ≤ p.indexedPosition.raw) : 0 ≤ p.worth b := by
  have hdeposit : 0 < b.depositIndex.raw := hb.1
  have hborrow : 0 < b.borrowIndex.raw := hb.2
  unfold worth
  split <;> positivity

theorem worth_of_zero (hp : p.indexedPosition.raw = 0) (b : Bank) : p.worth b = 0 := by
  rw [worth, hp, zero_mul, Int.zero_ediv]

theorem worth_nonpos (hb : b.Indexed) (hp : p.indexedPosition.raw ≤ 0) : p.worth b ≤ 0 := by
  have hborrow : 0 < b.borrowIndex.raw := hb.2
  rw [worth, if_neg (not_lt.mpr hp)]
  have hproduct : p.indexedPosition.raw * b.borrowIndex.raw ≤ 0 :=
    mul_nonpos_of_nonpos_of_nonneg hp hborrow.le
  omega

theorem SameTerms.worth_eq (h : SameTerms b b') (p : TokenPosition) : p.worth b' = p.worth b := by
  unfold worth
  rw [h.depositIndex, h.borrowIndex]

/-- The most that rounding leaves of a deposit that was to pay back a borrow:
    a native token and `max(deposit_index, borrow_index) + 1` steps, in units
    of `2 ^ -96` native tokens. -/
def remnant (b : Bank) : Int := 2 ^ 96 + 2 ^ 48 + max b.depositIndex.raw b.borrowIndex.raw

theorem SameTerms.remnant_eq (h : SameTerms b b') : b'.remnant = b.remnant := by
  unfold remnant
  rw [h.depositIndex, h.borrowIndex]

/-! ## Transfers -/

/-- Taking no more than there is makes no borrow and enlarges none. -/
theorem withdrawFromSource_worth {result : WithdrawResult} (hb : b.Indexed)
    (hle : amount.raw ≤ max (p.worth b) 0)
    (h : b.withdrawFromSource p amount nowTs = .ok (result, b', p')) :
    SameTerms b b' ∧ min 0 (p.worth b) ≤ p'.worth b := by
  unfold withdrawFromSource at h
  split at h
  · obtain ⟨rfl, rfl, rfl⟩ := ok_inj₃ h
    exact ⟨.refl b, min_le_right _ _⟩
  · rename_i hne
    obtain ⟨⟨result₁, b₁, p₁⟩, hwithdraw, h⟩ := of_bind h
    obtain ⟨_, -, h⟩ := of_bind h
    obtain ⟨rfl, rfl, rfl⟩ := ok_inj₃ h
    obtain ⟨-, hterms, hamount, -, -, native, hnative, -, -, hcases⟩ :=
      withdrawInternalWrapper_spec hwithdraw
    -- the amount is positive, so that the position is worth as much
    have hpos : amount.raw ≠ 0 := fun hzero => hne (Fixed.ext hzero)
    have hworth := native_eq_worth hnative
    have hcovered := hcases.indexed_nonneg hb hamount hnative (by omega)
    exact ⟨hterms, (min_le_left _ _).trans (worth_nonneg hb hcovered)⟩

/-- Paying back a borrow, rounded up to whole tokens, leaves at most the
    remnant, unless nothing was paid at all. -/
theorem depositToTarget_worth {n : Nat} (hb : b.Indexed) (hamount : amount.raw = n * 2 ^ 48)
    (hlt : amount.raw < max (-p.worth b) 0 + 2 ^ 48)
    (h : b.depositToTarget p amount nowTs = .ok (active, b', p')) :
    p'.worth b = p.worth b ∨ p'.worth b * 2 ^ 48 < b.remnant := by
  unfold depositToTarget at h
  split at h
  · obtain ⟨rfl, rfl, rfl⟩ := ok_inj₃ h
    exact .inl rfl
  · rename_i hne
    right
    obtain ⟨⟨active₁, b₁, p₁⟩, hdeposit, h⟩ := of_bind h
    obtain ⟨_, -, h⟩ := of_bind h
    obtain ⟨rfl, rfl, rfl⟩ := ok_inj₃ h
    obtain ⟨-, -, native, hnative, hcases⟩ := deposit_cases hdeposit
    have hpos : amount.raw ≠ 0 := fun hzero => hne (Fixed.ext hzero)
    have hworth := native_eq_worth hnative
    -- at least one token is paid, so that there was a borrow
    have hdepositIndex : 0 < b.depositIndex.raw := hb.1
    unfold remnant
    cases hcases with
    | repaid _ _ _ hstill =>
      have hnonpos := worth_nonpos hb hstill.le
      omega
    | dusted _ _ _ _ _ hp' =>
      rw [worth_of_zero hp' b]
      omega
    | @crossed change rest restChange _ _ _ hrest hrestChange hp' =>
      have hrest' : 0 ≤ rest.raw ∧ rest.raw < 2 ^ 48 := by omega
      have hnonneg := divRoundingUp_nonneg hrest'.1 hdepositIndex hrestChange
      obtain ⟨-, hle⟩ := divRoundingUp_bounds hrest'.1 hdepositIndex hrestChange
      have hvalue : p₁.worth b ≤ restChange.raw * b.depositIndex.raw / 2 ^ 48 := by
        unfold worth
        rw [hp']
        split
        · exact le_rfl
        · rename_i hzero
          have hzero : restChange.raw = 0 := by omega
          rw [hzero, zero_mul, zero_mul]
      generalize restChange.raw * b.depositIndex.raw = product at hle hvalue
      omega
    | added hnonneg _ _ => omega

end Bank

/-! ## What a trade does to the owner of the swap -/

/-- The swap is within its mandate, and its taker fee at most what is sold. -/
structure TokenConditionalSwap.Within (swap : TokenConditionalSwap) : Prop where
  bought_le : swap.bought ≤ swap.maxBuy
  sold_le : swap.sold ≤ swap.maxSell
  fee_le : swap.takerFeeRate ≤ I80F48.ONE

namespace Group

variable {s : Group} {a a' a'' liqor liqor' liqee liqee' : MangoAccount}
  {swap : TokenConditionalSwap} {bBuy bBuy' bSell bSell' : Bank} {q : Panic}

/-- From `a` to `a'`, no borrow of the token that is sold is made or enlarged,
    if the swap may not; and if it may not leave a deposit of the token that is
    bought, no more than the remnant of one is. -/
structure Respects (swap : TokenConditionalSwap) (buyBank sellBank : Bank) (a a' : MangoAccount) :
    Prop where
  borrow : swap.mayBorrow sellBank = false →
    min 0 (a.worthIn swap.sellTokenIndex sellBank) ≤ a'.worthIn swap.sellTokenIndex sellBank
  deposit : swap.mayDeposit buyBank = false →
    buyBank.remnant ≤ a'.worthIn swap.buyTokenIndex buyBank * 2 ^ 48 →
    buyBank.remnant ≤ a.worthIn swap.buyTokenIndex buyBank * 2 ^ 48

/-- Positions that are kept or closed do not matter. -/
theorem Respects.keeps (h : Respects swap bBuy bSell a a') (hb : bBuy.Indexed)
    (hkeeps : ∀ t ∈ [swap.buyTokenIndex, swap.sellTokenIndex], ∀ b,
      a''.worthIn t b = a'.worthIn t b ∨ a''.worthIn t b = 0) :
    Respects swap bBuy bSell a a'' := by
  constructor
  · intro hnot
    have hborrow := h.borrow hnot
    rcases hkeeps swap.sellTokenIndex (by simp) bSell with hsame | hzero
    · rw [hsame]
      exact hborrow
    · rw [hzero]
      exact min_le_left _ _
  · intro hnot hle
    rcases hkeeps swap.buyTokenIndex (by simp) bBuy with hsame | hzero
    · exact h.deposit hnot (hsame ▸ hle)
    · -- the remnant is positive
      have hindex : 0 < bBuy.depositIndex.raw := hb.1
      unfold remnant at hle
      omega

theorem Respects.refl (swap : TokenConditionalSwap) (bBuy bSell : Bank) (a : MangoAccount) :
    Respects swap bBuy bSell a a :=
  ⟨fun _ => min_le_right _ _, fun _ h => h⟩

variable {t : TokenIndex} {i buy sell : Nat} {s' : Group}

theorem worthIn_of_position {p : TokenPosition} (h : a.tokenPosition t = some p)
    (b : Bank) : a.worthIn t b = p.worth b := by
  rw [worthIn, h]
  rfl

/-- The two transfers, seen from the liqee. -/
theorem trade_liqee (x : SwapTrigger) (hne : swap.buyTokenIndex ≠ swap.sellTokenIndex)
    (h : x.trade swap liqor liqee bBuy bSell = .ok (bBuy', bSell', liqor', liqee')) :
    SameTerms bBuy bBuy' ∧ SameTerms bSell bSell' ∧
    ∃ pBuy pBuy' pSell pSell', liqee.tokenPosition swap.buyTokenIndex = some pBuy ∧
      liqee.tokenPosition swap.sellTokenIndex = some pSell ∧
      liqee'.tokenPosition swap.buyTokenIndex = some pBuy' ∧
      liqee'.tokenPosition swap.sellTokenIndex = some pSell' ∧
      (∃ (amount : I80F48) (b₁ b₂ : Bank) (active : Bool), amount.raw = x.buyTokenAmount * 2 ^ 48 ∧
        SameTerms bBuy b₁ ∧
        b₁.depositToTarget pBuy amount x.nowTs = .ok (active, b₂, pBuy')) ∧
      ∃ (amount : I80F48) (b₁ : Bank) (result : WithdrawResult),
        amount.raw = x.sellTokenAmountFromLiqee * 2 ^ 48 ∧
        bSell.withdrawFromSource pSell amount x.nowTs = .ok (result, b₁, pSell') := by
  obtain ⟨⟨_, liqor₁⟩, -, h⟩ := of_bind h
  obtain ⟨⟨_, liqor₂⟩, -, h⟩ := of_bind h
  obtain ⟨buyAmount, hbuyAmount, h⟩ := of_bind h
  obtain ⟨pBuy, hpBuy, h⟩ := of_bind h
  obtain ⟨liqorBuy, -, h⟩ := of_bind h
  obtain ⟨⟨buyTransfer, bBuy₁, liqorBuy', pBuy'⟩, hbuy, h⟩ := of_bind h
  obtain ⟨pSell, hpSell, h⟩ := of_bind h
  obtain ⟨liqorSell, -, h⟩ := of_bind h
  obtain ⟨fromLiqee, hfrom, h⟩ := of_bind h
  obtain ⟨toLiqor, -, h⟩ := of_bind h
  obtain ⟨⟨sellTransfer, bSell₁, pSell', liqorSell'⟩, hsell, h⟩ := of_bind h
  obtain ⟨fees, -, h⟩ := of_bind h
  obtain ⟨collected, -, h⟩ := of_bind h
  obtain ⟨liqor₃, -, h⟩ := of_bind h
  obtain ⟨liqor₄, -, h⟩ := of_bind h
  obtain ⟨rfl, rfl, rfl, rfl⟩ := ok_inj₄ h
  obtain ⟨_, b₁, active, hwithdrawn, hdeposited, -, -⟩ := checkedTransferWithFee_parts hbuy
  obtain ⟨result, b₂, active', hwithdrawn', hdeposited', -, -⟩ :=
    checkedTransferWithFee_parts hsell
  have hterms := (withdrawFromSource_changes hwithdrawn).2
  have hterms' := (withdrawFromSource_changes hwithdrawn').2.trans
    (depositToTarget_changes hdeposited').2
  -- the position of the other token is where it was
  have hpBuy := tokenPositionMut_eq_ok.mp hpBuy
  have hpSell := tokenPositionMut_eq_ok.mp hpSell
  have hindex : pBuy'.tokenIndex = swap.buyTokenIndex :=
    (depositToTarget_changes hdeposited).1.posts.tokenIndex.trans
      (tokenPosition_tokenIndex hpBuy)
  have hindex' : pSell'.tokenIndex = swap.sellTokenIndex :=
    (withdrawFromSource_changes hwithdrawn').1.posts.tokenIndex.trans
      (tokenPosition_tokenIndex hpSell)
  have hfound : (liqee.setTokenPosition pBuy').tokenPosition swap.buyTokenIndex = some pBuy' :=
    tokenPosition_setTokenPosition hpBuy hindex
  refine ⟨hterms.trans (depositToTarget_changes hdeposited).2,
    ⟨hterms'.tokenIndex, hterms'.depositIndex, hterms'.borrowIndex, hterms'.potentialSerumTokens,
      hterms'.reduceOnly⟩, pBuy, pBuy', pSell, pSell', hpBuy, ?_, ?_, ?_,
    ⟨buyAmount, b₁, _, active, ofInt_eq_ok.mp hbuyAmount, hterms, hdeposited⟩,
    ⟨fromLiqee, b₂, result, ofInt_eq_ok.mp hfrom, hwithdrawn'⟩⟩
  · rw [← tokenPosition_setTokenPosition_of_ne hpBuy hindex hne.symm]
    exact hpSell
  · rw [tokenPosition_setTokenPosition_of_ne hpSell hindex' hne]
    exact hfound
  · exact tokenPosition_setTokenPosition hpSell hindex'

/-- Allowed amounts respect the swap. -/
theorem trade_respects (x : SwapTrigger) {price nBuy nSell : I80F48}
    (hne : swap.buyTokenIndex ≠ swap.sellTokenIndex) (hbuy : bBuy.Indexed) (hsell : bSell.Indexed)
    (hworthBuy : liqee.worthIn swap.buyTokenIndex bBuy = nBuy.raw)
    (hworthSell : liqee.worthIn swap.sellTokenIndex bSell = nSell.raw)
    (hallows : swap.Allows price nBuy nSell bBuy bSell x.buyTokenAmount x.sellTokenAmountFromLiqee)
    (h : x.trade swap liqor liqee bBuy bSell = .ok (bBuy', bSell', liqor', liqee')) :
    Respects swap bBuy bSell liqee liqee' := by
  obtain ⟨-, -, pBuy, pBuy', pSell, pSell', hpBuy, hpSell, hpBuy', hpSell',
    ⟨bought, b₁, b₂, active, hbought, hterms, hdeposit⟩, ⟨sold, b₃, result, hsold, hwithdraw⟩⟩ :=
    trade_liqee x hne h
  rw [worthIn_of_position hpBuy] at hworthBuy
  rw [worthIn_of_position hpSell] at hworthSell
  constructor
  · intro hnot
    have hle := hallows.sell_le hnot
    rw [← hsold, ← hworthSell] at hle
    rw [worthIn_of_position hpSell, worthIn_of_position hpSell']
    exact (withdrawFromSource_worth hsell hle hwithdraw).2
  · intro hnot hremnant
    have hlt := hallows.buy_lt hnot
    rw [← hbought, ← hworthBuy, ← hterms.worth_eq] at hlt
    rw [worthIn_of_position hpBuy'] at hremnant
    rw [worthIn_of_position hpBuy]
    have hpaid := depositToTarget_worth (hterms.indexed_iff.mpr hbuy) hbought hlt hdeposit
    rw [hterms.worth_eq, hterms.worth_eq, hterms.remnant_eq] at hpaid
    rcases hpaid with hsame | hless
    · rw [← hsame]
      exact hremnant
    · omega

/-! ## Removing a swap -/

/-- Positions keep their worth or are closed. -/
theorem tokenDecrementDustDeactivate_keeps {u : TokenIndex → Nat} {t' : TokenIndex}
    {bank bank' : Bank} {nowTs : Nat} (ht' : t' ≠ FREE_TOKEN_INDEX) (ha : a.Serves u)
    (h : a.tokenDecrementDustDeactivate bank t nowTs = .ok (bank', a')) :
    SameTerms bank bank' ∧ ∀ b, a'.worthIn t' b = a.worthIn t' b ∨ a'.worthIn t' b = 0 := by
  unfold tokenDecrementDustDeactivate at h
  split at h
  · obtain ⟨rfl, rfl⟩ := ok_inj₂ h
    exact ⟨.refl bank, fun b => .inl rfl⟩
  · rename_i p hp
    obtain ⟨⟨active, b₁, p'⟩, hdust, h⟩ := of_bind h
    obtain ⟨a₁, hdeactivate, h⟩ := of_bind h
    obtain ⟨rfl, rfl⟩ := ok_inj₂ h
    obtain ⟨hchanges, hterms, hkept⟩ := dustIfPossible_changes hdust
    refine ⟨hterms, fun b => ?_⟩
    have hp : a.tokenPosition t = some p := hp
    have hsame : p'.tokenIndex = p.tokenIndex := hchanges.posts.tokenIndex
    have hindex : p'.tokenIndex = t := hsame.trans (tokenPosition_tokenIndex hp)
    -- the position is written back, and then perhaps deactivated
    have hset : (a.setTokenPosition p').worthIn t' b = a.worthIn t' b ∨
        (a.setTokenPosition p').worthIn t' b = 0 := by
      by_cases hcase : t' = t
      · subst hcase
        rw [worthIn_of_position (tokenPosition_setTokenPosition hp hindex), worthIn_of_position hp]
        rcases hkept with hsame | hzero
        · left
          have hsame : p'.indexedPosition.raw = p.indexedPosition.raw := hsame
          unfold worth
          rw [hsame]
        · exact .inr (worth_of_zero hzero b)
      · left
        rw [worthIn, worthIn, tokenPosition_setTokenPosition_of_ne hp hindex hcase]
    unfold deactivateIfInactive at hdeactivate
    split at hdeactivate
    · obtain rfl := ok_inj hdeactivate
      exact hset
    · have hserves : (a.setTokenPosition p').Serves
          fun t' => if t' = t then p'.inUseCount else u t' :=
        ha.set hp hindex fun _ _ => rfl
      have hsingle := hserves.single t' ht'
      have hlookup := tokenPosition_deactivateTokenPosition ht' hsingle hdeactivate
      by_cases hcase : t' = t
      · rw [if_pos hcase] at hlookup
        right
        rw [worthIn, hlookup]
        rfl
      · rw [if_neg hcase] at hlookup
        rw [worthIn, hlookup]
        exact hset

theorem removeSwap_keeps (ha : s.Counted a) {nowTs : Nat}
    (hx : a.tokenConditionalSwaps[i]? = some swap) (hconfigured : swap.isConfigured = true)
    (hbuy : swap.buyTokenIndex ≠ FREE_TOKEN_INDEX) (hsell : swap.sellTokenIndex ≠ FREE_TOKEN_INDEX)
    (h : removeSwap a i swap bBuy bSell nowTs = .ok (bBuy', bSell', a')) :
    SameTerms bBuy bBuy' ∧ SameTerms bSell bSell' ∧
      a'.tokenConditionalSwaps = a.tokenConditionalSwaps.set i .default ∧
      ∀ t, t ≠ FREE_TOKEN_INDEX → ∀ b, a'.worthIn t b = a.worthIn t b ∨ a'.worthIn t b = 0 := by
  obtain ⟨⟨b₁, a₁⟩, hfirst, h⟩ := of_bind h
  obtain ⟨⟨b₂, a₂⟩, hsecond, h⟩ := of_bind h
  obtain ⟨rfl, rfl, rfl⟩ := ok_inj₃ h
  have hserves := ha.serves_without_swap hx hconfigured
  obtain ⟨hserves₁, hentries₁⟩ := (tokenDecrementDustDeactivate_yields (q := .assertion)
    rfl hbuy hserves).2 _ hfirst
  obtain ⟨-, hentries₂⟩ := (tokenDecrementDustDeactivate_yields (q := .assertion)
    rfl hsell hserves₁).2 _ hsecond
  refine ⟨(tokenDecrementDustDeactivate_keeps hbuy hserves hfirst).1,
    (tokenDecrementDustDeactivate_keeps hsell hserves₁ hsecond).1,
    hentries₂.tokenConditionalSwaps.trans hentries₁.tokenConditionalSwaps, fun t ht b => ?_⟩
  have hkept := (tokenDecrementDustDeactivate_keeps ht hserves hfirst).2 b
  have hkept' := (tokenDecrementDustDeactivate_keeps ht hserves₁ hsecond).2 b
  rcases hkept' with hsame | hzero
  · rw [hsame]
    exact hkept
  · exact .inr hzero

/-! ## The amounts of a trigger -/

/-- The price with the maker fee is at least the one without. -/
structure Trigger.Fair (x : Trigger) : Prop where
  nonneg : .zero ≤ x.premiumPrice
  le : x.premiumPrice ≤ x.makerPrice

theorem Trigger.Fair.makerPrice_nonneg {x : Trigger} (h : x.Fair) : .zero ≤ x.makerPrice := by
  have hnonneg : 0 ≤ x.premiumPrice.raw := h.nonneg
  have hle : x.premiumPrice.raw ≤ x.makerPrice.raw := h.le
  exact le_iff.mpr (hnonneg.trans hle)

/-- The taker fee is no more than what it is a part of. -/
theorem takerFee_le {amount : I80F48} {n fee : Nat} (hfee : swap.takerFeeRate ≤ ONE)
    (hamount : amount.raw = n * 2 ^ 48) (h : swap.takerFee amount = .ok fee) : fee ≤ n := by
  obtain ⟨product, hproduct, h⟩ := of_bind h
  obtain ⟨whole, hwhole, h⟩ := of_bind h
  rw [mul_eq_ok, hamount, mul_right_comm, Int.mul_ediv_cancel _ (by norm_num)] at hproduct
  rw [floor_eq_ok, hproduct] at hwhole
  have hvalue := toU64_eq_ok h
  rw [hwhole] at hvalue
  have hrate : swap.takerFeeRate.raw ≤ 2 ^ 48 := hfee
  have hle : (n : Int) * swap.takerFeeRate.raw ≤ n * 2 ^ 48 :=
    mul_le_mul_of_nonneg_left hrate (Int.natCast_nonneg n)
  generalize (n : Int) * swap.takerFeeRate.raw = product at hle hvalue
  omega

/-- Neither fee is larger than what it is taken from. -/
theorem sellAmounts_yields {x : Trigger} (hq : q.arithmetic = false) (hx : x.Fair)
    (hswap : swap.Within) (hsell : (sell : Int) = buy * x.makerPrice.raw / 2 ^ 48) :
    Yields q (x.sellAmounts swap buy sell) fun r => r.1 = sell ∧ r.2 ≤ sell := by
  refine bind_of (by simp [hq]) fun whole hwhole => ?_
  refine bind_of (by simp [hq]) fun worth hworth => ?_
  refine bind_of (by simp [hq]) fun floor hfloor => ?_
  refine bind_of (by simp [hq]) fun n hn => ?_
  rw [ofInt_eq_ok] at hwhole
  rw [mul_eq_ok, hwhole, mul_right_comm, Int.mul_ediv_cancel _ (by norm_num)] at hworth
  rw [floor_eq_ok, hworth] at hfloor
  have hvalue : (n : Int) = buy * x.premiumPrice.raw / 2 ^ 48 := by
    rw [toU64_eq_ok hn, hfloor]
    exact Int.mul_ediv_cancel _ (by norm_num)
  -- the amount at the premium price is at most the one at the maker price
  have hn_le : n ≤ sell := by
    have hprices : x.premiumPrice.raw ≤ x.makerPrice.raw := hx.le
    have hle : (buy : Int) * x.premiumPrice.raw ≤ buy * x.makerPrice.raw :=
      mul_le_mul_of_nonneg_left hprices (Int.natCast_nonneg buy)
    omega
  rw [← hvalue] at hfloor
  refine (subAmount_yields hn_le).bind fun makerFee _ => ?_
  refine bind_of (by simp [TokenConditionalSwap.takerFee, hq]) fun takerFee htaker => ?_
  have hfee := takerFee_le hswap.fee_le hfloor htaker
  refine (subAmount_yields hfee).bind fun toLiqor htoLiqor => ?_
  refine bind_of (by simp [hq]) fun _ _ => pure ⟨rfl, ?_⟩
  show toLiqor ≤ sell
  omega

/-- The amounts are allowed with the balances of the liqee. -/
theorem amounts_yields {x : Trigger} {u : TokenIndex → Nat} (hq : q.arithmetic = false)
    (hx : x.Fair) (hswap : swap.Within) (hliqor : liqor.Serves u) :
    Yields q (x.amounts swap liqor liqee bBuy bSell) fun r => ∃ nBuy nSell : I80F48,
      liqee.worthIn swap.buyTokenIndex bBuy = nBuy.raw ∧
      liqee.worthIn swap.sellTokenIndex bSell = nSell.raw ∧
      swap.Allows x.makerPrice nBuy nSell bBuy bSell r.1 r.2.1 := by
  refine (tokenPositionMut_yields liqee _).bind fun pBuy hpBuy => ?_
  refine bind_of (by simp [hq]) fun nBuy hnBuy => ?_
  refine (tokenPositionMut_yields liqee _).bind fun pSell hpSell => ?_
  refine bind_of (by simp [hq]) fun nSell hnSell => ?_
  refine (ensureTokenPosition_yields hliqor).bind fun r₁ h₁ => ?_
  refine (ensureTokenPosition_yields h₁.1).bind fun r₂ h₂ => ?_
  refine bind_of (by simp [hq]) fun liqorBuy _ => ?_
  refine bind_of (by simp [hq]) fun liqorSell _ => ?_
  refine (tradeAmount_yields hq hx.makerPrice_nonneg hswap.bought_le hswap.sold_le _ _ _ _).bind ?_
  rintro ⟨buy, sell⟩ hallows
  refine (sellAmounts_yields hq hx hswap hallows.sell_eq).bind ?_
  rintro ⟨fromLiqee, toLiqor⟩ ⟨rfl, -⟩
  refine pure ⟨nBuy, nSell, ?_, ?_, hallows⟩
  · rw [worthIn_of_position hpBuy, native_eq_worth hnBuy]
  · rw [worthIn_of_position hpSell, native_eq_worth hnSell]

/-- Recording what is allowed keeps the mandate. -/
theorem record_yields {nowTs : Nat} (hq : q.arithmetic = false) (hswap : swap.Within)
    (hbuy : swap.bought + buy ≤ swap.maxBuy) (hsell : swap.sold + sell ≤ swap.maxSell) :
    Yields q (swap.record buy sell nowTs) fun swap' => swap'.Within ∧
      swap'.isConfigured = swap.isConfigured ∧ swap'.buyTokenIndex = swap.buyTokenIndex ∧
      swap'.sellTokenIndex = swap.sellTokenIndex := by
  refine bind_of (by simp [hq]) fun bought hbought => ?_
  refine bind_of (by simp [hq]) fun sold hsold => ?_
  obtain ⟨-, rfl⟩ := checkU64_eq_ok.mp hbought
  obtain ⟨-, rfl⟩ := checkU64_eq_ok.mp hsold
  rw [decide_eq_true hbuy, decide_eq_true hsell]
  exact pure ⟨⟨hbuy, hsell, hswap.fee_le⟩, rfl, rfl, rfl⟩

theorem faults_isDone {x : Trigger} (hq : q.arithmetic = false) (hx : x.Fair)
    (hswap : swap.Within) : Faults (· ≠ .panic q) (x.isDone swap liqee bBuy bSell) := by
  refine .bind (faults_tokenPositionMut _ _ (by simp)) fun _ => .bind (by simp [hq]) fun _ => ?_
  refine .bind (faults_tokenPositionMut _ _ (by simp)) fun _ => .bind (by simp [hq]) fun _ => ?_
  refine .bind (tradeAmount_yields hq hx.makerPrice_nonneg hswap.bought_le hswap.sold_le _ _ _ _).faults
    fun _ => ?_
  exact .bind (by simp [hq]) fun _ => .pure _

theorem faults_checkTriggerable (swap : TokenConditionalSwap) (inRange : Bool) (nowTs : Nat) :
    Faults (· ≠ .panic q) (swap.checkTriggerable inRange nowTs) := by
  refine .bind (by simp) fun _ => ?_
  cases swap.tcsType <;> simp

/-- What can be triggered has a price. -/
theorem faults_assertPremiumPrice {F : Fault MangoError → Prop} {inRange : Bool} {nowTs : Nat}
    (h : swap.checkTriggerable inRange nowTs = .ok ()) :
    Faults F (swap.assertPremiumPrice nowTs) := by
  obtain ⟨_, -, h⟩ := of_bind h
  unfold TokenConditionalSwap.assertPremiumPrice
  cases htype : swap.tcsType with
  | fixedPremium => exact .ok _
  | premiumAuction =>
    rw [htype] at h
    obtain ⟨hstarted, hpassed⟩ := of_require h
    have hle : swap.startTimestampOrNow nowTs ≤ nowTs := by
      rw [TokenConditionalSwap.startTimestampOrNow, if_pos hstarted]
      exact hpassed
    simp only [decide_eq_true hle]
    exact .ok _
  | linearAuction =>
    rw [htype] at h
    simp only [require_eq_ok.mp h]
    exact .ok _

/-! ## A trigger -/

/-- A swap that is replaced by one with the same tokens. -/
theorem Counted.setSwap (ha : s.Counted a) {recorded : TokenConditionalSwap}
    (hx : a.tokenConditionalSwaps[i]? = some swap)
    (hconfigured : recorded.isConfigured = swap.isConfigured)
    (hbuy : recorded.buyTokenIndex = swap.buyTokenIndex)
    (hsell : recorded.sellTokenIndex = swap.sellTokenIndex) :
    s.Counted (a.setTokenConditionalSwap i recorded) := by
  refine ⟨(ha.serves.congr fun t _ => ?_).of_tokens rfl, ha.orders⟩
  have huses := uses_setSwap (s := s) (a := a) (b := a.setTokenConditionalSwap i recorded) hx rfl rfl
    rfl t
  rw [hconfigured, hbuy, hsell] at huses
  exact Nat.add_right_cancel huses

/-- The swaps that are configured are within their mandates. -/
def AllWithin (swaps : List TokenConditionalSwap) : Prop :=
  ∀ x ∈ swaps, x.isConfigured = true → x.Within

theorem AllWithin.set {swaps : List TokenConditionalSwap} (h : AllWithin swaps) (i : Nat)
    (hswap : swap.isConfigured = true → swap.Within) : AllWithin (swaps.set i swap) := by
  intro x hx
  rcases mem_or_eq_of_mem_set hx with hold | rfl
  · exact h x hold
  · exact hswap

/-- What every instruction keeps of an account. -/
structure Kept (s : Group) (a : MangoAccount) : Prop where
  counted : s.Counted a
  within : AllWithin a.tokenConditionalSwaps

theorem removeSwap_kept (hq : q.arithmetic = false) (ha : s.Kept a)
    (hx : a.tokenConditionalSwaps[i]? = some swap) (hconfigured : swap.isConfigured = true)
    (hbuy : swap.buyTokenIndex ≠ FREE_TOKEN_INDEX) (hsell : swap.sellTokenIndex ≠ FREE_TOKEN_INDEX)
    (bBuy bSell : Bank) (nowTs : Nat) :
    Yields q (removeSwap a i swap bBuy bSell nowTs) fun r =>
      SameTerms bBuy r.1 ∧ SameTerms bSell r.2.1 ∧ s.Kept r.2.2 ∧
        ∀ t, t ≠ FREE_TOKEN_INDEX → ∀ b, r.2.2.worthIn t b = a.worthIn t b ∨ r.2.2.worthIn t b = 0 := by
  have hyields := removeSwap_yields hq ha.counted hx hconfigured hbuy hsell bBuy bSell nowTs
  refine ⟨hyields.1, ?_⟩
  rintro ⟨bBuy', bSell', a'⟩ hex
  obtain ⟨htermsBuy, htermsSell, hswaps, hworth⟩ :=
    removeSwap_keeps ha.counted hx hconfigured hbuy hsell hex
  refine ⟨htermsBuy, htermsSell, ⟨hyields.2 _ hex, ?_⟩, hworth⟩
  rw [hswaps]
  exact ha.within.set i fun hconfigured => by cases hconfigured

theorem ne_free_of_mem {t₁ t₂ : TokenIndex} (h₁ : t₁ ≠ FREE_TOKEN_INDEX)
    (h₂ : t₂ ≠ FREE_TOKEN_INDEX) (ht : t ∈ [t₁, t₂]) : t ≠ FREE_TOKEN_INDEX := by
  simp only [mem_cons, not_mem_nil, or_false] at ht
  rcases ht with rfl | rfl
  · exact h₁
  · exact h₂

theorem action_yields {x : Trigger} (hq : q.arithmetic = false) (hx : x.Fair)
    (hliqor : s.Kept liqor) (hliqee : s.Kept liqee)
    (hswap : liqee.tokenConditionalSwaps[x.index]? = some swap)
    (hconfigured : swap.isConfigured = true) (hbuy : swap.buyTokenIndex ≠ FREE_TOKEN_INDEX)
    (hsell : swap.sellTokenIndex ≠ FREE_TOKEN_INDEX)
    (hne : swap.buyTokenIndex ≠ swap.sellTokenIndex) (hbBuy : bBuy.Indexed)
    (hbSell : bSell.Indexed) :
    Yields q (x.action swap liqor liqee bBuy bSell) fun r =>
      SameTerms bBuy r.2.1 ∧ SameTerms bSell r.2.2.1 ∧ s.Kept r.2.2.2.1 ∧
        s.Kept r.2.2.2.2 ∧ Respects swap bBuy bSell liqee r.2.2.2.2 := by
  have hwithin := hliqee.within swap (mem_of_getElem? hswap) hconfigured
  refine bind_of (faults_checkTriggerable _ _ _) fun _ htriggerable => ?_
  refine Yields.bind_of (faults_assertPremiumPrice htriggerable) fun _ _ => ?_
  refine (Yields.require _ _).bind fun _ _ => ?_
  refine (amounts_yields hq hx hwithin hliqor.counted.serves).bind ?_
  rintro ⟨buy, fromLiqee, toLiqor⟩ ⟨nBuy, nSell, hworthBuy, hworthSell, hallows⟩
  have htrade := trade_yields (x.traded buy fromLiqee toLiqor false) hq hbuy hsell hliqor.counted
    hliqee.counted bBuy bSell
  refine bind_of htrade.faults ?_
  rintro ⟨bBuy', bSell', liqor', liqee'⟩ hex
  obtain ⟨hcountedLiqor, hcountedLiqee, hentriesLiqor, hentriesLiqee⟩ := htrade.2 _ hex
  obtain ⟨htermsBuy, htermsSell, -⟩ := trade_liqee _ hne hex
  have hrespects := trade_respects _ hne hbBuy hbSell hworthBuy hworthSell hallows hex
  have hkeptLiqor : s.Kept liqor' := by
    refine ⟨hcountedLiqor, ?_⟩
    rw [hentriesLiqor.tokenConditionalSwaps]
    exact hliqor.within
  have hkeptLiqee : s.Kept liqee' := by
    refine ⟨hcountedLiqee, ?_⟩
    rw [hentriesLiqee.tokenConditionalSwaps]
    exact hliqee.within
  have hswap' : liqee'.tokenConditionalSwaps[x.index]? = some swap := by
    rw [hentriesLiqee.tokenConditionalSwaps]
    exact hswap
  refine (record_yields hq hwithin hallows.bought_le hallows.sold_le).bind ?_
  rintro recorded ⟨hrecorded, hsame, hsameBuy, hsameSell⟩
  refine bind_of (faults_isDone hq hx hrecorded) fun closed _ => ?_
  refine bind (P := fun r => SameTerms bBuy' r.1 ∧ SameTerms bSell' r.2.1 ∧
    s.Kept r.2.2 ∧ Respects swap bBuy bSell liqee r.2.2) ?_ ?_
  · refine ite (fun _ => ?_) fun _ => ?_
    · refine (removeSwap_kept hq hkeptLiqee hswap' hconfigured hbuy hsell bBuy' bSell' x.nowTs).imp ?_
      rintro r ⟨hterms, hterms', hkept, hworth⟩
      exact ⟨hterms, hterms', hkept, hrespects.keeps hbBuy fun t ht b =>
        hworth t (ne_free_of_mem hbuy hsell ht) b⟩
    · exact pure ⟨.refl _, .refl _, ⟨hkeptLiqee.counted.setSwap hswap' hsame hsameBuy hsameSell,
        hkeptLiqee.within.set _ fun _ => hrecorded⟩, hrespects.borrow, hrespects.deposit⟩
  · rintro ⟨bBuy'', bSell'', liqee''⟩ ⟨hterms, hterms', hkept, hrespects'⟩
    exact pure ⟨htermsBuy.trans hterms, htermsSell.trans hterms', hkeptLiqor, hkept, hrespects'⟩

/-! ## Every swap of a group -/

/-- Positions count their uses, banks have indices, and every swap is within its
    mandate. -/
structure Mandated (s : Group) : Prop where
  sound : s.Sound
  indexed : ∀ t, ∀ b ∈ s.banks t, b.Indexed
  within : ∀ key a, s.accounts key = some a → AllWithin a.tokenConditionalSwaps

theorem Kept.setBank (h : s.Kept a) (t i : Nat) (b : Bank) : (s.setBank t i b).Kept a :=
  ⟨h.counted.setBank t i b, h.within⟩

theorem Kept.setAccount (h : s.Kept a) (key : Pubkey) (a' : MangoAccount) :
    (s.setAccount key a').Kept a :=
  ⟨h.counted.setAccount key a', h.within⟩

theorem Mandated.setBank (h : s.Mandated) (t i : Nat) {b : Bank} (hb : b.Indexed) :
    (s.setBank t i b).Mandated := by
  refine ⟨h.sound.setBank t i b, fun t' b' hb' => ?_, h.within⟩
  rcases mem_storeBank hb' with rfl | hold
  · exact hb
  · exact h.indexed t' b' hold

theorem Mandated.setAccount (h : s.Mandated) (key : Pubkey) (ha : s.Kept a) :
    (s.setAccount key a).Mandated := by
  refine ⟨h.sound.setAccount key ha.counted, h.indexed, fun key' a' hkey => ?_⟩
  by_cases hcase : key' = key
  · subst hcase
    obtain rfl : a = a' := Option.some.inj ((update_self key' _ s.accounts).symm.trans hkey)
    exact ha.within
  · refine h.within key' a' ?_
    rw [← hkey]
    exact (update_of_ne hcase (some a) s.accounts).symm

theorem Mandated.load_yields (h : s.Mandated) (key : Pubkey) :
    Yields q (s.accounts.load key) fun a => s.accounts key = some a ∧ s.Kept a := by
  unfold Accounts.load
  split
  · next a hkey => exact pure ⟨hkey, h.sound.accounts key a hkey, h.within key a hkey⟩
  · exact fail _

theorem Mandated.loadBank_yields (h : s.Mandated) (t i : Nat) :
    Yields q (s.loadBank t i) fun b =>
      (s.banks t)[i]? = some b ∧ b.Indexed ∧ t ≠ FREE_TOKEN_INDEX := by
  have hyields := Group.loadBank_yields (q := q) h.sound t i
  refine ⟨hyields.1, fun b hex => ?_⟩
  have hb := loadBank_eq_ok.mp hex
  exact ⟨hb, h.indexed t b (mem_of_getElem? hb), hyields.2 b hex⟩

/-- What a trigger does to the owner of the swap, at the indices of the banks. -/
structure Triggered (s s' : Group) (x : Trigger) (swap : TokenConditionalSwap)
    (liqee liqee' : MangoAccount) (buyBank buyBank' sellBank sellBank' : Bank) : Prop where
  loaded : s.accounts x.liqee = some liqee
  found : liqee.tokenConditionalSwaps[x.index]? = some swap
  buyLoaded : (s.banks swap.buyTokenIndex)[x.buyBank]? = some buyBank
  sellLoaded : (s.banks swap.sellTokenIndex)[x.sellBank]? = some sellBank
  stored : s'.accounts x.liqee = some liqee'
  buyStored : (s'.banks swap.buyTokenIndex)[x.buyBank]? = some buyBank'
  sellStored : (s'.banks swap.sellTokenIndex)[x.sellBank]? = some sellBank'
  buyTerms : Bank.SameTerms buyBank buyBank'
  sellTerms : Bank.SameTerms sellBank sellBank'
  respects : Respects swap buyBank sellBank liqee liqee'

theorem Mandated.loadBankPair {t₁ i₁ t₂ i₂ : Nat} (h : s.Mandated)
    (hpair : s.loadBankPair t₁ i₁ t₂ i₂ = .ok (bBuy, bSell)) :
    (s.banks t₁)[i₁]? = some bBuy ∧ bBuy.Indexed ∧ t₁ ≠ FREE_TOKEN_INDEX ∧
      (s.banks t₂)[i₂]? = some bSell ∧ bSell.Indexed ∧ t₂ ≠ FREE_TOKEN_INDEX ∧ t₁ ≠ t₂ := by
  obtain ⟨b₁, hb₁, hpair⟩ := of_bind hpair
  obtain ⟨b₂, hb₂, hpair⟩ := of_bind hpair
  obtain ⟨rfl, rfl⟩ := ok_inj₂ hpair
  split at hb₂
  · cases hb₂
  · rename_i hne
    obtain ⟨hfound₁, hindexed₁, hfree₁⟩ := (h.loadBank_yields (q := .assertion) t₁ i₁).2 _ hb₁
    obtain ⟨hfound₂, hindexed₂, hfree₂⟩ := (h.loadBank_yields (q := .assertion) t₂ i₂).2 _ hb₂
    exact ⟨hfound₁, hindexed₁, hfree₁, hfound₂, hindexed₂, hfree₂, hne⟩

/-- A swap that is configured needs both its tokens. -/
theorem uses_pos (hx : a.tokenConditionalSwaps[i]? = some swap)
    (hconfigured : swap.isConfigured = true) :
    0 < s.uses a swap.buyTokenIndex ∧ 0 < s.uses a swap.sellTokenIndex := by
  have hmem := mem_of_getElem? hx
  have hbuy : 0 < a.tokenConditionalSwaps.countP
      fun x => x.isConfigured && decide (x.buyTokenIndex = swap.buyTokenIndex) :=
    countP_pos_iff.mpr ⟨swap, hmem, by simp [hconfigured]⟩
  have hsell : 0 < a.tokenConditionalSwaps.countP
      fun x => x.isConfigured && decide (x.sellTokenIndex = swap.sellTokenIndex) :=
    countP_pos_iff.mpr ⟨swap, hmem, by simp [hconfigured]⟩
  unfold uses swapUses
  omega

/-- A position that is in use is there. -/
theorem ensureTokenPosition_used (ha : s.Counted a) (ht : t ≠ FREE_TOKEN_INDEX)
    (huses : 0 < s.uses a t) : Yields q (a.ensureTokenPosition t) fun r => a = r.2 := by
  refine ⟨(ensureTokenPosition_yields ha.serves).1, ?_⟩
  rintro ⟨p, a'⟩ hex
  unfold ensureTokenPosition at hex
  split at hex
  · exact (ok_inj₂ hex).2
  · rename_i hnone
    have hheld := ha.serves.held t ht
    rw [held_of_none hnone] at hheld
    omega

theorem triggerSwap_yields {x : Trigger} (hq : q.arithmetic = false) (hunwrap : q ≠ .unwrap)
    (hx : x.Fair) (h : s.Mandated) :
    Yields q (s.triggerSwap x) fun s' => s'.Mandated ∧
      ∃ swap liqee liqee' buyBank buyBank' sellBank sellBank',
        Triggered s s' x swap liqee liqee' buyBank buyBank' sellBank sellBank' := by
  refine (Yields.require _ _).bind fun _ _ => ?_
  refine (h.load_yields x.liqor).bind ?_
  rintro liqor ⟨-, hliqor⟩
  refine (h.load_yields x.liqee).bind ?_
  rintro liqee ⟨hkey, hliqee⟩
  refine (tokenConditionalSwapByIndex_yields liqee x.index).bind fun swap hswap => ?_
  refine (Yields.require _ _).bind fun _ hconfigured => (Yields.require _ _).bind fun _ _ => ?_
  refine Yields.bind_of (loadBankPair_yields hunwrap h.sound _ _ _ _).faults ?_
  rintro ⟨bBuy, bSell⟩ hpair
  obtain ⟨hfoundBuy, hbBuy, hbuy, hfoundSell, hbSell, hsell, hne⟩ := h.loadBankPair hpair
  -- both ways of success write two banks with the old terms and the liqee
  have hwrites : ∀ {bBuy' bSell' : Bank} {s₁ : Group} {liqee' : MangoAccount},
      s₁.banks = ((s.setBank swap.buyTokenIndex x.buyBank bBuy').setBank swap.sellTokenIndex
        x.sellBank bSell').banks →
      SameTerms bBuy bBuy' → SameTerms bSell bSell' →
      Respects swap bBuy bSell liqee liqee' →
      Triggered s (s₁.setAccount x.liqee liqee') x swap liqee liqee' bBuy bBuy' bSell bSell' := by
    intro bBuy' bSell' s₁ liqee' hbanks htermsBuy htermsSell hrespects
    refine ⟨hkey, hswap, hfoundBuy, hfoundSell, update_self _ _ _, ?_, ?_, htermsBuy,
      htermsSell, hrespects⟩
    · show (s₁.banks _)[_]? = _
      rw [hbanks]
      show ((storeBank _ _ _ _).banks _)[_]? = _
      rw [storeBank_of_ne hne]
      exact storeBank_of_loaded hfoundBuy bBuy'
    · show (s₁.banks _)[_]? = _
      rw [hbanks]
      refine storeBank_of_loaded (b := bSell) ?_ bSell'
      show ((storeBank _ _ _ _).banks _)[_]? = _
      rw [storeBank_of_ne hne.symm]
      exact hfoundSell
  refine Yields.ite (fun _ => ?_) fun _ => ?_
  · -- an expired swap is removed
    refine (Yields.require _ _).bind fun _ _ => ?_
    refine (removeSwap_kept hq hliqee hswap hconfigured hbuy hsell bBuy bSell x.nowTs).bind ?_
    rintro ⟨bBuy', bSell', liqee'⟩ ⟨htermsBuy, htermsSell, hkept, hworth⟩
    have hrespects := (Respects.refl swap bBuy bSell liqee).keeps hbBuy fun t ht b =>
      hworth t (ne_free_of_mem hbuy hsell ht) b
    refine Yields.pure ⟨((h.setBank _ _ (htermsBuy.indexed_iff.mpr hbBuy)).setBank _ _
      (htermsSell.indexed_iff.mpr hbSell)).setAccount _ ((hkept.setBank _ _ _).setBank _ _ _),
      swap, liqee, liqee', bBuy, bBuy', bSell, bSell', hwrites rfl htermsBuy htermsSell hrespects⟩
  · have huses := uses_pos (s := s) hswap hconfigured
    refine (ensureTokenPosition_used hliqee.counted hbuy huses.1).bind ?_
    rintro ⟨_, _⟩ rfl
    refine (ensureTokenPosition_used hliqee.counted hsell huses.2).bind ?_
    rintro ⟨_, _⟩ rfl
    refine (action_yields hq hx hliqor hliqee hswap hconfigured hbuy hsell hne hbBuy hbSell).bind ?_
    rintro ⟨buy, bBuy', bSell', liqor', liqee'⟩ ⟨htermsBuy, htermsSell, hkept, hkept', hrespects⟩
    refine (Yields.require _ _).bind fun _ _ => Yields.pure ⟨?_,
      swap, liqee, liqee', bBuy, bBuy', bSell, bSell', hwrites rfl htermsBuy htermsSell hrespects⟩
    exact (((h.setBank _ _ (htermsBuy.indexed_iff.mpr hbBuy)).setBank _ _
      (htermsSell.indexed_iff.mpr hbSell)).setAccount _ ((hkept.setBank _ _ _).setBank _ _ _)).setAccount _
      (((hkept'.setBank _ _ _).setBank _ _ _).setAccount _ _)

/-! ## Starting, creating and cancelling -/

theorem startSwap_mandated {x : Start} (h : s.Mandated) (hex : s.startSwap x = .ok s') :
    s'.Mandated := by
  obtain ⟨_, -, hex⟩ := of_bind hex
  obtain ⟨liqee, hliqee, hex⟩ := of_bind hex
  obtain ⟨liqor, hliqor, hex⟩ := of_bind hex
  obtain ⟨swap, hswap, hex⟩ := of_bind hex
  obtain ⟨_, hconfigured, hex⟩ := of_bind hex
  obtain ⟨_, -, hex⟩ := of_bind hex
  obtain ⟨_, -, hex⟩ := of_bind hex
  obtain ⟨b, hb, hex⟩ := of_bind hex
  obtain ⟨_, -, hex⟩ := of_bind hex
  obtain ⟨incentive, -, hex⟩ := of_bind hex
  obtain ⟨liqeeSell, hliqeeSell, hex⟩ := of_bind hex
  obtain ⟨⟨liqorSell, liqor₁⟩, hensure, hex⟩ := of_bind hex
  obtain ⟨⟨_, b', liqeeSell', liqorSell'⟩, htransfer, hex⟩ := of_bind hex
  obtain ⟨balance, -, hex⟩ := of_bind hex
  obtain ⟨_, -, hex⟩ := of_bind hex
  obtain ⟨_, -, hex⟩ := of_bind hex
  obtain ⟨sold, -, hex⟩ := of_bind hex
  obtain ⟨_, hsold, hex⟩ := of_bind hex
  obtain rfl := ok_inj hex
  obtain ⟨-, hliqee⟩ := (h.load_yields (q := .assertion) _).2 _ hliqee
  obtain ⟨-, hliqor⟩ := (h.load_yields (q := .assertion) _).2 _ hliqor
  obtain ⟨-, hindexed, hfree⟩ := (h.loadBank_yields (q := .assertion) _ _).2 _ hb
  have hswap := (tokenConditionalSwapByIndex_yields (q := .assertion) _ _).2 _ hswap
  have hliqeeSell := tokenPositionMut_eq_ok.mp hliqeeSell
  obtain ⟨hserves, hentries, hliqorSell⟩ :=
    (ensureTokenPosition_yields (q := .assertion) hliqor.counted.serves).2 _ hensure
  obtain ⟨hliqee', hliqor', -, -⟩ := (checkedTransfer_yields (q := .assertion) rfl hfree
    hliqee.counted.serves hliqeeSell hserves hliqorSell _ _ _ _).2 _ htransfer
  have hterms : SameTerms b b' := by
    obtain ⟨_, b₁, _, hwithdraw, hdeposit, -, -⟩ := checkedTransferWithFee_parts htransfer
    exact (withdrawFromSource_changes hwithdraw).2.trans (depositToTarget_changes hdeposit).2
  have hkeptLiqor : s.Kept (liqor₁.setTokenPosition liqorSell') := by
    refine ⟨hliqor.counted.of_sameEntries
      ((setTokenPosition_sameEntries _ _).trans hentries) hliqor', ?_⟩
    show AllWithin liqor₁.tokenConditionalSwaps
    rw [hentries.tokenConditionalSwaps]
    exact hliqor.within
  have hkeptLiqee : s.Kept ((liqee.setTokenPosition liqeeSell').setTokenConditionalSwap x.index
      { swap with startTimestamp := x.nowTs, sold }) := by
    have hwithin := hliqee.within swap (mem_of_getElem? hswap) (require_eq_ok.mp hconfigured)
    have hcounted := hliqee.counted.of_sameEntries
      (setTokenPosition_sameEntries liqee liqeeSell') hliqee'
    refine ⟨hcounted.setSwap hswap rfl rfl rfl, ?_⟩
    -- the code asserts that the incentive is within the mandate
    exact hliqee.within.set _ fun _ =>
      ⟨hwithin.bought_le, of_assert hsold, hwithin.fee_le⟩
  exact ((h.setBank _ _ (hterms.indexed_iff.mpr hindexed)).setAccount _
    (hkeptLiqor.setBank _ _ _)).setAccount _ ((hkeptLiqee.setBank _ _ _).setAccount _ _)

theorem create_mandated {key : Pubkey} {buyBank sellBank expiry nowTs : Nat}
    {terms : SwapTerms} (h : s.Mandated) (hfee : terms.takerFeeRate ≤ ONE)
    (hex : s.tokenConditionalSwapCreate key buy buyBank sell sellBank expiry nowTs terms = .ok s') :
    s'.Mandated := by
  have hsound := (tokenConditionalSwapCreate_yields h.sound key buy buyBank sell sellBank expiry nowTs
    terms).2 s' hex
  unfold tokenConditionalSwapCreate at hex
  split at hex
  · obtain rfl := ok_inj hex
    exact h
  · obtain ⟨_, -, hex⟩ := of_bind hex
    obtain ⟨_, -, hex⟩ := of_bind hex
    obtain ⟨a, ha, hex⟩ := of_bind hex
    obtain ⟨a₁, ha₁, hex⟩ := of_bind hex
    obtain ⟨a₂, ha₂, hex⟩ := of_bind hex
    obtain ⟨i, -, hex⟩ := of_bind hex
    obtain ⟨_, -, hex⟩ := of_bind hex
    obtain rfl := ok_inj hex
    obtain ⟨-, hkept⟩ := (h.load_yields (q := .assertion) key).2 a ha
    obtain ⟨hserves, hentries₁⟩ :=
      (ensureTokenInUse_yields (q := .assertion) rfl hkept.counted.serves).2 _ ha₁
    obtain ⟨-, hentries₂⟩ := (ensureTokenInUse_yields (q := .assertion) rfl hserves).2 _ ha₂
    have hentries := hentries₂.trans hentries₁
    have hcounted := hsound.accounts key _ (update_self _ _ _)
    refine h.setAccount key ⟨⟨hcounted.serves, hcounted.orders.opened, hcounted.orders.tokens⟩, ?_⟩
    show AllWithin (a₂.tokenConditionalSwaps.set i _)
    rw [hentries.tokenConditionalSwaps]
    exact hkept.within.set i fun _ => ⟨Nat.zero_le _, Nat.zero_le _, hfee⟩

theorem cancel_mandated {key : Pubkey} {index id buyBank sellBank nowTs : Nat} (h : s.Mandated)
    (hex : s.tokenConditionalSwapCancel key index id buyBank sellBank nowTs = .ok s') :
    s'.Mandated := by
  obtain ⟨a, ha, hex⟩ := of_bind hex
  obtain ⟨swap, hswap, hex⟩ := of_bind hex
  obtain ⟨bBuy, hbBuy, hex⟩ := of_bind hex
  obtain ⟨bSell, hbSell, hex⟩ := of_bind hex
  split at hex
  · obtain rfl := ok_inj hex
    exact h
  · rename_i hconfigured
    obtain ⟨_, -, hex⟩ := of_bind hex
    obtain ⟨⟨bBuy', bSell', a'⟩, hremove, hex⟩ := of_bind hex
    obtain rfl := ok_inj hex
    obtain ⟨-, hkept⟩ := (h.load_yields (q := .assertion) key).2 a ha
    have hswap := (tokenConditionalSwapByIndex_yields (q := .assertion) _ _).2 _ hswap
    obtain ⟨-, hindexed, hbuy⟩ := (h.loadBank_yields (q := .assertion) _ _).2 _ hbBuy
    obtain ⟨-, hindexed', hsell⟩ := (h.loadBank_yields (q := .assertion) _ _).2 _ hbSell
    obtain ⟨hterms, hterms', hkept', -⟩ := (removeSwap_kept (q := .assertion) rfl hkept hswap
      (Bool.eq_true_of_not_eq_false hconfigured) hbuy hsell bBuy bSell nowTs).2 _ hremove
    exact ((h.setBank _ _ (hterms.indexed_iff.mpr hindexed)).setBank _ _
      (hterms'.indexed_iff.mpr hindexed')).setAccount _ ((hkept'.setBank _ _ _).setBank _ _ _)

/-! ## Runs -/

/-- What happens to the conditional swaps of a group. -/
inductive SwapOp where
  | trigger (x : Trigger)
  | start (x : Start)
  | create (key : Pubkey) (buy buyBank sell sellBank expiry nowTs : Nat) (terms : SwapTerms)
  | cancel (key : Pubkey) (index id buyBank sellBank nowTs : Nat)
  /-- anything else, as long as it leaves the swaps alone -/
  | elsewhere (s' : Group)

/-- Configured swaps stay as they are.  That positions still count their uses
    is what `exec_yields` says of the other instructions. -/
structure LeavesSwaps (s s' : Group) : Prop where
  sound : s'.Sound
  indexed : ∀ t, ∀ b ∈ s'.banks t, b.Indexed
  swaps : ∀ key a', s'.accounts key = some a' → ∀ x ∈ a'.tokenConditionalSwaps,
    x.isConfigured = true → ∃ a, s.accounts key = some a ∧ x ∈ a.tokenConditionalSwaps

theorem LeavesSwaps.mandated (h : LeavesSwaps s s') (hs : s.Mandated) : s'.Mandated := by
  refine ⟨h.sound, h.indexed, fun key a' ha' x hx hconfigured => ?_⟩
  obtain ⟨a, ha, hmem⟩ := h.swaps key a' ha' x hx hconfigured
  exact hs.within key a ha x hmem hconfigured

theorem Mandated.leavesSwaps (h : s.Mandated) : LeavesSwaps s s :=
  ⟨h.sound, h.indexed, fun _ a ha _ hx _ => ⟨a, ha, hx⟩⟩

/-- A deposit leaves the swaps alone. -/
theorem tokenDeposit_leavesSwaps (h : s.Mandated) (key : Pubkey) (t i amount : Nat)
    (reduceOnly : Bool) (nowTs : Nat) :
    LeavesSwaps s (stepState Group.exec (.tokenDeposit key t i amount reduceOnly nowTs) s) := by
  refine stepState_preserves (P := LeavesSwaps s) (fun _ s' hex => ?_) h.leavesSwaps
  obtain ⟨_, happly, hret⟩ := of_bind hex
  obtain ⟨-, rfl⟩ := ok_inj₂ hret
  obtain ⟨a, ha, happly⟩ := of_bind happly
  obtain ⟨⟨_, a₁⟩, hensure, happly⟩ := of_bind happly
  obtain ⟨hkey, hkept⟩ := (h.load_yields (q := .assertion) key).2 a ha
  obtain ⟨hserves, hentries, -⟩ :=
    (ensureTokenPosition_yields (q := .assertion) hkept.counted.serves).2 _ hensure
  obtain ⟨hsound, b, b', a', hb, hterms, hentries', rfl⟩ := (depositIntoExisting_yields h.sound
    (hkept.counted.of_sameEntries hentries hserves) key t i amount _ _ nowTs).2 _ happly
  have hindexed := h.indexed t b (mem_of_getElem? hb)
  have hentries' := hentries'.trans hentries
  refine ⟨hsound, (h.setBank t i (hterms.indexed_iff.mpr hindexed)).indexed, ?_⟩
  intro key' a'' ha'' x hx _
  by_cases hcase : key' = key
  · subst hcase
    obtain rfl : a' = a'' :=
      Option.some.inj ((update_self key' _ s.accounts).symm.trans ha'')
    exact ⟨a, hkey, hentries'.tokenConditionalSwaps ▸ hx⟩
  · refine ⟨a'', ?_, hx⟩
    rw [← ha'']
    exact (update_of_ne hcase (some a') s.accounts).symm

namespace SwapOp

def apply : SwapOp → Group → Exec Group
  | .trigger x, s => s.triggerSwap x
  | .start x, s => s.startSwap x
  | .create key buy buyBank sell sellBank expiry nowTs terms, s =>
    s.tokenConditionalSwapCreate key buy buyBank sell sellBank expiry nowTs terms
  | .cancel key index id buyBank sellBank nowTs, s =>
    s.tokenConditionalSwapCancel key index id buyBank sellBank nowTs
  | .elsewhere s', _ => .ok s'

def exec (op : SwapOp) (s : Group) : Exec (Unit × Group) := do
  return ((), ← op.apply s)

/-- Prices with the maker fee are not below those without, and the taker fee is
    at most the whole. -/
def Allowed : SwapOp → Group → Prop
  | .trigger x, _ => x.Fair
  | .start _, _ => True
  | .create _ _ _ _ _ _ _ terms, _ => terms.takerFeeRate ≤ I80F48.ONE
  | .cancel .., _ => True
  | .elsewhere s', s => LeavesSwaps s s'

theorem exec_mandated {op : SwapOp} {r : Unit} {s' : Group} (h : s.Mandated) (hop : op.Allowed s)
    (hex : op.exec s = .ok (r, s')) : s'.Mandated := by
  obtain ⟨_, happly, hret⟩ := of_bind hex
  obtain ⟨-, rfl⟩ := ok_inj₂ hret
  cases op with
  | trigger x =>
    exact ((triggerSwap_yields (q := .assertion) rfl (by decide) hop h).2 _ happly).1
  | start x => exact startSwap_mandated h happly
  | create key buy buyBank sell sellBank expiry nowTs terms => exact create_mandated h hop happly
  | cancel key index id buyBank sellBank nowTs => exact cancel_mandated h happly
  | elsewhere s' =>
    obtain rfl := ok_inj happly
    exact LeavesSwaps.mandated hop h

end SwapOp

theorem Fresh.mandated (h : s.Fresh) (hindexed : ∀ t, ∀ b ∈ s.banks t, b.Indexed) : s.Mandated :=
  ⟨h.sound, hindexed, fun key a ha x hx hconfigured => by
    rw [(h.accounts key a ha).swaps x hx] at hconfigured
    cases hconfigured⟩

/-- In every state of a run every configured swap is within its mandate, and no
    trigger fails an assertion or subtracts more than there is.  A trigger that
    succeeds makes and enlarges no borrow of the token that is sold, and leaves
    no deposit of the token that is bought, where the swap may not. -/
theorem swap_keeps_to_mandate (h : s.Fresh) (hindexed : ∀ t, ∀ b ∈ s.banks t, b.Indexed)
    (ops : List SwapOp) (hops : Guarded SwapOp.exec SwapOp.Allowed s ops) :
    (∀ key a, (run SwapOp.exec s ops).accounts key = some a → ∀ swap ∈ a.tokenConditionalSwaps,
      swap.isConfigured = true → swap.bought ≤ swap.maxBuy ∧ swap.sold ≤ swap.maxSell) ∧
    ∀ x : Trigger, .zero < x.premiumPrice → x.premiumPrice ≤ x.makerPrice →
      (run SwapOp.exec s ops).triggerSwap x ≠ .error (.panic .assertion) ∧
      (run SwapOp.exec s ops).triggerSwap x ≠ .error (.panic .underflow) ∧
      ∀ s', (run SwapOp.exec s ops).triggerSwap x = .ok s' →
        ∃ swap liqee liqee' buyBank buyBank' sellBank sellBank',
          Triggered (run SwapOp.exec s ops) s' x swap liqee liqee' buyBank buyBank' sellBank
            sellBank' := by
  have hmandated := run_preserves_of_guarded (P := Mandated)
    (fun op s r s' hs hop hex => SwapOp.exec_mandated hs hop hex) ops s (h.mandated hindexed) hops
  refine ⟨fun key a ha swap hmem hconfigured => ?_, fun x hpremium hmaker => ?_⟩
  · have hwithin := hmandated.within key a ha swap hmem hconfigured
    exact ⟨hwithin.bought_le, hwithin.sold_le⟩
  · have hx : x.Fair := ⟨Int.le_of_lt hpremium, hmaker⟩
    exact ⟨(triggerSwap_yields rfl (by decide) hx hmandated).1,
      (triggerSwap_yields rfl (by decide) hx hmandated).1,
      fun s' hex => ((triggerSwap_yields (q := .assertion) rfl (by decide) hx hmandated).2 s' hex).2⟩

/-- Two tokens for one, and no borrow. -/
def twoForOne : SwapOp :=
  .create 0 2 0 1 0 100 0 { maxBuy := 100, maxSell := 50, allowCreatingDeposits := true }

def buyForty : Trigger where
  liqor := 1
  liqee := 0
  index := 0
  id := 0
  buyBank := 0
  sellBank := 0
  maxBuyTokenToLiqee := 40
  maxSellTokenToLiqor := 30
  minBuyToken := 0
  buyTokenPrice := I80F48.ONE
  sellTokenPrice := I80F48.ONE
  priceInRange := true
  premiumPrice := ⟨2 ^ 47, I80F48.half_inRange⟩
  makerPrice := ⟨2 ^ 47, I80F48.half_inRange⟩
  takerPriceReached := true
  makerPriceAboveOne := false
  smallestTrade := 1
  liqeeHealthIsLow := false
  nowTs := 1

/-- The swap is created, its owner deposits, and forty tokens are bought. -/
def swapTriggered : List SwapOp :=
  [twoForOne,
    .elsewhere (stepState Group.exec (.tokenDeposit 0 1 0 35 false 0)
      (stepState SwapOp.exec twoForOne (spotAndPerp []))),
    .trigger buyForty]

theorem spotAndPerp_indexed (perpMarkets : List PerpMarketIndex) (t : TokenIndex) :
    ∀ b ∈ (spotAndPerp perpMarkets).banks t, b.Indexed := by
  intro b hb
  replace hb : b ∈ if t = 1 ∨ t = 2 then [Bank.plain t] else [] := hb
  split at hb
  · rw [mem_singleton.mp hb]
    exact ⟨(by decide : zero < ONE), (by decide : zero < ONE)⟩
  · cases hb

theorem swapTriggered_allowed : Guarded SwapOp.exec SwapOp.Allowed (spotAndPerp []) swapTriggered := by
  have hfresh : (spotAndPerp []).Fresh := spotAndPerp_fresh (by decide)
  have hcreate : twoForOne.Allowed (spotAndPerp []) := by
    show zero ≤ ONE
    decide
  have hcreated : (stepState SwapOp.exec twoForOne (spotAndPerp [])).Mandated :=
    stepState_preserves (fun _ _ hex => SwapOp.exec_mandated
      (hfresh.mandated (spotAndPerp_indexed [])) hcreate hex) (hfresh.mandated (spotAndPerp_indexed []))
  exact ⟨hcreate, tokenDeposit_leavesSwaps hcreated 0 1 0 35 false 0, ⟨by decide, by decide⟩, trivial⟩

/-- The next trigger sells the fifteen tokens that are left of the deposit,
    although thirty remain of the mandate. -/
theorem swapTriggered_keeps_to_mandate :
    let s := run SwapOp.exec (spotAndPerp []) swapTriggered
    (∃ a ∈ s.accounts 0, (a.tokenConditionalSwaps.map fun x => (x.bought, x.sold)) = [(40, 20)]) ∧
    (∃ a ∈ (stepState SwapOp.exec (.trigger buyForty) s).accounts 0,
      a.tokenConditionalSwaps = [.default] ∧ a.worthIn 1 (Bank.plain 1) = 0 ∧
        a.worthIn 2 (Bank.plain 2) = 70 * 2 ^ 48) ∧
    (∀ key a, s.accounts key = some a → ∀ swap ∈ a.tokenConditionalSwaps,
      swap.isConfigured = true → swap.bought ≤ swap.maxBuy ∧ swap.sold ≤ swap.maxSell) ∧
    s.triggerSwap buyForty ≠ .error (.panic .assertion) ∧
    s.triggerSwap buyForty ≠ .error (.panic .underflow) ∧
    ∀ s', s.triggerSwap buyForty = .ok s' →
      ∃ swap liqee liqee' buyBank buyBank' sellBank sellBank',
        Triggered s s' buyForty swap liqee liqee' buyBank buyBank' sellBank sellBank' := by
  intro s
  obtain ⟨hwithin, htriggers⟩ := swap_keeps_to_mandate (spotAndPerp_fresh (by decide))
    (spotAndPerp_indexed []) swapTriggered swapTriggered_allowed
  exact ⟨by decide +kernel, by decide +kernel, hwithin, htriggers buyForty (by decide) (by decide)⟩

end Group

end MangoV4
