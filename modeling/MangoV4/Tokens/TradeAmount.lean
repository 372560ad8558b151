/-
  MangoV4.Tokens.TradeAmount

  What `trade_amount_inner` makes of the two maxima and the price.

  The amount to buy is computed from the amount that may be sold, with a
  division that is rounded down for prices above one and up for the others, and
  the amount to sell is computed back from it.  With both roundings it is the
  bought amount at the price, rounded down, and within its maximum; and one
  amount is zero only if the other is.
-/

import MangoV4.Instructions.ConditionalSwap
import MangoV4.Lib.Returns
import Mathlib.Tactic.Linarith

namespace MangoV4

open Lib Lib.Exec Yields I80F48

/-! ## Roundings

Prices are in units of `2 ^ -48`. -/

section Rounding

variable {buy maxBuy maxSell price quotient : Int}

/-- `buy` tokens at the price are sold within the maximum, for nothing only if
    there are none. -/
structure Affordable (maxSell price buy : Int) : Prop where
  sell_le : buy * price / 2 ^ 48 ≤ maxSell
  pos_iff : 0 < buy ↔ 0 < buy * price / 2 ^ 48

/-- The amount is no more than the maximum (and a fraction) at a price above one. -/
theorem affordable_of_mul_le (hprice : 2 ^ 48 < price) (hbuy : 0 ≤ buy)
    (h : buy * price ≤ maxSell * 2 ^ 48 + 2 ^ 48 - 1) : Affordable maxSell price buy := by
  constructor
  · generalize buy * price = total at h
    omega
  · rcases hbuy.eq_or_lt with rfl | hpos
    · simp
    · have htotal : price ≤ buy * price := le_mul_of_one_le_left (by omega) hpos
      generalize buy * price = total at h htotal
      omega

/-- Two divisions that round down are one. -/
theorem div_floor_eq {sell : Int} (hprice : 0 < price) :
    sell * 2 ^ 48 / price / 2 ^ 48 = sell / price := by
  rw [Int.ediv_ediv_of_nonneg hprice.le, Int.mul_ediv_mul_of_pos_left _ _ (by norm_num)]

/-- For a price up to one, whole sold tokens are divided and rounded up: that
    many are bought for them, and no more. -/
theorem div_ceil_mul_bounds {sell : Int} (hprice : 0 < price) (hone : price ≤ 2 ^ 48)
    (hquotient : quotient = sell * 2 ^ 48 * 2 ^ 48 / price) :
    sell * 2 ^ 48 ≤ -(-quotient / 2 ^ 48) * price ∧
      -(-quotient / 2 ^ 48) * price < (sell + 1) * 2 ^ 48 := by
  have hdiv : quotient * price ≤ sell * 2 ^ 48 * 2 ^ 48 := by
    rw [hquotient]
    exact Int.ediv_mul_le _ hprice.ne'
  have hdiv' : sell * 2 ^ 48 * 2 ^ 48 < (quotient + 1) * price := by
    rw [hquotient]
    exact Int.lt_ediv_add_one_mul_self _ hprice
  have hceil : quotient ≤ -(-quotient / 2 ^ 48) * 2 ^ 48 ∧
      -(-quotient / 2 ^ 48) * 2 ^ 48 ≤ quotient + 2 ^ 48 - 1 := by omega
  generalize -(-quotient / 2 ^ 48) = buy at hceil
  constructor
  · -- what the division cut off is less than a unit of the price, which is at most one
    have hlow : quotient * price ≤ buy * 2 ^ 48 * price :=
      mul_le_mul_of_nonneg_right hceil.1 hprice.le
    nlinarith
  · have hhigh : buy * 2 ^ 48 * price ≤ (quotient + 2 ^ 48 - 1) * price :=
      mul_le_mul_of_nonneg_right hceil.2 hprice.le
    nlinarith

/-- Such an amount is worth what is sold, also if it is cut at a maximum that is
    worth as much. -/
theorem sold_of_bounds {sell bought : Int} (hprice : 0 < price)
    (hworth : sell ≤ maxBuy * price / 2 ^ 48) (hlow : sell * 2 ^ 48 ≤ bought * price)
    (hhigh : bought * price < (sell + 1) * 2 ^ 48) : min maxBuy bought * price / 2 ^ 48 = sell := by
  rcases le_total maxBuy bought with hcut | hcut
  · rw [min_eq_left hcut]
    have htotal : maxBuy * price ≤ bought * price := mul_le_mul_of_nonneg_right hcut hprice.le
    generalize maxBuy * price = total at hworth htotal
    omega
  · rw [min_eq_right hcut]
    generalize bought * price = total at hlow hhigh
    omega

theorem affordable_of_bounds {sell bought : Int} (hprice : 0 < price) (hsell : 0 ≤ sell)
    (hle : sell ≤ maxSell) (hworth : sell ≤ maxBuy * price / 2 ^ 48)
    (hlow : sell * 2 ^ 48 ≤ bought * price) (hhigh : bought * price < (sell + 1) * 2 ^ 48)
    (hzero : sell = 0 → bought ≤ 0) (hmax : 0 ≤ maxBuy) (hbought : 0 ≤ bought) :
    Affordable maxSell price (min maxBuy bought) := by
  have hsold := sold_of_bounds hprice hworth hlow hhigh
  refine ⟨hsold.trans_le hle, ?_⟩
  rw [hsold]
  constructor
  · intro hpos
    by_contra hnot
    have hnone := hzero (by omega)
    omega
  · intro hpos
    by_contra hnot
    have hnone : min maxBuy bought = 0 := by omega
    rw [hnone, zero_mul] at hsold
    omega

end Rounding

/-! ## The amounts -/

variable {q : Panic} {maxBuy maxSell : Nat} {price : I80F48}

/-- Above a price of one. -/
theorem buyForSell_above {buy : Nat} (habove : ONE < price)
    (h : buyForSell maxBuy maxSell price = .ok buy) :
    (buy : Int) = (maxSell * 2 ^ 48 + 2 ^ 48 - 1) / price.raw := by
  rw [buyForSell, if_pos habove] at h
  have habove : 2 ^ 48 < price.raw := habove
  obtain ⟨whole, hwhole, h⟩ := of_bind h
  obtain ⟨more, hmore, h⟩ := of_bind h
  obtain ⟨sell, hsell, h⟩ := of_bind h
  obtain ⟨quotient, hquotient, h⟩ := of_bind h
  obtain ⟨floor, hfloor, h⟩ := of_bind h
  rw [Fixed.ofInt_eq_ok] at hwhole
  rw [Fixed.add_eq_ok] at hmore
  rw [Fixed.sub_eq_ok] at hsell
  rw [Fixed.floor_eq_ok] at hfloor
  obtain ⟨-, hraw⟩ := Fixed.div_eq_ok.mp hquotient
  have hone : ONE.raw = 2 ^ 48 := rfl
  have hdelta : DELTA.raw = 1 := rfl
  have hsell' : sell.raw = maxSell * 2 ^ 48 + 2 ^ 48 - 1 := by omega
  have hbuy : (buy : Int) = quotient.raw / 2 ^ 48 := by
    have hbuy := Fixed.toU64_eq_ok h
    omega
  rw [Int.tdiv_eq_ediv_of_nonneg (by omega)] at hraw
  rw [hbuy, ← hsell', hraw]
  exact div_floor_eq (by omega)

/-- Up to a price of one, `sold` is what both maxima allow to be sold. -/
theorem buyForSell_below {buy : Nat} (hprice : .zero ≤ price) (hbelow : ¬ ONE < price)
    (h : buyForSell maxBuy maxSell price = .ok buy) :
    let sold := min (maxBuy * price.raw / 2 ^ 48) (maxSell : Int)
    0 < price.raw ∧ sold * 2 ^ 48 ≤ buy * price.raw ∧ buy * price.raw < (sold + 1) * 2 ^ 48 ∧
      (sold = 0 → (buy : Int) ≤ 0) := by
  intro sold
  rw [buyForSell, if_neg hbelow] at h
  have hprice : 0 ≤ price.raw := hprice
  have hbelow : price.raw ≤ 2 ^ 48 := not_lt.mp hbelow
  obtain ⟨whole, hwhole, h⟩ := of_bind h
  obtain ⟨worth, hworth, h⟩ := of_bind h
  obtain ⟨floor, hfloor, h⟩ := of_bind h
  obtain ⟨maximum, hmaximum, h⟩ := of_bind h
  obtain ⟨quotient, hquotient, h⟩ := of_bind h
  obtain ⟨ceil, hceil, h⟩ := of_bind h
  rw [Fixed.ofInt_eq_ok] at hwhole hmaximum
  rw [Fixed.mul_eq_ok, hwhole, mul_right_comm, Int.mul_ediv_cancel _ (by norm_num)] at hworth
  rw [Fixed.floor_eq_ok, hworth] at hfloor
  rw [Fixed.ceil_eq_ok] at hceil
  obtain ⟨hne, hraw⟩ := Fixed.div_eq_ok.mp hquotient
  have hpos : 0 < price.raw := by omega
  have hmin : min (floor.raw) maximum.raw = sold * 2 ^ 48 := by
    rw [hfloor, hmaximum, min_mul_of_nonneg _ _ (by norm_num)]
  rw [Fixed.raw_min, hmin, Int.tdiv_eq_ediv_of_nonneg (by positivity)] at hraw
  have hbuy : (buy : Int) = -(-quotient.raw / 2 ^ 48) := by
    have hbuy := Fixed.toU64_eq_ok h
    omega
  obtain ⟨hlow, hhigh⟩ := div_ceil_mul_bounds hpos hbelow hraw
  rw [← hbuy] at hlow hhigh
  refine ⟨hpos, hlow, hhigh, fun hzero => ?_⟩
  rw [hzero, zero_mul, zero_mul, Int.zero_ediv] at hraw
  omega

/-- The amount that is bought is affordable. -/
theorem buyForSell_affordable {buy : Nat} (hprice : .zero ≤ price)
    (h : buyForSell maxBuy maxSell price = .ok buy) :
    Affordable maxSell price.raw (min maxBuy buy : Nat) := by
  by_cases habove : ONE < price
  · have hprice : 0 ≤ price.raw := hprice
    refine affordable_of_mul_le habove (Int.natCast_nonneg _) ?_
    have habove' : 2 ^ 48 < price.raw := habove
    refine le_trans (mul_le_mul_of_nonneg_right (Nat.cast_le.mpr (min_le_right _ _)) hprice) ?_
    rw [buyForSell_above habove h]
    exact Int.ediv_mul_le _ (by omega)
  · obtain ⟨hpos, hlow, hhigh, hzero⟩ := buyForSell_below hprice habove h
    rw [Nat.cast_min]
    exact affordable_of_bounds hpos (le_min (by positivity) (by positivity)) (min_le_right _ _)
      (min_le_left _ _) hlow hhigh hzero (Int.natCast_nonneg _) (Int.natCast_nonneg _)

/-- What is traded is within both maxima, and what is sold is what is bought,
    at the price and rounded down. -/
structure AmountsTraded (maxBuy maxSell : Nat) (price : I80F48) (buy sell : Nat) : Prop where
  buy_le : buy ≤ maxBuy
  sell_le : sell ≤ maxSell
  sell_eq : (sell : Int) = buy * price.raw / 2 ^ 48

/-- Nothing is exchanged for something: the assertion holds. -/
theorem tradeAmountInner_yields (hq : q.arithmetic = false) (hprice : .zero ≤ price) :
    Yields q (tradeAmountInner maxBuy maxSell price) fun r =>
      AmountsTraded maxBuy maxSell price r.1 r.2 := by
  refine bind_of (by simp [buyForSell, hq]) fun buy hbuy => ?_
  have hafford := buyForSell_affordable hprice hbuy
  generalize hamount : min maxBuy buy = amount at hafford
  refine bind_of (by simp [hq]) fun whole hwhole => ?_
  refine bind_of (by simp [hq]) fun worth hworth => ?_
  refine bind_of (by simp [hq]) fun floor hfloor => ?_
  refine bind_of (by simp [hq]) fun sell hsell => ?_
  have hsold : (sell : Int) = amount * price.raw / 2 ^ 48 := by
    rw [Fixed.ofInt_eq_ok] at hwhole
    rw [Fixed.mul_eq_ok, hwhole, mul_right_comm, Int.mul_ediv_cancel _ (by norm_num)] at hworth
    rw [Fixed.floor_eq_ok, hworth] at hfloor
    rw [Fixed.toU64_eq_ok hsell, hfloor]
    exact Int.mul_ediv_cancel _ (by norm_num)
  have hle := hafford.sell_le
  have hiff := hafford.pos_iff
  have hmin : min maxSell sell = sell := by omega
  rw [hmin]
  dsimp only
  have hxor : (!(xor (decide (0 < amount)) (decide (0 < sell)))) = true := by
    have hboth : 0 < amount ↔ 0 < sell := by omega
    simp [hboth]
  rw [hxor]
  exact pure ⟨by omega, by omega, hsold⟩

/-! ## Amounts in range -/

/-- The amount to buy is found. -/
theorem buyForSell_returns (hprice : 0 < price.raw) (hbuy : maxBuy ≤ U64_MAX)
    (hsell : maxSell ≤ U64_MAX) (hfits : maxBuy * price.raw < 2 ^ 127) :
    Returns (buyForSell maxBuy maxSell price) fun _ => True := by
  unfold U64_MAX at hbuy hsell
  unfold buyForSell
  split_ifs with habove
  · have habove : 2 ^ 48 < price.raw := habove
    have hone : ONE.raw = 2 ^ 48 := rfl
    have hdelta : DELTA.raw = 1 := rfl
    refine (Returns.ofRaw (by positivity) (by omega)).bind fun whole hwhole => ?_
    refine (Returns.ofRaw (by omega) (by omega)).bind fun more hmore => ?_
    refine (Returns.ofRaw (by omega) (by omega)).bind fun sell hsell' => ?_
    have hle : sell.raw * 2 ^ 48 / price.raw ≤ sell.raw :=
      Int.ediv_le_of_le_mul hprice (mul_le_mul_of_nonneg_left habove.le (by omega))
    refine (Returns.div (by omega) hprice (by omega)).bind fun quotient hquotient => ?_
    have hnonneg : 0 ≤ quotient.raw := by
      rw [hquotient]
      exact Int.ediv_nonneg (by omega) hprice.le
    refine (Returns.ofRaw (n := quotient.raw / 2 ^ 48 * 2 ^ 48) (by omega) (by omega)).bind
      fun floor hfloor => ?_
    exact (Returns.toU64 (by omega) (by omega)).imp fun _ hn => ⟨hn.1, trivial⟩
  · have hmax : 0 ≤ (maxSell : Int) * 2 ^ 48 ∧ (maxSell : Int) * 2 ^ 48 < 2 ^ 127 := by omega
    refine (Returns.ofRaw (by positivity) (by omega)).bind fun whole hwhole => ?_
    have hproduct : whole.raw * price.raw / 2 ^ 48 = maxBuy * price.raw := by
      rw [hwhole, mul_right_comm, Int.mul_ediv_cancel _ (by norm_num)]
    have hworth : 0 ≤ maxBuy * price.raw := by positivity
    refine (Returns.ofRaw (n := whole.raw * price.raw / 2 ^ 48) (by omega) (by omega)).bind
      fun worth hworth' => ?_
    refine (Returns.ofRaw (n := worth.raw / 2 ^ 48 * 2 ^ 48) (by omega) (by omega)).bind
      fun floor hfloor => ?_
    refine (Returns.ofRaw hmax.1 hmax.2).bind fun maximum hmaximum => ?_
    -- what is sold is worth at most the maximum to buy
    have hmin : 0 ≤ (floor.min maximum).raw ∧ (floor.min maximum).raw ≤ maxBuy * price.raw := by
      rw [Fixed.raw_min]
      omega
    have hle : (floor.min maximum).raw * 2 ^ 48 / price.raw ≤ maxBuy * 2 ^ 48 :=
      Int.ediv_le_of_le_mul hprice (by linarith [hmin.2])
    refine (Returns.div hmin.1 hprice (by omega)).bind fun quotient hquotient => ?_
    have hnonneg : 0 ≤ quotient.raw := by
      rw [hquotient]
      exact Int.ediv_nonneg (by omega) hprice.le
    refine (Returns.ofRaw (n := -(-quotient.raw / 2 ^ 48) * 2 ^ 48) (by omega) (by omega)).bind
      fun ceil hceil => ?_
    exact (Returns.toU64 (by omega) (by omega)).imp fun _ hn => ⟨hn.1, trivial⟩

/-- No affordable amount within the maximum sells for more. -/
theorem buyForSell_largest {buy b : Nat} (hprice : 0 < price.raw)
    (h : buyForSell maxBuy maxSell price = .ok buy) (hb : b ≤ maxBuy)
    (hsold : b * price.raw / 2 ^ 48 ≤ maxSell) :
    b * price.raw / 2 ^ 48 ≤ (min maxBuy buy : Nat) * price.raw / 2 ^ 48 := by
  by_cases habove : ONE < price
  · have hle : (b : Int) ≤ (min maxBuy buy : Nat) := by
      have hbuy : (b : Int) ≤ buy := by
        rw [buyForSell_above habove h]
        exact (Int.le_ediv_iff_mul_le hprice).mpr (by omega)
      omega
    exact Int.ediv_le_ediv (by norm_num) (mul_le_mul_of_nonneg_right hle hprice.le)
  · obtain ⟨-, hlow, hhigh, -⟩ := buyForSell_below hprice.le habove h
    rw [Nat.cast_min, sold_of_bounds hprice (min_le_left _ _) hlow hhigh]
    refine le_min (Int.ediv_le_ediv (by norm_num) ?_) hsold
    exact mul_le_mul_of_nonneg_right (Nat.cast_le.mpr hb) hprice.le

/-- The amounts are found for every price whose product with the maximum to buy
    is in range, and within their maxima; what is sold is what is bought at the
    price, and the most that can be sold. -/
theorem tradeAmountInner_exact (hbuy : maxBuy ≤ U64_MAX) (hsell : maxSell ≤ U64_MAX)
    (hprice : I80F48.DELTA ≤ price) (hfits : maxBuy * price.raw < 2 ^ 127) :
    ∃ buy sell : Nat, tradeAmountInner maxBuy maxSell price = .ok (buy, sell) ∧
      buy ≤ maxBuy ∧ (sell : Int) = buy * price.raw / 2 ^ 48 ∧ sell ≤ maxSell ∧
      (0 < buy ↔ 0 < sell) ∧
      ∀ b : Nat, b ≤ maxBuy → b * price.raw / 2 ^ 48 ≤ maxSell → b * price.raw / 2 ^ 48 ≤ sell := by
  have hpos : 0 < price.raw := hprice
  obtain ⟨bought, hbought, -⟩ := buyForSell_returns hpos hbuy hsell hfits
  have hlargest := fun b => buyForSell_largest (b := b) hpos hbought
  obtain ⟨hsold, hiff⟩ := buyForSell_affordable hpos.le hbought
  have hmin : min maxBuy bought ≤ maxBuy := min_le_left _ _
  unfold tradeAmountInner
  rw [hbought, ok_bind]
  generalize min maxBuy bought = buy at hsold hiff hlargest hmin
  have hle : (buy : Int) * price.raw ≤ maxBuy * price.raw :=
    mul_le_mul_of_nonneg_right (Nat.cast_le.mpr hmin) hpos.le
  have hworth : 0 ≤ (buy : Int) * price.raw := by positivity
  unfold U64_MAX at hbuy hsell
  -- each step is in range, and the last one undoes the shift of the first
  obtain ⟨whole, hwhole, hraw⟩ : Returns (Fixed.ofInt buy : Exec I80F48) _ :=
    Returns.ofRaw (by positivity) (by omega)
  have hproduct : whole.raw * price.raw / 2 ^ 48 = buy * price.raw := by
    rw [hraw, mul_right_comm, Int.mul_ediv_cancel _ (by norm_num)]
  obtain ⟨worth, hworth', hraw'⟩ : Returns (whole.mul price : Exec I80F48) _ :=
    Returns.ofRaw (n := whole.raw * price.raw / 2 ^ 48) (by omega) (by omega)
  obtain ⟨floor, hfloor, hfloor'⟩ : Returns (worth.floor : Exec I80F48) _ :=
    Returns.ofRaw (n := worth.raw / 2 ^ 48 * 2 ^ 48) (by omega) (by omega)
  obtain ⟨sell, hsell', heq⟩ : Returns (floor.toU64 : Exec Nat) _ :=
    Returns.toU64 (by omega) (by omega)
  have heq : (sell : Int) = buy * price.raw / 2 ^ 48 := by omega
  have hboth : 0 < buy ↔ 0 < sell := by omega
  refine ⟨buy, sell, ?_, hmin, heq, by omega, hboth, heq ▸ hlargest⟩
  have hcut : min maxSell sell = sell := by omega
  simp only [hwhole, hworth', hfloor, hsell', ok_bind, hcut]
  simp [hboth, assert]

/-- At a price of about three fifths, seven tokens are worth four. -/
theorem tradeAmountInner_exact_of_threeFifths :
    let price : I80F48 := ⟨168884986026394, by decide, by decide⟩
    tradeAmountInner 7 4 price = .ok (7, 4) ∧ ∃ buy sell : Nat,
      tradeAmountInner 7 4 price = .ok (buy, sell) ∧
      buy ≤ 7 ∧ (sell : Int) = buy * price.raw / 2 ^ 48 ∧ sell ≤ 4 ∧ (0 < buy ↔ 0 < sell) ∧
      ∀ b : Nat, b ≤ 7 → b * price.raw / 2 ^ 48 ≤ (4 : Nat) → b * price.raw / 2 ^ 48 ≤ sell :=
  ⟨by decide +kernel, tradeAmountInner_exact (by decide) (by decide) (by decide) (by decide)⟩

/-- What a swap allows to be traded when its owner has these balances. -/
structure TokenConditionalSwap.Allows (swap : TokenConditionalSwap) (price : I80F48)
    (buyBalance sellBalance : I80F48) (buyBank sellBank : Bank) (buy sell : Nat) : Prop where
  bought_le : swap.bought + buy ≤ swap.maxBuy
  sold_le : swap.sold + sell ≤ swap.maxSell
  sell_eq : (sell : Int) = buy * price.raw / 2 ^ 48
  /-- without deposits, a borrow is paid back but for less than a native token -/
  buy_lt : swap.mayDeposit buyBank = false → (buy : Int) * 2 ^ 48 < max (-buyBalance.raw) 0 + 2 ^ 48
  /-- without borrows, no more is sold than there is -/
  sell_le : swap.mayBorrow sellBank = false → (sell : Int) * 2 ^ 48 ≤ max sellBalance.raw 0

section Allows

variable {swap : TokenConditionalSwap} {buyBalance sellBalance : I80F48} {buyBank sellBank : Bank}

theorem clampToU64_ceil_neg {x y z : I80F48} (hy : x.neg = (.ok y : Exec I80F48))
    (hz : y.ceil = (.ok z : Exec I80F48)) :
    (clampToU64 z : Int) * 2 ^ 48 < max (-x.raw) 0 + 2 ^ 48 := by
  rw [Fixed.neg_eq_ok] at hy
  rw [Fixed.ceil_eq_ok, hy] at hz
  unfold clampToU64 Fixed.toInt
  omega

theorem clampToU64_floor {x y : I80F48} (hy : x.floor = (.ok y : Exec I80F48)) :
    (clampToU64 y : Int) * 2 ^ 48 ≤ max x.raw 0 := by
  rw [Fixed.floor_eq_ok] at hy
  unfold clampToU64 Fixed.toInt
  omega

theorem subAmount_yields {x y : Nat} (h : y ≤ x) :
    Yields q (subAmount x y : Exec Nat) fun n => n + y = x := by
  unfold subAmount
  rw [if_pos h]
  exact pure (Nat.sub_add_cancel h)

theorem maxBuyForPosition_yields (hq : q.arithmetic = false) (h : swap.bought ≤ swap.maxBuy) :
    Yields q (swap.maxBuyForPosition buyBalance buyBank) fun n => swap.bought + n ≤ swap.maxBuy ∧
      (swap.mayDeposit buyBank = false → (n : Int) * 2 ^ 48 < max (-buyBalance.raw) 0 + 2 ^ 48) := by
  refine (subAmount_yields h).bind fun remaining hremaining => ?_
  refine bind (P := fun allowed : Nat => swap.mayDeposit buyBank = false →
    (allowed : Int) * 2 ^ 48 < max (-buyBalance.raw) 0 + 2 ^ 48) ?_ ?_
  · refine ite (fun hmay => ?_) fun _ => ?_
    · exact pure fun hnot => absurd hmay (by simp [hnot])
    · refine bind_of (by simp [hq]) fun y hy => bind_of (by simp [hq]) fun z hz => ?_
      exact pure fun _ => clampToU64_ceil_neg hy hz
  · intro allowed hallowed
    refine pure ⟨by omega, fun hnot => ?_⟩
    have hlt := hallowed hnot
    omega

theorem maxSellForPosition_yields (hq : q.arithmetic = false) (h : swap.sold ≤ swap.maxSell) :
    Yields q (swap.maxSellForPosition sellBalance sellBank) fun n => swap.sold + n ≤ swap.maxSell ∧
      (swap.mayBorrow sellBank = false → (n : Int) * 2 ^ 48 ≤ max sellBalance.raw 0) := by
  refine (subAmount_yields h).bind fun remaining hremaining => ?_
  refine bind (P := fun allowed : Nat => swap.mayBorrow sellBank = false →
    (allowed : Int) * 2 ^ 48 ≤ max sellBalance.raw 0) ?_ ?_
  · refine ite (fun hmay => ?_) fun _ => ?_
    · exact pure fun hnot => absurd hmay (by simp [hnot])
    · refine bind_of (by simp [hq]) fun y hy => ?_
      exact pure fun _ => clampToU64_floor hy
  · intro allowed hallowed
    refine pure ⟨by omega, fun hnot => ?_⟩
    have hle := hallowed hnot
    omega

/-- What is traded is allowed, whatever the limits of the liqor are. -/
theorem tradeAmount_yields (hq : q.arithmetic = false) (hprice : .zero ≤ price)
    (hbought : swap.bought ≤ swap.maxBuy) (hsold : swap.sold ≤ swap.maxSell)
    (maxBuy maxSell : Nat) (liqorBuy liqorSell : I80F48) :
    Yields q (swap.tradeAmount price maxBuy maxSell buyBalance sellBalance liqorBuy liqorSell buyBank
      sellBank) fun r => swap.Allows price buyBalance sellBalance buyBank sellBank r.1 r.2 := by
  refine (maxBuyForPosition_yields hq hbought).bind fun toBuy hbuy => ?_
  refine bind_of (by simp [hq]) fun liqorMaxBuy _ => ?_
  refine (maxSellForPosition_yields hq hsold).bind fun toSell hsell => ?_
  refine bind_of (by simp [hq]) fun liqorMaxSell _ => ?_
  refine (tradeAmountInner_yields hq hprice).imp fun r hr => ?_
  have hbuyLe := hr.buy_le
  have hsellLe := hr.sell_le
  refine ⟨by omega, by omega, hr.sell_eq, fun hnot => ?_, fun hnot => ?_⟩
  · have hlt := hbuy.2 hnot
    omega
  · have hle := hsell.2 hnot
    omega

end Allows

end MangoV4
