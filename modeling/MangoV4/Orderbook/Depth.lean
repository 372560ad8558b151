/-
  MangoV4.Orderbook.Depth

  What an order would be filled at (`matched_amount`), and how much an order has
  to ask for to be filled at an amount (`matched_quantity`).

  Both walk up the valid orders of a book side with two running sums.  Off the
  book, on a list of levels, they are `amountAt` and `quantityAt`.  The second
  takes off the lots that are too much, rounded up, and so ends one lot short
  unless the amount is reached at a whole lot of the last order.
-/

import MangoV4.Orderbook.Crossing

namespace MangoV4

open Lib Lib.Exec List BookSide BookSideIter

namespace BookSide

/-- The loop of both functions: the lots and quote lots so far, until `reached`
    returns a result for them and the order they end with. -/
def depthLoop (t : OrderTreeNodes) (reached : Int → Int → Int → Exec (Option Int)) :
    Nat → BookSideIter → Int → Int → Exec (Option Int)
  | 0, _, _, _ => diverge
  | fuel + 1, it, sumQty, sumAmt => do
    match ← it.next t with
    | (none, _) => return none
    | (some order, it) =>
      -- `iter_valid` passes over orders that are not valid
      if !order.isValid then depthLoop t reached fuel it sumQty sumAmt
      else
        let sumQty ← checkI64 (sumQty + order.node.quantity)
        let sumAmt ← checkI64 (sumAmt + (← checkI64 (order.node.quantity * order.priceLots)))
        match ← reached sumQty sumAmt order.priceLots with
        | some r => return some r
        | none => depthLoop t reached fuel it sumQty sumAmt

/-- The amount, if there are `quantity` lots. -/
def amountReached (quantity sumQty sumAmt priceLots : Int) : Exec (Option Int) := do
  let extraQty ← checkI64 (sumQty - quantity)
  if 0 ≤ extraQty then return some (← checkI64 (sumAmt - (← checkI64 (extraQty * priceLots))))
  else return none

/-- The quantity, if there are `amount` quote lots. -/
def quantityReached (amount sumQty sumAmt priceLots : Int) : Exec (Option Int) := do
  let extraAmt ← checkI64 (sumAmt - amount)
  if 0 ≤ extraAmt then
    -- adding n-1 before dividing through n to force rounding up
    let rounded ← divI64 (← checkI64 ((← checkI64 (extraAmt + priceLots)) - 1)) priceLots
    return some (← checkI64 (sumQty - rounded))
  else return none

/-- Walk up the book given base units and return the amount in quote lots an
    order would be filled at, if there is enough on the book. -/
def matchedAmount (b : BookSide) (quantity : Int) (nowTs : Nat) (oraclePriceLots : Int) :
    Exec (Option Int) :=
  if quantity ≤ 0 then .ok none
  else do
    let it ← b.iterAllIncludingInvalid nowTs oraclePriceLots
    depthLoop b.nodes (amountReached quantity) (2 * MAX_ORDERTREE_NODES) it 0 0

/-- Walk up the book given quote units and return the quantity in base lots an
    order would need to request to match at least the requested amount, if there
    is enough on the book. -/
def matchedQuantity (b : BookSide) (amount : Int) (nowTs : Nat) (oraclePriceLots : Int) :
    Exec (Option Int) :=
  if amount ≤ 0 then .ok none
  else do
    let it ← b.iterAllIncludingInvalid nowTs oraclePriceLots
    depthLoop b.nodes (quantityReached amount) (2 * MAX_ORDERTREE_NODES) it 0 0

end BookSide

/-! ## Levels -/

/-- Base lots at a price. -/
structure Level where
  quantity : Int
  price : Int

namespace Level

/-- Quote lots of the whole level. -/
def worth (l : Level) : Int := l.quantity * l.price

def Positive (l : Level) : Prop := 0 < l.quantity ∧ 0 < l.price

/-- What an order for `quantity` lots is filled at. -/
def amountAt : List Level → Int → Option Int
  | [], _ => none
  | l :: levels, quantity =>
    if quantity ≤ l.quantity then some (quantity * l.price)
    else (amountAt levels (quantity - l.quantity)).map (l.worth + ·)

/-- As `matched_amount` has it: there is no order for no lots. -/
def matched (levels : List Level) (quantity : Int) : Option Int :=
  if quantity ≤ 0 then none else amountAt levels quantity

/-- The lots that `matched_quantity` returns: those of the last level are rounded
    down. -/
def quantityAt : List Level → Int → Option Int
  | [], _ => none
  | l :: levels, amount =>
    if amount ≤ l.worth then some (amount / l.price)
    else (quantityAt levels (amount - l.worth)).map (l.quantity + ·)

/-- The amount is reached at a whole lot of some level, or not at all. -/
def AtWholeLot : List Level → Int → Prop
  | [], _ => True
  | l :: levels, amount =>
    if amount ≤ l.worth then l.price ∣ amount else AtWholeLot levels (amount - l.worth)

/-- `quantity` is the least that is filled at `amount` or more. -/
def Least (levels : List Level) (amount quantity : Int) : Prop :=
  (∃ a, matched levels quantity = some a ∧ amount ≤ a) ∧
    (quantity = 1 ∨ ∃ a, matched levels (quantity - 1) = some a ∧ a < amount)

variable {l : Level} {levels : List Level} {quantity sumQty sumAmt price : Int}

theorem amountAt_cons_of_le
    (h : quantity ≤ l.quantity) : amountAt (l :: levels) quantity = some (quantity * l.price) :=
  if_pos h

theorem amountAt_cons_of_lt (h : l.quantity < quantity) : amountAt (l :: levels) quantity =
      (amountAt levels (quantity - l.quantity)).map (l.worth + ·) :=
  if_neg (not_le.mpr h)

/-- A level is passed if the amount is not reached on it. -/
theorem least_cons_iff {amount : Int}
    (hl : l.Positive) (hlt : l.worth < amount) (hquantity : 0 ≤ quantity) :
    Least (l :: levels) amount (l.quantity + quantity) ↔ Least levels (amount - l.worth) quantity := by
  obtain ⟨hpos, -⟩ := hl
  have hworth : matched (l :: levels) l.quantity = some l.worth := by
    rw [matched, if_neg (by omega), amountAt_cons_of_le le_rfl]
    rfl
  have hpast : ∀ n, 0 < n → matched (l :: levels) (l.quantity + n) =
      (matched levels n).map (l.worth + ·) := by
    intro n hn
    rw [matched, if_neg (by omega), amountAt_cons_of_lt (by omega), matched, if_neg (by omega),
      add_sub_cancel_left]
  rcases hquantity.eq_or_lt with rfl | hq
  · -- no lots of the further levels are too few
    constructor
    · rintro ⟨⟨a, ha, hle⟩, -⟩
      rw [add_zero, hworth] at ha
      obtain rfl := Option.some.inj ha
      omega
    · rintro ⟨⟨a, ha, -⟩, -⟩
      cases ha
  · have hfirst : (∃ a, matched (l :: levels) (l.quantity + quantity) = some a ∧ amount ≤ a) ↔
        ∃ a, matched levels quantity = some a ∧ amount - l.worth ≤ a := by
      rw [hpast quantity hq]
      constructor
      · rintro ⟨a, ha, hle⟩
        obtain ⟨a', ha', rfl⟩ := Option.map_eq_some_iff.mp ha
        exact ⟨a', ha', by omega⟩
      · rintro ⟨a, ha, hle⟩
        exact ⟨l.worth + a, by rw [ha]; rfl, by omega⟩
    have hsecond : (l.quantity + quantity = 1 ∨
        ∃ a, matched (l :: levels) (l.quantity + quantity - 1) = some a ∧ a < amount) ↔
        (quantity = 1 ∨ ∃ a, matched levels (quantity - 1) = some a ∧ a < amount - l.worth) := by
      rcases (show 1 ≤ quantity from hq).eq_or_lt with rfl | hq'
      · exact ⟨fun _ => .inl rfl, fun _ => .inr ⟨l.worth, by rw [add_sub_cancel_right, hworth], hlt⟩⟩
      · rw [add_sub_assoc, hpast (quantity - 1) (by omega)]
        constructor
        · rintro (hone | ⟨a, ha, hle⟩)
          · omega
          · obtain ⟨a', ha', rfl⟩ := Option.map_eq_some_iff.mp ha
            exact .inr ⟨a', ha', by omega⟩
        · rintro (hone | ⟨a, ha, hle⟩)
          · omega
          · exact .inr ⟨l.worth + a, by rw [ha]; rfl, by omega⟩
    exact and_congr hfirst hsecond

theorem quantityAt_nonneg (hlevels : ∀ l ∈ levels, l.Positive)
    {amount : Int} (hamount : 0 < amount) (h : quantityAt levels amount = some quantity) :
    0 ≤ quantity := by
  induction levels generalizing amount quantity with
  | nil => cases h
  | cons l levels ih =>
    obtain ⟨hq, hp⟩ := hlevels l mem_cons_self
    rw [quantityAt] at h
    split at h
    · obtain rfl := Option.some.inj h
      exact Int.ediv_nonneg hamount.le hp.le
    · obtain ⟨rest, hrest, rfl⟩ := Option.map_eq_some_iff.mp h
      have := ih (fun l hl => hlevels l (mem_cons_of_mem _ hl)) (by omega) hrest
      omega

/-- What `matched_quantity` returns is the least quantity exactly if the amount is
    reached at a whole lot. -/
theorem least_quantityAt_iff (hlevels : ∀ l ∈ levels, l.Positive)
    {amount : Int} (hamount : 0 < amount) (h : quantityAt levels amount = some quantity) :
    Least levels amount quantity ↔ AtWholeLot levels amount := by
  induction levels generalizing amount quantity with
  | nil => cases h
  | cons l levels ih =>
    have hl := hlevels l mem_cons_self
    have hrest : ∀ l ∈ levels, l.Positive := fun l hl => hlevels l (mem_cons_of_mem _ hl)
    rw [quantityAt] at h
    rw [AtWholeLot]
    split at h
    · rename_i hle
      obtain rfl := Option.some.inj h
      rw [if_pos hle]
      obtain ⟨hq, hp⟩ := hl
      have hmul := Int.ediv_mul_le amount hp.ne'
      have hlots : amount / l.price ≤ l.quantity := Int.ediv_le_of_le_mul hp hle
      constructor
      · -- as many lots are worth no more than the amount
        rintro ⟨⟨a, ha, hle'⟩, -⟩
        unfold matched at ha
        split at ha
        · cases ha
        · rw [amountAt_cons_of_le hlots] at ha
          obtain rfl := Option.some.inj ha
          exact Dvd.intro_left _ (le_antisymm hmul hle')
      · intro hdvd
        have hexact := Int.ediv_mul_cancel hdvd
        have hone : 1 ≤ amount / l.price := by
          rcases lt_or_ge 0 (amount / l.price) with hpos | hneg
          · exact hpos
          · have hnonpos := mul_nonpos_of_nonpos_of_nonneg hneg hp.le
            omega
        refine ⟨⟨amount, ?_, le_rfl⟩, ?_⟩
        · rw [matched, if_neg (by omega), amountAt_cons_of_le hlots, hexact]
        · rcases hone.eq_or_lt with heq | hlt
          · exact .inl heq.symm
          · refine .inr ⟨(amount / l.price - 1) * l.price, ?_, ?_⟩
            · rw [matched, if_neg (by omega), amountAt_cons_of_le (by omega)]
            · rw [sub_one_mul, hexact]
              omega
    · rename_i hlt
      obtain ⟨rest, hquantity, rfl⟩ := Option.map_eq_some_iff.mp h
      have hnonneg := quantityAt_nonneg hrest (by omega) hquantity
      rw [if_neg hlt, least_cons_iff hl (not_le.mp hlt) hnonneg]
      exact ih hrest (by omega) hquantity

/-- Quote lots of all levels. -/
def totalWorth (levels : List Level) : Int := (levels.map worth).sum

theorem totalWorth_nonneg (hlevels : ∀ l ∈ levels, l.Positive) :
    0 ≤ totalWorth levels := by
  refine sum_nonneg fun n hn => ?_
  obtain ⟨l, hl, rfl⟩ := mem_map.mp hn
  obtain ⟨hq, hp⟩ := hlevels l hl
  exact mul_nonneg hq.le hp.le

theorem totalWorth_cons (l : Level) (levels : List Level) :
    totalWorth (l :: levels) = l.worth + totalWorth levels := rfl

theorem quantityAt_eq_none_iff (hlevels : ∀ l ∈ levels, l.Positive)
    {amount : Int} (hamount : 0 < amount) :
    quantityAt levels amount = none ↔ totalWorth levels < amount := by
  induction levels generalizing amount with
  | nil => exact ⟨fun _ => hamount, fun _ => rfl⟩
  | cons l levels ih =>
    have hrest : ∀ l ∈ levels, l.Positive := fun l hl => hlevels l (mem_cons_of_mem _ hl)
    have hnonneg := totalWorth_nonneg hrest
    rw [quantityAt, totalWorth_cons]
    split
    · rename_i hle
      constructor
      · intro h
        cases h
      · intro h
        omega
    · rename_i hlt
      rw [Option.map_eq_none_iff, ih hrest (by omega)]
      omega

theorem atWholeLot_of_lt (hlevels : ∀ l ∈ levels, l.Positive) {amount : Int}
    (h : totalWorth levels < amount) : AtWholeLot levels amount := by
  induction levels generalizing amount with
  | nil => trivial
  | cons l levels ih =>
    have hrest : ∀ l ∈ levels, l.Positive := fun l hl => hlevels l (mem_cons_of_mem _ hl)
    have hnonneg := totalWorth_nonneg hrest
    rw [totalWorth_cons] at h
    rw [AtWholeLot, if_neg (by omega)]
    exact ih hrest (by omega)

/-! ## The loop on levels -/

/-- The loop on the levels of the valid orders. -/
def walk (reached : Int → Int → Int → Exec (Option Int)) :
    List Level → Int → Int → Exec (Option Int)
  | [], _, _ => .ok none
  | l :: levels, sumQty, sumAmt => do
    let sumQty ← checkI64 (sumQty + l.quantity)
    let sumAmt ← checkI64 (sumAmt + (← checkI64 (l.quantity * l.price)))
    match ← reached sumQty sumAmt l.price with
    | some r => return some r
    | none => walk reached levels sumQty sumAmt

variable {reached : Int → Int → Int → Exec (Option Int)} {r found : Option Int} {n : Int}

/-- What one round of the loop computes. -/
theorem walk_cons_eq_ok (h : walk reached (l :: levels) sumQty sumAmt = .ok r) :
    (-(2 : Int) ^ 63 ≤ sumQty + l.quantity ∧ sumQty + l.quantity < 2 ^ 63) ∧
    (-(2 : Int) ^ 63 ≤ l.worth ∧ l.worth < 2 ^ 63) ∧
    (-(2 : Int) ^ 63 ≤ sumAmt + l.worth ∧ sumAmt + l.worth < 2 ^ 63) ∧
    ∃ found, reached (sumQty + l.quantity) (sumAmt + l.worth) l.price = .ok found ∧
      match found with
      | some n => r = some n
      | none => walk reached levels (sumQty + l.quantity) (sumAmt + l.worth) = .ok r := by
  obtain ⟨hqty', h⟩ := of_checkI64 h
  obtain ⟨hworth', h⟩ := of_checkI64 h
  obtain ⟨hamt', h⟩ := of_checkI64 h
  obtain ⟨found, hfound, h⟩ := of_bind h
  refine ⟨hqty', hworth', hamt', found, hfound, ?_⟩
  cases found with
  | none => exact h
  | some n => exact (ok_inj h).symm

/-- The lots that are too much, rounded up, leave the lots of the amount, rounded
    down. -/
theorem sub_roundedUp {amount : Int} (hp : 0 < price) :
    quantity - (quantity * price - amount + price - 1) / price = amount / price := by
  have hsplit : quantity * price - amount + price - 1 = price - 1 - amount + quantity * price := by
    ring
  have hmod := Int.emod_nonneg amount hp.ne'
  have hmod' := Int.emod_lt_of_pos amount hp
  have hdiv := Int.emod_add_mul_ediv amount price
  have hquotient : (price - 1 - amount) / price = -(amount / price) := by
    refine ((Int.ediv_emod_unique (r := price - 1 - amount % price) hp).mpr ⟨?_, ?_, ?_⟩).1
    · rw [mul_neg]
      omega
    · omega
    · omega
  rw [hsplit, Int.add_mul_ediv_right _ _ hp.ne', hquotient]
  omega

theorem quantityReached_eq_ok {amount : Int}
    (hp : 0 < price) (h : quantityReached amount sumQty sumAmt price = .ok found) :
    if amount ≤ sumAmt then found = some (sumQty - (sumAmt - amount + price - 1) / price) ∧
        sumQty - (sumAmt - amount + price - 1) / price < 2 ^ 63
      else found = none := by
  obtain ⟨-, h⟩ := of_checkI64 h
  split at h
  · rename_i hnonneg
    rw [if_pos (by omega)]
    obtain ⟨-, h⟩ := of_checkI64 h
    obtain ⟨-, h⟩ := of_checkI64 h
    obtain ⟨rounded, hrounded, h⟩ := of_bind h
    obtain ⟨-, rfl⟩ := divI64_eq_ok hrounded
    obtain ⟨hrange, h⟩ := of_checkI64 h
    obtain rfl := ok_inj h
    rw [Int.tdiv_eq_ediv_of_nonneg (by omega)] at hrange ⊢
    exact ⟨rfl, hrange.2⟩
  · rename_i hneg
    rw [if_neg (by omega)]
    exact (ok_inj h).symm

/-- `matched_quantity` on levels. -/
theorem walk_quantityReached (hlevels : ∀ l ∈ levels, l.Positive) {amount : Int}
    (h : walk (quantityReached amount) levels sumQty sumAmt = .ok r) :
    r = (quantityAt levels (amount - sumAmt)).map (sumQty + ·) := by
  induction levels generalizing sumQty sumAmt with
  | nil => exact (ok_inj h).symm
  | cons l levels ih =>
    obtain ⟨-, -, -, found, hfound, h⟩ := walk_cons_eq_ok h
    have hp := (hlevels l mem_cons_self).2
    have hreached := quantityReached_eq_ok hp hfound
    rw [quantityAt]
    split at hreached
    · rename_i hle
      rw [hreached.1] at h
      rw [if_pos (by omega)]
      have hdown : l.quantity -
          (l.quantity * l.price - (amount - sumAmt) + l.price - 1) / l.price =
            (amount - sumAmt) / l.price := sub_roundedUp hp
      have hextra : sumAmt + l.worth - amount + l.price - 1 =
          l.quantity * l.price - (amount - sumAmt) + l.price - 1 := by
        unfold worth
        ring
      rw [h, hextra, ← hdown]
      show some _ = some (sumQty + _)
      congr 1
      ring
    · rename_i hlt
      rw [hreached] at h
      rw [if_neg (by omega),
        ih (fun l hl => hlevels l (mem_cons_of_mem _ hl)) h, Option.map_map,
        sub_add_eq_sub_sub]
      congr 1
      funext n
      exact add_assoc ..

theorem walk_cons_of_range
    (hqty : -(2 : Int) ^ 63 ≤ sumQty + l.quantity ∧ sumQty + l.quantity < 2 ^ 63)
    (hworth : -(2 : Int) ^ 63 ≤ l.worth ∧ l.worth < 2 ^ 63)
    (hamt : -(2 : Int) ^ 63 ≤ sumAmt + l.worth ∧ sumAmt + l.worth < 2 ^ 63)
    (hfound : reached (sumQty + l.quantity) (sumAmt + l.worth) l.price = .ok found) :
    walk reached (l :: levels) sumQty sumAmt =
      found.elim (walk reached levels (sumQty + l.quantity) (sumAmt + l.worth))
        fun n => .ok (some n) := by
  have hqty' : (checkI64 (sumQty + l.quantity) : Exec Int) = .ok (sumQty + l.quantity) :=
    checkI64_eq_ok.mpr ⟨hqty, rfl⟩
  have hworth' : (checkI64 (l.quantity * l.price) : Exec Int) = .ok l.worth :=
    checkI64_eq_ok.mpr ⟨hworth, rfl⟩
  have hamt' : (checkI64 (sumAmt + l.worth) : Exec Int) = .ok (sumAmt + l.worth) :=
    checkI64_eq_ok.mpr ⟨hamt, rfl⟩
  rw [walk, hqty', ok_bind, hworth', ok_bind, hamt', ok_bind, hfound, ok_bind]
  cases found <;> rfl

theorem amountReached_eq (hextra : -(2 : Int) ^ 63 ≤ sumQty - quantity ∧ sumQty - quantity < 2 ^ 63)
    (hprice : 0 ≤ sumQty - quantity → (sumQty - quantity) * price < 2 ^ 63 ∧
      0 ≤ (sumQty - quantity) * price ∧ (sumQty - quantity) * price ≤ sumAmt)
    (hamt : sumAmt < 2 ^ 63) :
    amountReached quantity sumQty sumAmt price =
      .ok (if quantity ≤ sumQty then some (sumAmt - (sumQty - quantity) * price) else none) := by
  have hextra' : (checkI64 (sumQty - quantity) : Exec Int) = .ok (sumQty - quantity) :=
    checkI64_eq_ok.mpr ⟨hextra, rfl⟩
  unfold amountReached
  rw [hextra', ok_bind]
  by_cases hle : quantity ≤ sumQty
  · obtain ⟨hlt, hnonneg, hworth⟩ := hprice (by omega)
    have hproduct : (checkI64 ((sumQty - quantity) * price) : Exec Int) =
        .ok ((sumQty - quantity) * price) := checkI64_eq_ok.mpr ⟨by omega, rfl⟩
    have hresult : (checkI64 (sumAmt - (sumQty - quantity) * price) : Exec Int) =
        .ok (sumAmt - (sumQty - quantity) * price) := checkI64_eq_ok.mpr ⟨by omega, rfl⟩
    rw [if_pos (by omega), if_pos hle, hproduct, ok_bind, hresult, ok_bind]
    rfl
  · rw [if_neg (by omega), if_neg hle]
    rfl

/-- While `matched_quantity` does not overflow, neither does `matched_amount` for
    what it returns or less. -/
theorem walk_amountReached (hlevels : ∀ l ∈ levels, l.Positive)
    {amount : Int} (hqty : 0 ≤ sumQty) (hamt : 0 ≤ sumAmt)
    (h : walk (quantityReached amount) levels sumQty sumAmt = .ok (some n)) (hlower : sumQty < quantity) (hupper : quantity ≤ n) (hn : n < 2 ^ 63) :
    walk (amountReached quantity) levels sumQty sumAmt =
      .ok ((amountAt levels (quantity - sumQty)).map (sumAmt + ·)) := by
  induction levels generalizing sumQty sumAmt with
  | nil => cases h
  | cons l levels ih =>
    obtain ⟨hqty', hworth', hamt', found, hfound, h⟩ := walk_cons_eq_ok h
    obtain ⟨hq, hp⟩ := hlevels l mem_cons_self
    have hworth : 0 ≤ l.worth := mul_nonneg hq.le hp.le
    have hreached := quantityReached_eq_ok hp hfound
    -- the lots of this level that are too many are worth at most the level
    have hextra : 0 ≤ sumQty + l.quantity - quantity →
        0 ≤ (sumQty + l.quantity - quantity) * l.price ∧
          (sumQty + l.quantity - quantity) * l.price ≤ l.worth := fun hnonneg =>
      ⟨mul_nonneg hnonneg hp.le, mul_le_mul_of_nonneg_right (by omega) hp.le⟩
    have hround : amountReached quantity (sumQty + l.quantity) (sumAmt + l.worth) l.price =
        .ok (if quantity ≤ sumQty + l.quantity then
          some (sumAmt + l.worth - (sumQty + l.quantity - quantity) * l.price) else none) := by
      refine amountReached_eq (by omega) (fun hnonneg => ?_) (by omega)
      obtain ⟨hnonneg, hle⟩ := hextra hnonneg
      omega
    rw [walk_cons_of_range hqty' hworth' hamt' hround]
    by_cases hle : quantity ≤ sumQty + l.quantity
    · rw [if_pos hle, amountAt_cons_of_le (by omega)]
      show Except.ok (some _) = Except.ok (some (sumAmt + (quantity - sumQty) * l.price))
      congr 2
      unfold worth
      ring
    · rw [if_neg hle, amountAt_cons_of_lt (by omega)]
      -- the quantity is not reached on this level, so neither is the amount
      have hnone : found = none := by
        split at hreached
        · rename_i hamount
          rw [hreached.1] at h
          obtain rfl := Option.some.inj h
          have hrounded : 0 ≤ (sumAmt + l.worth - amount + l.price - 1) / l.price :=
            Int.ediv_nonneg (by omega) hp.le
          omega
        · exact hreached
      rw [hnone] at h
      show walk _ levels _ _ = _
      rw [ih (fun l hl => hlevels l (mem_cons_of_mem _ hl)) (by omega) (by omega) h (by omega),
        Option.map_map, sub_add_eq_sub_sub]
      congr 2
      funext m
      exact add_assoc ..

/-- What `matched_quantity` returns fits its type. -/
theorem walk_quantityReached_lt (hlevels : ∀ l ∈ levels, l.Positive) {amount : Int}
    (h : walk (quantityReached amount) levels sumQty sumAmt = .ok (some n)) :
    n < 2 ^ 63 := by
  induction levels generalizing sumQty sumAmt with
  | nil => cases h
  | cons l levels ih =>
    obtain ⟨-, -, -, found, hfound, h⟩ := walk_cons_eq_ok h
    have hreached := quantityReached_eq_ok (hlevels l mem_cons_self).2 hfound
    split at hreached
    · rw [hreached.1] at h
      obtain rfl := Option.some.inj h
      exact hreached.2
    · rw [hreached] at h
      exact ih (fun l hl => hlevels l (mem_cons_of_mem _ hl)) h

end Level

/-! ## On a book side -/

/-- The levels of the valid items. -/
def levelsOf (items : List BookSideIterItem) : List Level :=
  (items.filter BookSideIterItem.isValid).map fun i => ⟨i.node.quantity, i.priceLots⟩

variable {item : BookSideIterItem}

theorem levelsOf_cons_of_valid (items : List BookSideIterItem) (h : item.isValid = true) :
    levelsOf (item :: items) = ⟨item.node.quantity, item.priceLots⟩ :: levelsOf items := by
  unfold levelsOf
  rw [filter_cons_of_pos h, map_cons]

theorem levelsOf_cons_of_invalid (items : List BookSideIterItem)
    (h : item.isValid = false) : levelsOf (item :: items) = levelsOf items := by
  unfold levelsOf
  rw [filter_cons_of_neg (by rw [h]; exact Bool.false_ne_true)]

namespace BookSide

theorem depthLoop_visible {t : OrderTreeNodes} {orderTreeType : OrderTreeType} {nowTs : Nat}
    {oraclePriceLots : Int} (reached : Int → Int → Int → Exec (Option Int))
    (items : List BookSideIterItem) :
    ∀ (fuel : Nat) (it : BookSideIter) (sumQty sumAmt : Int),
      Yields t orderTreeType nowTs oraclePriceLots it items → items.length < fuel →
      depthLoop t reached fuel it sumQty sumAmt = Level.walk reached (levelsOf items) sumQty sumAmt := by
  induction items with
  | nil =>
    intro fuel it sumQty sumAmt hit hfuel
    obtain ⟨fuel, rfl⟩ : ∃ m, fuel = m + 1 := Nat.exists_eq_add_of_le' hfuel
    obtain ⟨it', hrun, -⟩ := hit.next
    simp only [depthLoop, hrun, ok_bind, head?_nil]
    rfl
  | cons item items ih =>
    intro fuel it sumQty sumAmt hit hfuel
    obtain ⟨fuel, rfl⟩ : ∃ m, fuel = m + 1 :=
      Nat.exists_eq_add_of_le' (Nat.le_trans (Nat.succ_pos _) hfuel)
    obtain ⟨it', hrun, hit'⟩ := hit.next
    have hrest := fun sumQty sumAmt => ih fuel it' sumQty sumAmt hit' (Nat.lt_of_succ_lt_succ hfuel)
    simp only [depthLoop, hrun, ok_bind, head?_cons, hrest]
    cases hvalid : item.isValid with
    | true =>
      rw [levelsOf_cons_of_valid items hvalid]
      rfl
    | false =>
      rw [levelsOf_cons_of_invalid items hvalid]
      rfl

variable {b : BookSide} {nowTs : Nat} {oraclePriceLots amount : Int}

/-- Quote lots of all valid orders of the side. -/
def validWorth (b : BookSide) (nowTs : Nat) (oraclePriceLots : Int) : Int :=
  ((b.leaves.filter fun x => restingValid b.side nowTs oraclePriceLots x = true).map fun x =>
    x.2.quantity * restingPrice b.side oraclePriceLots x).sum

/-- `q` is filled at `amount` or more, and one lot less is not. -/
def IsLeast (b : BookSide) (nowTs : Nat) (oraclePriceLots amount q : Int) : Prop :=
  (∃ a, b.matchedAmount q nowTs oraclePriceLots = .ok (some a) ∧ amount ≤ a) ∧
    (q = 1 ∨ ∃ a, b.matchedAmount (q - 1) nowTs oraclePriceLots = .ok (some a) ∧ a < amount)

/-- Ten lots at 3. -/
def tenAsks : BookSide := run exec (zeroed .asks) [.insertLeaf .fixed (.plain .ask 3 10 1 1)]

end BookSide

end MangoV4
