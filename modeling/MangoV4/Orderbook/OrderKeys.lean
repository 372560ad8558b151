/-
  MangoV4.Orderbook.OrderKeys

  Order keys realise price-time priority.

  The price data of a tree is ordered as the prices it stands for, and can be
  read back.  A key is its price data followed by the sequence number, inverted
  for bids, so that in the order of its side the better price comes first, and
  of two equal prices the one placed first.
-/

import MangoV4.Orderbook.BookSideOrders

namespace MangoV4

open Lib Lib.Exec BitVec

/-! ## Prices of the two trees -/

namespace BookSideOrderTree

/-- Prices that orders can have: lots of at least one, or any offset. -/
def Holds : BookSideOrderTree → Int → Prop
  | .fixed, price => 1 ≤ price ∧ price ≤ I64_MAX
  | .oraclePegged, offset => I64_MIN ≤ offset ∧ offset ≤ I64_MAX

/-- Price data of a fixed price or of an offset. -/
def dataOf : BookSideOrderTree → Int → Exec (BitVec 64)
  | .fixed, price => fixedPriceData price
  | .oraclePegged, offset => .ok (oraclePeggedPriceData offset)

/-- The fixed price or the offset that price data stands for. -/
def priceOf : BookSideOrderTree → BitVec 64 → Exec Int
  | .fixed, data => fixedPriceLots data
  | .oraclePegged, data => .ok (oraclePeggedPriceOffset data)

/-- The data of the price zero. -/
def origin : BookSideOrderTree → Int
  | .fixed => 0
  | .oraclePegged => 2 ^ 63

variable {c : BookSideOrderTree} {p q : Int} {d e : BitVec 64}

/-- Price data is the price, counted from the origin. -/
theorem dataOf_eq (h : c.Holds p) :
    ∃ data, c.dataOf p = .ok data ∧ (data.toNat : Int) = p + c.origin := by
  cases c with
  | fixed =>
    have hmin : 1 ≤ p := h.1
    have hmax : p ≤ 2 ^ 63 - 1 := h.2
    refine ⟨BitVec.ofInt 64 p, ?_, ?_⟩
    · rw [dataOf, fixedPriceData, decide_eq_true hmin]
      rfl
    · rw [toNat_ofInt64 (by omega) (by omega), origin, add_zero]
  | oraclePegged =>
    have hmin : -(2 ^ 63) ≤ p := h.1
    have hmax : p ≤ 2 ^ 63 - 1 := h.2
    refine ⟨_, rfl, ?_⟩
    rw [oraclePeggedPriceData, BitVec.toNat_add, BitVec.toNat_ofInt, BitVec.toNat_ofNat, origin]
    omega

theorem data_toNat (h : c.Holds p) (hd : c.dataOf p = .ok d) : (d.toNat : Int) = p + c.origin := by
  obtain ⟨data, hdata, hvalue⟩ := dataOf_eq h
  obtain rfl := ok_unique hd hdata
  exact hvalue

theorem priceOf_dataOf (h : c.Holds p) (hd : c.dataOf p = .ok d) : c.priceOf d = .ok p := by
  have hvalue := data_toNat h hd
  cases c with
  | fixed =>
    have hvalue : (d.toNat : Int) = p := hvalue.trans (add_zero p)
    rw [priceOf, fixedPriceLots, hvalue, decide_eq_true h.2]
    rfl
  | oraclePegged =>
    rw [priceOf, oraclePeggedPriceOffset_eq, hvalue, origin, add_sub_cancel_right]

/-- Every price that can be read back has the data it was read from. -/
theorem dataOf_priceOf (h : c.Holds p) (hp : c.priceOf d = .ok p) : c.dataOf p = .ok d := by
  obtain ⟨data, hdata, hvalue⟩ := dataOf_eq h
  rw [hdata]
  refine congrArg Except.ok (eq_of_toNat_eq ?_)
  cases c with
  | fixed =>
    obtain ⟨_, -, hp⟩ := of_bind hp
    have hp : (d.toNat : Int) = p := ok_inj hp
    rw [origin] at hvalue
    omega
  | oraclePegged =>
    have hp : oraclePeggedPriceOffset d = p := ok_inj hp
    rw [oraclePeggedPriceOffset_eq] at hp
    rw [origin] at hvalue
    omega

theorem data_lt_iff (hp : c.Holds p) (hq : c.Holds q) (hd : c.dataOf p = .ok d)
    (he : c.dataOf q = .ok e) : d < e ↔ p < q := by
  have hdata := data_toNat hp hd
  have hdata' := data_toNat hq he
  rw [lt_def]
  omega

end BookSideOrderTree

/-! ## Keys -/

open BookSideOrderTree

/-- The better price data comes first, then the smaller sequence number. -/
theorem isBetterKey_newNodeKey (side : Side) (d e s t : BitVec 64) :
    isBetterKey side (newNodeKey side d s) (newNodeKey side e t) = true ↔
      side.isPriceBetter d.toNat e.toNat = true ∨ d.toNat = e.toNat ∧ s < t := by
  cases side with
  | bid =>
    simp only [isBetterKey, Side.isPriceBetter, decide_eq_true_eq, lt_def, newNodeKey_toNat,
      seqPart]
    omega
  | ask =>
    simp only [isBetterKey, Side.isPriceBetter, decide_eq_true_eq, lt_def, newNodeKey_toNat,
      seqPart]
    omega

/-- Prices and price data correspond, in their order, and keys order by price and
    then by time.  Two orders of one side never have the same key, and two orders
    of different sides not before the sequence number reaches `2 ^ 63`. -/
theorem orderKeys_priceTime :
    (∀ c p, Holds c p → ∃ d, c.dataOf p = .ok d ∧ c.priceOf d = .ok p) ∧
    (∀ c p d, Holds c p → c.priceOf d = .ok p → c.dataOf p = .ok d) ∧
    (∀ d, ∃ offset, Holds .oraclePegged offset ∧ oraclePeggedPriceData offset = d) ∧
    (∀ c p q d e, Holds c p → Holds c q → c.dataOf p = .ok d → c.dataOf q = .ok e →
      (d < e ↔ p < q) ∧ ∀ side s t,
        isBetterKey side (newNodeKey side d s) (newNodeKey side e t) = true ↔
          side.isPriceBetter p q = true ∨ p = q ∧ s < t) ∧
    (∀ side d e s t, s ≠ t → newNodeKey side d s ≠ newNodeKey side e t) ∧
    ∀ side side' d e s t, side ≠ side' → s.toNat < 2 ^ 63 → t.toNat < 2 ^ 63 →
      newNodeKey side d s ≠ newNodeKey side' e t := by
  refine ⟨?_, ?_, ?_, ?_, ?_, ?_⟩
  · intro c p hp
    obtain ⟨d, hd, -⟩ := dataOf_eq hp
    exact ⟨d, hd, priceOf_dataOf hp hd⟩
  · intro c p d hp hd
    exact dataOf_priceOf hp hd
  · intro d
    have hoffset := oraclePeggedPriceOffset_eq d
    have hholds : Holds .oraclePegged (oraclePeggedPriceOffset d) := by
      simp only [Holds, I64_MIN, I64_MAX]
      omega
    exact ⟨_, hholds, ok_inj (dataOf_priceOf hholds rfl)⟩
  · intro c p q d e hp hq hd he
    refine ⟨data_lt_iff hp hq hd he, fun side s t => ?_⟩
    have hdata := data_toNat hp hd
    have hdata' := data_toNat hq he
    rw [isBetterKey_newNodeKey]
    cases side with
    | bid =>
      simp only [Side.isPriceBetter, decide_eq_true_eq, lt_def]
      omega
    | ask =>
      simp only [Side.isPriceBetter, decide_eq_true_eq, lt_def]
      omega
  · intro side d e s t hne heq
    exact hne (newNodeKey_inj heq).2
  · intro side side' d e s t hside hs ht
    exact newNodeKey_ne_of_side hside d e hs ht

end MangoV4
