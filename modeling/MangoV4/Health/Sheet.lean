/-
  MangoV4.Health.Sheet

  The balance sheet of an account at oracle prices, without weights
  (`assets_and_liabs` in `health/cache.rs`).

  What the sheet adds up to is said by tokens.  The loop over perp positions
  reads the token info at the place `settle_token_index`, which is a token index
  and not a place: the sheet is right if each settle token stands at the place
  of its number.
-/

import MangoV4.Health.ByToken

namespace MangoV4

open Lib Lib.Exec List

namespace HealthCache

section

variable {N : Type} [Arith N]

/-- Adds a value to the liabilities if `negative`, else to the assets. -/
def enter (sheet : N × N) (negative : Bool) (value : N) : Exec (N × N) :=
  if negative then do return (sheet.1, ← Arith.sub sheet.2 value)
  else do return (← Arith.add sheet.1 value, sheet.2)

def enterToken (sheet : N × N) (tokenInfo : TokenInfo N) : Exec (N × N) := do
  let value ← Arith.mul tokenInfo.balanceSpot tokenInfo.prices.oracle
  enter sheet (decide (tokenInfo.balanceSpot < 0)) value

def enterSerum3 (c : HealthCache N) (sheet : N × N) (serumInfo : Serum3Info N) : Exec (N × N) := do
  let quote ← nth c.tokenInfos serumInfo.quoteInfoIndex
  let base ← nth c.tokenInfos serumInfo.baseInfoIndex
  let assets ← Arith.add sheet.1 (← Arith.mul serumInfo.reservedBase base.prices.oracle)
  let assets ← Arith.add assets (← Arith.mul serumInfo.reservedQuote quote.prices.oracle)
  return (assets, sheet.2)

def enterPerp (c : HealthCache N) (sheet : N × N) (perpInfo : PerpInfo N) : Exec (N × N) := do
  -- a token index, used as a place in the list
  let quotePrice := (← nth c.tokenInfos perpInfo.settleTokenIndex).prices.oracle
  let quotePositionValue ← Arith.mul perpInfo.quote quotePrice
  let sheet ← enter sheet (decide (perpInfo.quote < 0)) quotePositionValue
  let baseNative : N ← Arith.ofInt (← checkI64 (perpInfo.baseLots * perpInfo.baseLotSize))
  let basePositionValue ← Arith.mul (← Arith.mul baseNative perpInfo.basePrices.oracle) quotePrice
  enter sheet (decide (basePositionValue < 0)) basePositionValue

/-- Assets and liabilities, marked to market. -/
def assetsAndLiabs (c : HealthCache N) : Exec (N × N) := do
  let sheet ← c.tokenInfos.foldlM enterToken (0, 0)
  let sheet ← c.serum3Infos.foldlM c.enterSerum3 sheet
  c.perpInfos.foldlM c.enterPerp sheet

end

variable {c : HealthCache ℚ}

/-! ## What an account is worth -/

def oracleOf (c : HealthCache ℚ) (t : TokenIndex) : ℚ := (c.pricesOf t).oracle

def serum3Worth (c : HealthCache ℚ) (s : Serum3Info ℚ) : ℚ :=
  s.reservedBase * c.oracleOf (c.tokenAt s.baseInfoIndex) +
    s.reservedQuote * c.oracleOf (c.tokenAt s.quoteInfoIndex)

def perpWorth (c : HealthCache ℚ) (p : PerpInfo ℚ) : ℚ :=
  (p.quote + ((p.baseLots * p.baseLotSize : Int) : ℚ) * p.basePrices.oracle) *
    c.oracleOf p.settleTokenIndex

/-- Every amount at the oracle price of its token. -/
def worth (c : HealthCache ℚ) : ℚ :=
  (c.tokenInfos.map fun t => t.balanceSpot * c.oracleOf t.tokenIndex).sum +
    (c.serum3Infos.map c.serum3Worth).sum + (c.perpInfos.map c.perpWorth).sum

/-- There is one token info for each token, markets are at tokens of the cache,
    and base positions are in range. -/
structure Formed (c : HealthCache ℚ) : Prop where
  nodup : c.tokenIndices.Nodup
  markets : ∀ s ∈ c.serum3Infos,
    s.baseInfoIndex < c.tokenInfos.length ∧ s.quoteInfoIndex < c.tokenInfos.length
  settles : ∀ p ∈ c.perpInfos, p.settleTokenIndex ∈ c.tokenIndices
  lots : ∀ p ∈ c.perpInfos, -(2 : Int) ^ 63 ≤ p.baseLots * p.baseLotSize ∧
    p.baseLots * p.baseLotSize < (2 : Int) ^ 63

/-! ## What the loops enter -/

/-- The sheet gains `value`. -/
def Enters (f : Exec (ℚ × ℚ)) (sheet : ℚ × ℚ) (value : ℚ) : Prop :=
  ∃ sheet', f = .ok sheet' ∧ sheet'.1 - sheet'.2 = sheet.1 - sheet.2 + value

theorem enter_enters (sheet : ℚ × ℚ) (negative : Bool) (value : ℚ) :
    Enters (enter sheet negative value) sheet value := by
  cases negative with
  | true => exact ⟨(sheet.1, sheet.2 - value), rfl, by ring⟩
  | false => exact ⟨(sheet.1 + value, sheet.2), rfl, by ring⟩

theorem foldlM_enters {α : Type} {f : ℚ × ℚ → α → Exec (ℚ × ℚ)} {value : α → ℚ} {l : List α}
    (hstep : ∀ a ∈ l, ∀ sheet, Enters (f sheet a) sheet (value a)) (sheet : ℚ × ℚ) :
    Enters (l.foldlM f sheet) sheet (l.map value).sum := by
  induction l generalizing sheet with
  | nil => exact ⟨sheet, rfl, (add_zero _).symm⟩
  | cons a l ih =>
    obtain ⟨sheet₁, h₁, hvalue₁⟩ := hstep a (mem_cons_self ..) sheet
    obtain ⟨sheet₂, h₂, hvalue₂⟩ := ih (fun b hb => hstep b (mem_cons_of_mem _ hb)) sheet₁
    refine ⟨sheet₂, ?_, ?_⟩
    · rw [foldlM_cons, h₁, ok_bind, h₂]
    · rw [hvalue₂, hvalue₁, map_cons, sum_cons, add_assoc]

/-- The token info at a place has the oracle price of its token. -/
theorem exists_info_at (hc : c.Formed) {i : Nat} (hi : i < c.tokenInfos.length) :
    ∃ info, nth c.tokenInfos i = .ok info ∧ info.prices.oracle = c.oracleOf (c.tokenAt i) := by
  have hget := getElem?_eq_getElem hi
  refine ⟨c.tokenInfos[i], nth_eq_ok.mpr hget, ?_⟩
  rw [oracleOf, tokenAt_of_info hget, pricesOf_of_info hc.nodup hget]

theorem enterToken_enters (hc : c.Formed) {info : TokenInfo ℚ} (h : info ∈ c.tokenInfos)
    (sheet : ℚ × ℚ) :
    Enters (enterToken sheet info) sheet (info.balanceSpot * c.oracleOf info.tokenIndex) := by
  obtain ⟨i, hi⟩ := mem_iff_getElem?.mp h
  rw [oracleOf, pricesOf_of_info hc.nodup hi]
  exact enter_enters sheet _ _

theorem enterSerum3_enters (hc : c.Formed) {s : Serum3Info ℚ} (h : s ∈ c.serum3Infos)
    (sheet : ℚ × ℚ) : Enters (c.enterSerum3 sheet s) sheet (c.serum3Worth s) := by
  obtain ⟨hbase, hquote⟩ := hc.markets s h
  obtain ⟨base, hbase, hbasePrice⟩ := exists_info_at hc hbase
  obtain ⟨quote, hquote, hquotePrice⟩ := exists_info_at hc hquote
  unfold enterSerum3 serum3Worth
  rw [hquote, ok_bind, hbase, ok_bind, ← hbasePrice, ← hquotePrice]
  exact ⟨_, rfl, by ring⟩

/-- The price is that of the settle token if its place is its number. -/
theorem enterPerp_enters (hc : c.Formed) {p : PerpInfo ℚ} (h : p ∈ c.perpInfos)
    (hplace : c.place p.settleTokenIndex = p.settleTokenIndex) (sheet : ℚ × ℚ) :
    Enters (c.enterPerp sheet p) sheet (c.perpWorth p) := by
  obtain ⟨info, hinfo, htoken⟩ := exists_info (hc.settles p h)
  have hprice : info.prices.oracle = c.oracleOf p.settleTokenIndex := by
    rw [← htoken, oracleOf, pricesOf_of_info hc.nodup hinfo]
  have hlots : (checkI64 (p.baseLots * p.baseLotSize) : Exec Int) = .ok _ :=
    checkI64_eq_ok.mpr ⟨hc.lots p h, rfl⟩
  rw [hplace] at hinfo
  obtain ⟨sheet₁, h₁, hvalue₁⟩ := enter_enters sheet (decide (p.quote < 0))
    (p.quote * info.prices.oracle)
  obtain ⟨sheet₂, h₂, hvalue₂⟩ := enter_enters sheet₁ _
    (((p.baseLots * p.baseLotSize : Int) : ℚ) * p.basePrices.oracle * info.prices.oracle)
  refine ⟨sheet₂, ?_, ?_⟩
  · unfold enterPerp
    rw [nth_eq_ok.mpr hinfo, ok_bind]
    dsimp only
    rw [Rat.arith_mul, ok_bind, h₁, ok_bind, hlots, ok_bind]
    exact h₂
  · rw [hvalue₂, hvalue₁, perpWorth, ← hprice]
    ring

/-- A perp position, and tokens in some order with their prices. -/
def onePerp (tokens : List (TokenIndex × ℚ)) (settleTokenIndex : TokenIndex) :
    HealthCache ℚ where
  tokenInfos := tokens.map fun t => .plain t.1 1 1 ⟨t.2, t.2⟩ 0
  serum3Infos := []
  perpInfos := [⟨settleTokenIndex, 1, 1, 1, 1, 1, 1, 1, 2, 0, 0, -1, ⟨1, 1⟩⟩]

theorem formed_onePerp {tokens : List (TokenIndex × ℚ)} {t : TokenIndex}
    (hnodup : (onePerp tokens t).tokenIndices.Nodup)
    (ht : t ∈ (onePerp tokens t).tokenIndices) : (onePerp tokens t).Formed := by
  refine ⟨hnodup, nofun, ?_, ?_⟩
  · rintro p (_ | ⟨_, ⟨⟩⟩)
    exact ht
  · rintro p (_ | ⟨_, ⟨⟩⟩)
    exact (by decide : -(2 : Int) ^ 63 ≤ 2 * 1 ∧ (2 * 1 : Int) < 2 ^ 63)

end HealthCache

end MangoV4
