/-
  MangoV4.State.Funding

  The quote side of a perp position in exact rational numbers.

  A position owes funding since its settled markers (`fundingOwed`); what it is
  worth in quote is its `equity`, the quote position minus that.  Neither the
  quote position nor unsettled funding is ever rounded: lots are whole numbers.
  `Pays p p' x` says that a function adds `x` to the quote position and leaves
  the markers alone.
-/

import MangoV4.State.PerpPosition
import Mathlib.Tactic.Linarith

namespace MangoV4

open Lib Lib.Exec Fixed

/-- What a fill pays to the party on `side`. -/
def FillEvent.quoteFor (fill : FillEvent) (market : PerpMarket) (side : Side) : ℚ :=
  market.quoteLotSize * (fill.change side).2

/-- The maker fee of a fill. -/
def FillEvent.makerFees (fill : FillEvent) (market : PerpMarket) : ℚ :=
  |fill.quoteFor market fill.takerSide.invertSide| * fill.makerFee.toRat

namespace PerpPosition

/-- The funding that the position still needs to pay. -/
def fundingOwed (p : PerpPosition) (market : PerpMarket) : ℚ :=
  if 0 < p.basePositionLots then
    (market.longFunding.toRat - p.longSettledFunding.toRat) * p.basePositionLots
  else (market.shortFunding.toRat - p.shortSettledFunding.toRat) * p.basePositionLots

/-- The quote position after settling funding. -/
def equity (p : PerpPosition) (market : PerpMarket) : ℚ :=
  p.quotePositionNative.toRat - p.fundingOwed market

/-- All funding is settled. -/
def Settled (p : PerpPosition) (market : PerpMarket) : Prop :=
  p.longSettledFunding = market.longFunding ∧ p.shortSettledFunding = market.shortFunding

/-- `p'` has `x` more in quote than `p`, and the same funding markers. -/
structure Pays (p p' : PerpPosition) (x : ℚ) : Prop where
  quote : p'.quotePositionNative.toRat = p.quotePositionNative.toRat + x
  longSettled : p'.longSettledFunding = p.longSettledFunding
  shortSettled : p'.shortSettledFunding = p.shortSettledFunding

section Pays

variable {p p' p₁ : PerpPosition} {market market' : PerpMarket} {x y : ℚ}

theorem Books.pays {l : Ledger} (h : p.Books p' l x) : p.Pays p' x := ⟨h.2.1, h.2.2.1, h.2.2.2⟩

/-- The same markers and markets with the same funding. -/
theorem fundingOwed_congr (hbase : p'.basePositionLots = p.basePositionLots)
    (hlong : p'.longSettledFunding = p.longSettledFunding)
    (hshort : p'.shortSettledFunding = p.shortSettledFunding)
    (hmarketLong : market'.longFunding = market.longFunding)
    (hmarketShort : market'.shortFunding = market.shortFunding) :
    p'.fundingOwed market' = p.fundingOwed market := by
  unfold fundingOwed
  rw [hbase, hlong, hshort, hmarketLong, hmarketShort]

theorem Settled.fundingOwed (h : p.Settled market) : p.fundingOwed market = 0 := by
  unfold PerpPosition.fundingOwed
  rw [h.1, h.2, sub_self, sub_self, zero_mul, ite_self]

theorem Settled.equity (h : p.Settled market) :
    p.equity market = p.quotePositionNative.toRat := by
  rw [PerpPosition.equity, h.fundingOwed, sub_zero]

theorem Pays.settled (h : p.Pays p' x) (hp : p.Settled market) : p'.Settled market :=
  ⟨h.longSettled.trans hp.1, h.shortSettled.trans hp.2⟩

/-- Paying without a change of base is a change of equity. -/
theorem Pays.equity (h : p.Pays p' x) (hbase : p'.basePositionLots = p.basePositionLots) :
    p'.equity market = p.equity market + x := by
  rw [PerpPosition.equity, PerpPosition.equity, h.quote,
    fundingOwed_congr hbase h.longSettled h.shortSettled rfl rfl]
  ring

/-! ## The functions -/

/-- Unsettled funding is exact. -/
theorem unsettledFunding_toRat {f : I80F48} (h : p.unsettledFunding market = .ok f) :
    f.toRat = p.fundingOwed market := by
  unfold unsettledFunding at h
  unfold fundingOwed
  split at h
  · rename_i hlong
    obtain ⟨d, hd, h⟩ := of_bind h
    obtain ⟨n, hn, h⟩ := of_bind h
    rw [if_pos hlong, toRat_mul_right (isWhole_ofInt hn) h, toRat_sub hd]
  · rename_i hlong
    rw [if_neg hlong]
    split at h
    · obtain ⟨d, hd, h⟩ := of_bind h
      obtain ⟨n, hn, h⟩ := of_bind h
      rw [toRat_mul_right (isWhole_ofInt hn) h, toRat_sub hd]
    · rename_i hshort
      have hzero : p.basePositionLots = 0 := by omega
      obtain rfl := ok_inj h
      rw [hzero, Int.cast_zero, mul_zero, toRat_zero]

theorem settleFunding_settled (h : p.settleFunding market = .ok p') : p'.Settled market := by
  obtain ⟨f, -, h⟩ := of_bind h
  obtain ⟨q, -, h⟩ := of_bind h
  obtain ⟨o, -, h⟩ := of_bind h
  obtain rfl := ok_inj h
  exact ⟨rfl, rfl⟩

/-- Settling moves what is owed into the quote position. -/
theorem settleFunding_equity (h : p.settleFunding market = .ok p') :
    p'.equity market = p.equity market := by
  rw [(settleFunding_settled h).equity]
  obtain ⟨f, hf, h⟩ := of_bind h
  obtain ⟨q, hq, h⟩ := of_bind h
  obtain ⟨o, -, h⟩ := of_bind h
  obtain rfl := ok_inj h
  show q.toRat = p.equity market
  rw [toRat_sub hq, unsettledFunding_toRat hf, equity]

variable {side : Side} {baseChange : Int} {quote : I80F48}

/-- A trade leaves the funding of the market alone. -/
theorem recordTrade_funding {quoteChange : I80F48}
    (h : p.recordTrade market baseChange quoteChange = .ok (p', market')) :
    market'.longFunding = market.longFunding ∧ market'.shortFunding = market.shortFunding := by
  obtain ⟨-, rfl⟩ := recordTrade_books h
  exact ⟨rfl, rfl⟩

/-- A trade of a position that owes no funding changes its equity by the quote amount. -/
theorem recordTrade_equity {quoteChange : I80F48} (hp : p.Settled market)
    (h : p.recordTrade market baseChange quoteChange = .ok (p', market')) :
    p'.equity market' = p.equity market + quoteChange.toRat ∧ p'.Settled market' := by
  have hpays := (recordTrade_books h).1.pays
  obtain ⟨hlong, hshort⟩ := recordTrade_funding h
  have hsettled : p'.Settled market' :=
    ⟨hpays.longSettled.trans (hp.1.trans hlong.symm),
      hpays.shortSettled.trans (hp.2.trans hshort.symm)⟩
  exact ⟨by rw [hsettled.equity, hp.equity, hpays.quote], hsettled⟩

/-- What is owed is in proportion to the lots while the position does not change sides. -/
theorem recordTrade_fundingOwed {x : Int}
    (hside : (0 < p.basePositionLots ∧ 0 ≤ p.basePositionLots + x) ∨
      (p.basePositionLots < 0 ∧ p.basePositionLots + x ≤ 0))
    (h : p.recordTrade market x quote = .ok (p', market')) :
    p'.fundingOwed market' * p.basePositionLots =
      p.fundingOwed market * (p.basePositionLots + x : Int) := by
  have hpays := (recordTrade_books h).1.pays
  obtain ⟨hlong, hshort⟩ := recordTrade_funding h
  have hbase : p'.basePositionLots = p.basePositionLots + x :=
    congrArg Ledger.base (recordTrade_books h).1.1.2
  unfold fundingOwed
  rw [hbase, hpays.longSettled, hpays.shortSettled, hlong, hshort]
  obtain ⟨hp, hp'⟩ | ⟨hp, hp'⟩ := hside
  · split
    · ring
    · rename_i hclosed
      have hzero : p.basePositionLots + x = 0 := by omega
      rw [hzero, Int.cast_zero, mul_zero, zero_mul, mul_zero]
  · rw [if_neg (by omega), if_neg (by omega)]
    ring

/-- Without settling funding first, a trade that reduces a position loses what
    the traded lots owe. -/
theorem recordTrade_equity_iff {x : Int} (hx : x ≠ 0)
    (hside : (0 < p.basePositionLots ∧ 0 ≤ p.basePositionLots + x) ∨
      (p.basePositionLots < 0 ∧ p.basePositionLots + x ≤ 0))
    (h : p.recordTrade market x quote = .ok (p', market')) :
    p'.equity market' = p.equity market + quote.toRat ↔ p.fundingOwed market = 0 := by
  have howed := recordTrade_fundingOwed hside h
  have hbase : (p.basePositionLots : ℚ) ≠ 0 := by
    have hne : p.basePositionLots ≠ 0 := by omega
    exact_mod_cast hne
  have hequity : p'.equity market' = p.equity market + quote.toRat ↔
      p'.fundingOwed market' = p.fundingOwed market := by
    rw [equity, equity, (recordTrade_books h).1.pays.quote]
    constructor <;> intro heq <;> linarith
  rw [hequity]
  constructor
  · intro heq
    rw [heq] at howed
    have hproduct : p.fundingOwed market * (x : ℚ) = 0 := by
      push_cast at howed
      linarith
    exact (mul_eq_zero.mp hproduct).resolve_right (by exact_mod_cast hx)
  · intro hzero
    rw [hzero, zero_mul] at howed
    rw [hzero]
    exact (mul_eq_zero.mp howed).resolve_right hbase

/-- A fill of a resting order moves the base position, takes the filled lots from
    the open orders, and pays the trade and its fees. -/
theorem recordMakerFill_spec {fees : I80F48}
    (h : p.recordMakerFill market side baseChange quote fees = .ok (p', market')) :
    p.Moves p' ((p.ledger.addBase baseChange).addMaker side (-|baseChange|)) ∧
      market' = market.track p.ledger p'.ledger ∧
      p'.equity market' = p.equity market + (quote.toRat - fees.toRat) := by
  obtain ⟨p₁, hfunding, h⟩ := of_bind h
  obtain ⟨p₂, hfee, h⟩ := of_bind h
  obtain ⟨⟨p₃, m₃⟩, htrade, h⟩ := of_bind h
  obtain ⟨_, -, h⟩ := of_bind h
  obtain ⟨_, -, h⟩ := of_bind h
  obtain ⟨volume, -, h⟩ := of_bind h
  obtain ⟨-, h⟩ := of_checkI64 h
  obtain ⟨-, h⟩ := of_checkI64 h
  obtain ⟨p₄, hadjust, h⟩ := of_bind h
  obtain ⟨rfl, rfl⟩ := ok_inj₂ h
  have h₁ := settleFunding_keeps hfunding
  have hpaid := recordTradingFee_books hfee
  have h₂ := hpaid.1
  obtain ⟨⟨h₃, -⟩, hmarket⟩ := recordTrade_books htrade
  have hadjusted := adjustMakerLots_books hadjust
  have h₄ := hadjusted.1
  have hledger : p₄.ledger = (p.ledger.addBase baseChange).addMaker side (-|baseChange|) := by
    rw [h₄.2]
    show p₃.ledger.addMaker side _ = _
    rw [h₃.2, h₂.2, h₁.2]
  refine ⟨⟨h₄.1.trans (h₃.1.trans (h₂.1.trans h₁.1)), hledger⟩, ?_, ?_⟩
  · rw [hmarket, hledger, h₃.2, h₂.2, h₁.2]
    simp [PerpMarket.track]
  · have hsettled := hpaid.pays.settled (settleFunding_settled hfunding)
    have hbase₄ : p₄.basePositionLots = p₃.basePositionLots := by
      have hmoves := congrArg Ledger.base h₄.2
      rwa [Ledger.base_addMaker] at hmoves
    have hequity : p₄.equity m₃ = p₃.equity m₃ + 0 := hadjusted.pays.equity hbase₄
    rw [hequity, (recordTrade_equity hsettled htrade).1,
      hpaid.pays.equity (congrArg Ledger.base h₂.2), settleFunding_equity hfunding]
    ring

/-- A fill that was taken is no longer taker lots, and pays the trade; its fees
    are already paid. -/
theorem recordTakerFill_spec {quoteChange : Int}
    (h : p.recordTakerFill market baseChange quoteChange = .ok (p', market')) :
    p.Moves p' ((p.ledger.addTaker (-baseChange, -quoteChange)).addBase baseChange) ∧
      market' = market.track p.ledger p'.ledger ∧
      p'.equity market' = p.equity market + market.quoteLotSize * quoteChange := by
  obtain ⟨p₁, hfunding, h⟩ := of_bind h
  obtain ⟨p₂, hremove, h⟩ := of_bind h
  obtain ⟨lotSize, hlotSize, h⟩ := of_bind h
  obtain ⟨change, hchange, h⟩ := of_bind h
  obtain ⟨quote, hquote, h⟩ := of_bind h
  obtain ⟨⟨p₃, m₃⟩, htrade, h⟩ := of_bind h
  obtain ⟨_, -, h⟩ := of_bind h
  obtain ⟨_, -, h⟩ := of_bind h
  obtain ⟨volume, -, h⟩ := of_bind h
  obtain ⟨rfl, rfl⟩ := ok_inj₂ h
  have h₁ := settleFunding_keeps hfunding
  have hremoved := removeTakerTrade_books hremove
  have h₂ := hremoved.1
  obtain ⟨⟨h₃, -⟩, hmarket⟩ := recordTrade_books htrade
  have hledger : p₃.ledger =
      (p.ledger.addTaker (-baseChange, -quoteChange)).addBase baseChange := by
    rw [h₃.2, h₂.2, h₁.2]
  refine ⟨⟨h₃.1.trans (h₂.1.trans h₁.1), hledger⟩, ?_, ?_⟩
  · show m₃ = market.track p.ledger p₃.ledger
    rw [hmarket, h₂.2, h₁.2]
    simp [PerpMarket.track]
  · have hsettled := hremoved.pays.settled (settleFunding_settled hfunding)
    show p₃.equity m₃ = _
    rw [(recordTrade_equity hsettled htrade).1, hremoved.pays.equity (congrArg Ledger.base h₂.2),
      settleFunding_equity hfunding,
      ((isWhole_ofInt hlotSize).mul (isWhole_ofInt hchange) hquote).toRat]
    push_cast
    ring

end Pays

end PerpPosition

end MangoV4
