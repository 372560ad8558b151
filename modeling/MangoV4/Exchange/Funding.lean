/-
  MangoV4.Exchange.Funding

  Funding and changes of base positions.

  `Traded` lists the instructions that change base positions, each for the
  account whose position it takes from `p` to `p'`; `amount` is the quote
  amount of the trade minus the fees that are charged with it.  Such a change
  neither loses nor creates funding exactly if `equity` moves by `amount`.
  Every instruction but one settles funding before it changes the base
  position; a force close does not, and what the closed lots owe is gone.
-/

import MangoV4.Exchange.Positions

namespace MangoV4

open Lib Lib.Exec PerpPosition MangoAccount Option

/-- Why a position changes. -/
inductive TradeRole where
  | maker
  | taker
  | liqee
  | liqor
  | forceClosedLong
  | forceClosedShort
deriving DecidableEq

/-- The instruction settles funding before it changes the base position. -/
def TradeRole.settlesFunding : TradeRole → Bool
  | .maker | .taker | .liqee | .liqor => true
  | .forceClosedLong | .forceClosedShort => false

/-- An instruction changes the base position of an account in a market. -/
inductive Traded (market : PerpMarket) :
    TradeRole → PerpPosition → PerpPosition → PerpMarket → ℚ → Prop
  | maker {a a' : MangoAccount} {market' : PerpMarket} {fill : FillEvent} {nowTs interval : Nat}
      {p p' : PerpPosition} (hexec : a.executePerpMaker market fill nowTs interval = .ok (a', market'))
      (hp : a.perpPosition market.perpMarketIndex = some p)
      (hp' : a'.perpPosition market.perpMarketIndex = some p') :
      Traded market .maker p p' market'
        (fill.quoteFor market fill.takerSide.invertSide - fill.makerFees market)
  | taker {a a' : MangoAccount} {market' : PerpMarket} {fill : FillEvent} {p p' : PerpPosition}
      (hexec : a.executePerpTaker market fill = .ok (a', market'))
      (hp : a.perpPosition market.perpMarketIndex = some p)
      (hp' : a'.perpPosition market.perpMarketIndex = some p') :
      Traded market .taker p p' market' (fill.quoteFor market fill.takerSide)
  /-- pnl that is taken over is settled on top of the trade -/
  | liqee {liqor liqee liqor' liqee' : MangoAccount} {market' : PerpMarket} {oraclePrice : I80F48}
      {maxBaseTransfer : Int} {amounts : LiquidationAmounts} {nowTs : Nat} {p p' : PerpPosition}
      {quotes : I80F48 × I80F48}
      (hexec : perpLiqBaseOrPositivePnl market liqor liqee oraclePrice maxBaseTransfer amounts nowTs =
        .ok (market', liqor', liqee'))
      (hp : liqee.perpPosition market.perpMarketIndex = some p)
      (hp' : liqee'.perpPosition market.perpMarketIndex = some p')
      (hquotes : liquidationQuotes market p.basePositionLots (max maxBaseTransfer (I64_MIN + 1))
        oraclePrice (p'.basePositionLots - p.basePositionLots) = .ok quotes) :
      Traded market .liqee p p' market' (quotes.1.toRat - max amounts.pnlTransfer.toRat 0)
  /-- the liquidator's position is opened if there is none -/
  | liqor {liqor liqor₁ liqee liqor' liqee' : MangoAccount} {market' : PerpMarket}
      {oraclePrice : I80F48} {maxBaseTransfer : Int} {amounts : LiquidationAmounts} {nowTs : Nat}
      {p p' q : PerpPosition} {quotes : I80F48 × I80F48}
      (hexec : perpLiqBaseOrPositivePnl market liqor liqee oraclePrice maxBaseTransfer amounts nowTs =
        .ok (market', liqor', liqee'))
      (hopen : liqor.ensurePerpPosition market.perpMarketIndex market.settleTokenIndex = .ok liqor₁)
      (hp : liqor₁.perpPosition market.perpMarketIndex = some p)
      (hp' : liqor'.perpPosition market.perpMarketIndex = some p')
      (hq : liqee.perpPosition market.perpMarketIndex = some q)
      (hquotes : liquidationQuotes market q.basePositionLots (max maxBaseTransfer (I64_MIN + 1))
        oraclePrice (p.basePositionLots - p'.basePositionLots) = .ok quotes) :
      Traded market .liqor p p' market' (quotes.2.toRat + max amounts.pnlTransfer.toRat 0)
  | forceClosedLong {a b a' b' : MangoAccount} {market' : PerpMarket} {oraclePrice : I80F48}
      {p p' q : PerpPosition} {quote : I80F48}
      (hexec : perpForceClosePosition market a b oraclePrice = .ok (market', a', b'))
      (hp : a.perpPosition market.perpMarketIndex = some p)
      (hp' : a'.perpPosition market.perpMarketIndex = some p')
      (hq : b.perpPosition market.perpMarketIndex = some q)
      (hquote : forceCloseQuote market p.basePositionLots q.basePositionLots oraclePrice =
        .ok quote) :
      Traded market .forceClosedLong p p' market' quote.toRat
  | forceClosedShort {a b a' b' : MangoAccount} {market' : PerpMarket} {oraclePrice : I80F48}
      {p q q' : PerpPosition} {quote : I80F48}
      (hexec : perpForceClosePosition market a b oraclePrice = .ok (market', a', b'))
      (hp : a.perpPosition market.perpMarketIndex = some p)
      (hq : b.perpPosition market.perpMarketIndex = some q)
      (hq' : b'.perpPosition market.perpMarketIndex = some q')
      (hquote : forceCloseQuote market p.basePositionLots q.basePositionLots oraclePrice =
        .ok quote) :
      Traded market .forceClosedShort q q' market' (-quote.toRat)

/-! ## Fills -/

variable {market market' : PerpMarket} {a a' : MangoAccount} {p p' : PerpPosition}

theorem FillEvent.quoteFor_invert (fill : FillEvent) (market : PerpMarket) (side : Side) :
    fill.quoteFor market side.invertSide = -fill.quoteFor market side := by
  cases side <;> simp [quoteFor, change, Side.invertSide]

/-! ## Every instruction -/

/-- A change of base position neither loses nor creates funding, unless a force
    close meets a position that owes funding. -/
theorem traded_equity_iff {role : TradeRole} {amount : ℚ}
    (h : Traded market role p p' market' amount) :
    p'.equity market' = p.equity market + amount ↔
      role.settlesFunding = true ∨ p.fundingOwed market = 0 := by
  cases h with
  | maker hexec hp hp' =>
    obtain ⟨q, q', hq, hq', hequity⟩ := (executePerpMaker_spec hexec).2.2
    obtain rfl : p = q := some.inj (hp.symm.trans hq)
    obtain rfl : p' = q' := some.inj (hp'.symm.trans hq')
    exact ⟨fun _ => Or.inl rfl, fun _ => hequity⟩
  | taker hexec hp hp' =>
    obtain ⟨q, q', hq, hq', hequity⟩ := (executePerpTaker_spec hexec).2.2
    obtain rfl : p = q := some.inj (hp.symm.trans hq)
    obtain rfl : p' = q' := some.inj (hp'.symm.trans hq')
    exact ⟨fun _ => Or.inl rfl, fun _ => hequity⟩
  | liqee hexec hp hp' hquotes =>
    obtain ⟨liqor₁, q, q', r, r', x, quotes, -, hq, rfl, -, -, hmoved, hquotes', hforced⟩ :=
      perpLiqBaseOrPositivePnl_spec hexec
    obtain rfl : p = q := some.inj (hp.symm.trans hq)
    rw [perpPosition_setPerpPosition hp hmoved.first.1] at hp'
    obtain rfl := some.inj hp'
    rw [hforced.liqeeBase, add_sub_cancel_left, hquotes'] at hquotes
    obtain rfl := ok_inj hquotes
    exact ⟨fun _ => Or.inl rfl, fun _ => hforced.liqeeEquity⟩
  | liqor hexec hopen hp hp' hq hquotes =>
    obtain ⟨liqor₁, r, r', q, q', x, quotes, hopen', hr, -, hq', rfl, hmoved, hquotes', hforced⟩ :=
      perpLiqBaseOrPositivePnl_spec hexec
    obtain rfl := ok_unique hopen hopen'
    obtain rfl : p = q := some.inj (hp.symm.trans hq')
    rw [perpPosition_setPerpPosition hp hmoved.second.1] at hp'
    obtain rfl := some.inj hp'
    obtain rfl := some.inj (hq.symm.trans hr)
    rw [hforced.liqorBase, sub_sub_cancel, hquotes'] at hquotes
    obtain rfl := ok_inj hquotes
    exact ⟨fun _ => Or.inl rfl, fun _ => hforced.liqorEquity⟩
  | forceClosedLong hexec hp hp' hq hquote =>
    obtain ⟨r, r', t, t', x, quote, hr, rfl, ht, -, hmoved, hquote', hiff, -⟩ :=
      perpForceClosePosition_spec hexec
    obtain rfl : p = r := some.inj (hp.symm.trans hr)
    rw [perpPosition_setPerpPosition hp hmoved.first.1] at hp'
    obtain rfl := some.inj hp'
    obtain rfl := some.inj (hq.symm.trans ht)
    obtain rfl := ok_unique hquote hquote'
    exact hiff.trans (by simp [TradeRole.settlesFunding])
  | forceClosedShort hexec hp hq hq' hquote =>
    obtain ⟨r, r', t, t', x, quote, hr, -, ht, rfl, hmoved, hquote', -, hiff⟩ :=
      perpForceClosePosition_spec hexec
    obtain rfl := some.inj (hp.symm.trans hr)
    obtain rfl : p = t := some.inj (hq.symm.trans ht)
    rw [perpPosition_setPerpPosition hq hmoved.second.1] at hq'
    obtain rfl := some.inj hq'
    obtain rfl := ok_unique hquote hquote'
    exact hiff.trans (by simp [TradeRole.settlesFunding])

/-- A market in which longs owe `longFunding` for each lot, with two positions open. -/
def PerpMarket.funded (longFunding : I80F48) : PerpMarket :=
  { PerpMarket.plain 0 with longFunding := longFunding, openInterest := 4 }

/-- Two lots that were bought at 20 before there was any funding. -/
def PerpPosition.long : PerpPosition :=
  { PerpPosition.default with
    marketIndex := 0
    basePositionLots := 2
    quotePositionNative := ⟨-40 * 2 ^ 48, by decide⟩ }

/-- The other side of that trade. -/
def PerpPosition.short : PerpPosition :=
  { PerpPosition.default with
    marketIndex := 0
    basePositionLots := -2
    quotePositionNative := .ofSmall 40 }

/-- An account with nothing but one position. -/
def MangoAccount.holding (p : PerpPosition) : MangoAccount :=
  { MangoAccount.plain 0 with perps := [p] }

/-- The long position owes 2 in funding; closed at 20 it is left with 0 and not with -2. -/
theorem forceClose_unsettled_funding_lost :
    ∃ p p' market' amount, Traded (.funded (.ofSmall 1)) .forceClosedLong p p' market' amount ∧
      p'.equity market' ≠ p.equity (.funded (.ofSmall 1)) + amount := by
  have hrun : (perpForceClosePosition (.funded (.ofSmall 1)) (.holding .long) (.holding .short)
      (.ofSmall 20)).toOption.any (fun r =>
        decide (∃ p' ∈ r.2.1.perpPosition 0, p'.equity r.1 ≠
          PerpPosition.long.equity (.funded (.ofSmall 1)) +
            (I80F48.ofSmall 40).toRat)) = true := by decide +kernel
  obtain ⟨⟨market', a', b'⟩, hexec, hcheck⟩ := exists_of_any hrun
  obtain ⟨p', hp', hne⟩ := of_decide_eq_true hcheck
  exact ⟨_, p', market', _, .forceClosedLong hexec rfl hp' rfl (by decide +kernel), hne⟩

/-- A position that owes nothing is closed for the value of its lots. -/
theorem forceClose_settled :
    ∃ p p' market' amount, Traded (.funded .zero) .forceClosedLong p p' market' amount ∧
      p'.equity market' = p.equity (.funded .zero) + amount := by
  have hrun : (perpForceClosePosition (.funded .zero) (.holding .long) (.holding .short)
      (.ofSmall 20)).toOption.any (fun r =>
        (r.2.1.perpPosition 0).isSome) = true := by decide +kernel
  obtain ⟨⟨market', a', b'⟩, hexec, hp'⟩ := exists_of_any hrun
  obtain ⟨p', hp'⟩ := isSome_iff_exists.mp hp'
  have htraded : Traded (.funded .zero) .forceClosedLong .long p' market'
      (I80F48.ofSmall 40).toRat :=
    .forceClosedLong hexec rfl hp' rfl (by decide +kernel)
  exact ⟨_, p', market', _, htraded, (traded_equity_iff htraded).mpr (Or.inr (by decide +kernel))⟩

end MangoV4
