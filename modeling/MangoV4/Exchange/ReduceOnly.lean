/-
  MangoV4.Exchange.ReduceOnly

  A market in reduce-only mode only shrinks positions.

  `reduce_only_max_base_lots` caps an order by the position that is left once
  all open orders of its side are filled.  So the open orders of an account
  that had none when the mode began are all on the side that reduces its
  position, and never exceed it (`Ledger.Reducing`).  Orders, cancels and the
  processing of events keep that, and the position they reduce only shrinks.
-/

import MangoV4.Exchange.Balance

namespace MangoV4

open Lib Lib.Exec Relation MangoAccount List Option

/-! ## Orders that reduce a position -/

namespace Ledger

variable {l l' l'' : Ledger} {side side' : Side}

/-- All open orders are on `side`, and the position covers them. -/
structure Reducing (side : Side) (l : Ledger) : Prop where
  other : l.maker side.invertSide = 0
  within : l.maker side ≤ l.exposure side

variable {lots : Int}

theorem Releases.reducing (h : Releases l l') (hl : l.Reducing side)
    (hnonneg : ∀ side, 0 ≤ l'.maker side) :
    l'.Reducing side ∧ l'.exposure side ≤ l.exposure side := by
  obtain ⟨filled, dropped, hrelease, hmaker, hexposure⟩ := h
  have hfilled := hrelease side
  have hother := hrelease side.invertSide
  have hmakerSide := hmaker side
  have hmakerOther := hmaker side.invertSide
  have hnonnegOther := hnonneg side.invertSide
  have hzero := hl.other
  have hwithin := hl.within
  have hmoved := hexposure side
  -- there is nothing on the other side to be filled
  exact ⟨⟨by omega, by omega⟩, by omega⟩

/-- What an order on `side` for at most `lots` does: some are taken, some posted. -/
def Orders (side : Side) (lots : Int) (l l' : Ledger) : Prop :=
  ∃ taken posted : Int, 0 ≤ taken ∧ 0 ≤ posted ∧ taken + posted ≤ lots ∧
    l'.exposure side = l.exposure side - taken ∧ l'.maker side = l.maker side + posted ∧
    l'.maker side.invertSide = l.maker side.invertSide

/-- The most lots that an order on `side` may have in reduce-only mode. -/
def reducible (l : Ledger) (side : Side) : Int :=
  if l.exposure side ≤ 0 then 0 else max (l.exposure side - l.maker side) 0

theorem Orders.reducing (h : Orders side' lots l l') (hlots : lots ≤ l.reducible side')
    (hl : l.Reducing side) (hnonneg : 0 ≤ l.maker side) :
    l'.Reducing side ∧ l'.exposure side ≤ l.exposure side := by
  obtain ⟨taken, posted, htaken, hposted, hle, hexposure, hmaker, hother⟩ := h
  have hzero := hl.other
  have hwithin := hl.within
  unfold reducible at hlots
  by_cases hside : side' = side
  · subst hside
    split at hlots
    · exact ⟨⟨by omega, by omega⟩, by omega⟩
    · exact ⟨⟨by omega, by omega⟩, by omega⟩
  · -- an order that would enlarge the position has no lots
    have hinvert : side' = side.invertSide := by
      cases side <;> cases side' <;> first | rfl | exact absurd rfl hside
    subst hinvert
    have hinverted := exposure_invertSide l side
    have hinverted' := exposure_invertSide l' side
    rw [Side.invertSide_invertSide] at hother
    exact ⟨⟨by omega, by omega⟩, by omega⟩

end Ledger

namespace Exchange

variable {m : PerpMarketIndex} {market market' : Market} {accounts accounts' : Accounts}
  {account account' : MangoAccount} {pk : Pubkey} {book book' : Orderbook} {order : Order}

variable {limit nowTs : Nat} {posted : Option Key}

/-! ## Orders -/

/-- In reduce-only mode an order has at most the lots that reduce the position. -/
theorem reduceOnlyMaxBaseLots_le {pp : PerpPosition} {x : Int} (hmax : 0 ≤ order.maxBaseLots)
    (h : reduceOnlyMaxBaseLots pp order true = .ok x) :
    0 ≤ x ∧ x ≤ pp.ledger.reducible order.side := by
  obtain ⟨pos, hpos, h⟩ := of_bind h
  obtain ⟨allowed, hallowed, h⟩ := of_bind h
  obtain rfl := ok_inj h
  obtain ⟨-, rfl⟩ := checkI64_eq_ok.mp hpos
  suffices hbound : 0 ≤ allowed ∧ allowed ≤ pp.ledger.reducible order.side by omega
  cases hside : order.side with
  | bid =>
    rw [hside] at hallowed
    show 0 ≤ allowed ∧ allowed ≤ if -(pp.basePositionLots + pp.takerBaseLots) ≤ 0 then 0
      else max (-(pp.basePositionLots + pp.takerBaseLots) - pp.bidsBaseLots) 0
    by_cases hlong : 0 ≤ pp.basePositionLots + pp.takerBaseLots
    · rw [if_pos (.inl ⟨rfl, hlong⟩)] at hallowed
      rw [← ok_inj hallowed]
      split <;> omega
    · rw [if_neg (by simpa using hlong), if_pos rfl] at hallowed
      obtain ⟨-, hallowed⟩ := of_checkI64 hallowed
      obtain ⟨-, rfl⟩ := checkI64_eq_ok.mp hallowed
      rw [abs_of_nonpos (min_le_right _ _), if_neg (by omega)]
      omega
  | ask =>
    rw [hside] at hallowed
    show 0 ≤ allowed ∧ allowed ≤ if pp.basePositionLots + pp.takerBaseLots ≤ 0 then 0
      else max (pp.basePositionLots + pp.takerBaseLots - pp.asksBaseLots) 0
    by_cases hshort : pp.basePositionLots + pp.takerBaseLots ≤ 0
    · rw [if_pos (.inr ⟨rfl, hshort⟩)] at hallowed
      rw [← ok_inj hallowed]
      split <;> omega
    · rw [if_neg (by simpa using hshort), if_pos rfl] at hallowed
      obtain ⟨-, hallowed⟩ := of_checkI64 hallowed
      rw [← ok_inj hallowed, if_neg hshort]
      omega

/-- At most the remaining lots of an order are posted. -/
theorem remainder_ledger {st : MatchState} {oracle priceLots : Int} {orderId : Key} {q' : EventQueue} {l : Ledger}
    (h : Remainder book order m st oracle priceLots orderId account pk nowTs posted book'
      q' account') (hl : account.ledgerOf m = some l) (hleft : 0 ≤ st.remainingBaseLots) :
    ∃ lots, 0 ≤ lots ∧ lots ≤ st.remainingBaseLots ∧
      account'.ledgerOf m = some (l.addMaker order.side lots) := by
  cases h with
  | unposted => exact ⟨0, le_rfl, hleft, by rw [Ledger.addMaker_zero, hl]⟩
  | posted htarget hlots hroom hposted =>
    obtain ⟨l₁, hadds⟩ := hposted.moves
    obtain rfl := some.inj (hl.symm.trans hadds.before)
    exact ⟨_, hlots.le, min_le_left .., hadds.after⟩

/-- What an order does to what its account counts. -/
theorem newOrder_orders (order : Order) {perpMarket perpMarket' : PerpMarket} {q q' : EventQueue}
    {oraclePrice : I80F48} (hindex : perpMarket.perpMarketIndex = m) (hwf : book.WellFormed)
    (hpos : ∀ side, ∀ x ∈ (book.bookside side).leaves, 0 < x.2.quantity)
    (hbase : 0 ≤ order.maxBaseLots) (hquote : 0 ≤ order.maxQuoteLots)
    (h : book.newOrder order perpMarket q oraclePrice account pk nowTs limit =
      .ok (posted, book', perpMarket', q', account')) :
    perpMarket'.reduceOnly = perpMarket.reduceOnly ∧
    ∃ l l', account.ledgerOf m = some l ∧ account'.ledgerOf m = some l' ∧
      l.Orders order.side order.maxBaseLots l' := by
  obtain ⟨r⟩ := Orderbook.newOrder_run h
  obtain ⟨hits, rest, hm⟩ := r.matched hwf
  obtain ⟨fees, hmarket⟩ := r.market_eq
  refine ⟨by rw [hmarket], ?_⟩
  obtain ⟨hleft, -⟩ := (hm.sound (hpos _)).2 hbase hquote
  have htaken := r.base_le
  have hmoves := r.taker_moves
  have hrest := r.remainder
  rw [hindex] at hmoves hrest
  obtain ⟨lots, hlots, hle, hafter⟩ := remainder_ledger hrest hmoves.after hleft
  refine ⟨_, _, hmoves.before, hafter, order.maxBaseLots - r.st.remainingBaseLots, lots,
    sub_nonneg.mpr htaken, hlots, by omega, ?_, ?_, ?_⟩
  · cases order.side <;> simp [Ledger.exposure, Ledger.addTaker, Ledger.addMaker, takerChange] <;>
      omega
  · rw [Ledger.maker_addMaker, if_pos rfl, Ledger.maker_addTaker]
  · have hne : order.side.invertSide ≠ order.side := by cases order.side <;> decide
    rw [Ledger.maker_addMaker, if_neg hne, Ledger.maker_addTaker, add_zero]

/-- What an order in a reduce-only market does to what its account counts. -/
theorem perpPlaceOrder_orders {oraclePrice : I80F48} {funding : FundingUpdate} {interval : Nat}
    (hindex : market.perpMarket.perpMarketIndex = m) (hwf : market.book.WellFormed)
    (hpos : ∀ side, ∀ x ∈ (market.book.bookside side).leaves, 0 < x.2.quantity)
    (hreduce : market.perpMarket.reduceOnly = true)
    (h : perpPlaceOrder market account pk order oraclePrice funding nowTs limit interval =
      .ok (posted, market', account')) :
    market'.perpMarket.reduceOnly = true ∧ ∃ lots l l', (account.ledgerOf m).getD .zero = l ∧
      account'.ledgerOf m = some l' ∧ lots ≤ l.reducible order.side ∧
      l.Orders order.side lots l' := by
  obtain ⟨_, hbase, h⟩ := of_bind h
  obtain ⟨_, hquote, h⟩ := of_bind h
  obtain ⟨account₁, hensure, h⟩ := of_bind h
  obtain ⟨account₂, hexpire, h⟩ := of_bind h
  obtain ⟨pp, hpp, h⟩ := of_bind h
  obtain ⟨_, -, h⟩ := of_bind h
  obtain ⟨maxBaseLots, hmax, h⟩ := of_bind h
  obtain ⟨_, -, h⟩ := of_bind h
  obtain ⟨⟨orderId, book', perpMarket', q', account₃⟩, horder, h⟩ := of_bind h
  obtain ⟨rfl, rfl, rfl⟩ := ok_inj₃ h
  have hindex' : (market.perpMarket.updateFunding funding).perpMarketIndex = m := hindex
  have hreduce' : (market.perpMarket.updateFunding funding).reduceOnly = true := hreduce
  rw [hindex'] at hensure hpp
  rw [hreduce', Bool.or_true, if_pos rfl] at hmax
  obtain ⟨hnonneg, hle⟩ := reduceOnlyMaxBaseLots_le
    (of_require hbase) hmax
  have hquote : 0 ≤ order.maxQuoteLots := of_require hquote
  obtain ⟨hkeep, l, l', hl, hl', horders⟩ := newOrder_orders { order with maxBaseLots } hindex'
    hwf hpos hnonneg hquote horder
  -- the position that the order is checked against is the one the account had
  have hpp' : account₂.ledgerOf m = some pp.ledger := by
    rw [ledgerOf, perpPositionMut_eq_ok.mp hpp]
    rfl
  obtain rfl : pp.ledger = l := some.inj (hpp'.symm.trans hl)
  have hexpired : account₂.ledgerOf m = account₁.ledgerOf m := by
    obtain ⟨hperps, -⟩ := expireBuybackFees_spec hexpire
    rw [ledgerOf, ledgerOf, perpPosition, perpPosition, hperps]
  have hensured : (account.ledgerOf m).getD .zero = (account₁.ledgerOf m).getD .zero := by
    obtain ⟨hensured, -⟩ := ensurePerpPosition_spec hensure
    cases hensured with
    | existing _ hperps =>
      rw [ledgerOf, ledgerOf, perpPosition, perpPosition, hperps]
    | created hnone hzero _ _ =>
      rw [hnone, hzero]
      rfl
  refine ⟨hkeep.trans hreduce', maxBaseLots, pp.ledger, l', ?_, hl', hle, horders⟩
  rw [hensured, ← hexpired, hl]
  rfl

/-! ## One call -/

/-- Instructions that place orders, cancel them, or process events. -/
def Op.handlesOrders : Op → Bool
  | .perpPlaceOrder .. => true
  | .cancelOrderBySlot .. => true
  | .cancelAllOrders .. => true
  | .perpConsumeEvents .. => true
  | .newOrder .. => false
  | .perpSettlePnl .. => false
  | .perpDeactivatePosition _ => false
  | .perpForceClosePosition .. => false
  | .perpLiqBaseOrPositivePnl .. => false

/-- An instruction on a reduce-only market either releases open orders of an
    account, or places a reducing order for it. -/
theorem execOp_reduces {op : Op} (hop : op.handlesOrders = true)
    (h : execOp market accounts op = .ok (market', accounts'))
    (hindex : market.perpMarket.perpMarketIndex = m) (hwf : market.book.WellFormed)
    (hpos : (clearingOf m market accounts).Positive)
    (hreduce : market.perpMarket.reduceOnly = true) (a : Pubkey) :
    let l := (clearingOf m market accounts).position a
    let l' := (clearingOf m market' accounts').position a
    market'.perpMarket.reduceOnly = true ∧
      (l.Releases l' ∨ ∃ side lots, lots ≤ l.reducible side ∧ l.Orders side lots l') := by
  cases op with
  | perpPlaceOrder pk order oraclePrice funding nowTs limit interval =>
    obtain ⟨account, hload, h⟩ := of_bind h
    obtain ⟨⟨posted, market₁, account'⟩, horder, h⟩ := of_bind h
    obtain ⟨rfl, rfl⟩ := ok_inj₂ h
    obtain ⟨hkeep, lots, l, l', hl, hl', hle, horders⟩ := perpPlaceOrder_orders hindex hwf
      hpos.leaves hreduce horder
    refine ⟨hkeep, ?_⟩
    by_cases ha : a = pk
    · subst ha
      rw [position_store_self, position_of_account (load_eq_ok.mp hload), hl, hl']
      exact .inr ⟨order.side, lots, hle, horders⟩
    · rw [position_store_of_ne market market₁ ha]
      exact .inl (.refl _)
  | cancelOrderBySlot pk slot =>
    obtain ⟨account, hload, h⟩ := of_bind h
    obtain ⟨⟨book', account'⟩, hcancel, h⟩ := of_bind h
    obtain ⟨rfl, rfl⟩ := ok_inj₂ h
    rw [hindex] at hcancel
    have hreleasing := cancelOrderBySlot_releasing (K := fun _ _ => True) (P := True) hcancel
      market.perpMarket market.eventQueue hwf (load_eq_ok.mp hload)
    exact ⟨hreduce, .inl (hreleasing.releases hpos a)⟩
  | cancelAllOrders pk limit sideToCancel =>
    obtain ⟨account, hload, h⟩ := of_bind h
    obtain ⟨⟨book', account'⟩, hcancel, h⟩ := of_bind h
    obtain ⟨rfl, rfl⟩ := ok_inj₂ h
    rw [hindex] at hcancel
    have hreleasing := cancelLoop_releasing (K := fun _ _ => True) (P := True) market.perpMarket
      market.eventQueue sideToCancel _ hwf (load_eq_ok.mp hload) hcancel
    exact ⟨hreduce, .inl (hreleasing.releases hpos a)⟩
  | perpConsumeEvents passed limit nowTs interval =>
    have hreleasing := consumeLoop_releasing (K := fun _ _ => True) (P := True) passed nowTs interval
      _ hindex hpos h
    exact ⟨hreleasing.mode.trans hreduce, .inl (hreleasing.releases hpos a)⟩
  | newOrder _ _ _ _ _ => cases hop
  | perpSettlePnl _ _ _ _ _ => cases hop
  | perpDeactivatePosition _ => cases hop
  | perpForceClosePosition _ _ _ => cases hop
  | perpLiqBaseOrPositivePnl _ _ _ _ _ _ => cases hop

/-! ## Runs -/

section Runs

variable {s s' : Exchange} {a : Pubkey} {side : Side}

/-- The base position of an account, with the fills it has taken that still
    wait on the queue (`effective_base_position_lots`). -/
def effectiveOf (s : Exchange) (a : Pubkey) (m : PerpMarketIndex) : Int :=
  (s.positionOf a m).basePositionLots + (s.positionOf a m).takerBaseLots

/-- The account has no orders on the book and no events on the queue. -/
structure Idle (m : PerpMarketIndex) (a : Pubkey) (s : Exchange) : Prop where
  orders : ∀ side, ∀ x ∈ ((s.bookOf m).bookside side).leaves, x.2.owner ≠ a
  events : ∀ e ∈ s.eventsOf m, ¬ e.Names a

/-- `perp_edit_market` with `reduce_only_opt`. -/
def setReduceOnly (market : Market) : Market :=
  { market with perpMarket := { market.perpMarket with reduceOnly := true } }

def becomeReduceOnly (s : Exchange) (m : PerpMarketIndex) : Exchange :=
  { s with markets := Function.update s.markets m ((s.markets m).map setReduceOnly) }

/-- On market `m` the call places orders, cancels them, or processes events;
    on another market it does anything that does not reach market `m`. -/
def TradesOn (m : PerpMarketIndex) (call : Call) : Prop :=
  Undisturbed m call ∧ (call.market = m → call.op.handlesOrders = true)

/-- The orders of account `a` reduce its position in a reduce-only market `m`,
    which is at most `bound`. -/
structure Shrinking (m : PerpMarketIndex) (a : Pubkey) (side : Side) (bound : Int) (s : Exchange) :
    Prop where
  sound : s.Sound
  balanced : (s.clearing m).MakerBalanced
  reduceOnly : ∀ market, s.markets m = some market → market.perpMarket.reduceOnly = true
  reducing : ((s.clearing m).position a).Reducing side
  exposure_le : ((s.clearing m).position a).exposure side ≤ bound

variable {bound : Int}

theorem exec_shrinking {call : Call} {r : Unit} (hcall : TradesOn m call)
    (hs : s.Shrinking m a side bound) (h : exec call s = .ok (r, s')) :
    s'.Shrinking m a side bound := by
  have hsteps := exec_steps (K := fun _ _ => True) hs.sound hcall.1 (fun _ _ => trivial) h
  have hsound := exec_sound hs.sound h
  have hbalanced : (s'.clearing m).MakerBalanced :=
    invariant_of_steps (fun _ _ hc hstep => hstep.makerBalanced hc) hsteps hs.balanced
  have hnonneg := maker_nonneg (hs.sound.positive m) hs.balanced a
  have hnonneg' := maker_nonneg (hsound.positive m) hbalanced a
  suffices hmoved : (∀ market, s'.markets m = some market → market.perpMarket.reduceOnly = true) ∧
      ((s'.clearing m).position a).Reducing side ∧ ((s'.clearing m).position a).exposure side ≤
        ((s.clearing m).position a).exposure side from
    ⟨hsound, hbalanced, hmoved.1, hmoved.2.1, hmoved.2.2.trans hs.exposure_le⟩
  obtain ⟨market, market', accounts', hmarket, hop, rfl⟩ := exec_ok h
  by_cases hm : call.market = m
  · subst hm
    have hclearing := clearing_of_market hmarket
    obtain ⟨hkeep, hmoves⟩ := execOp_reduces (hcall.2 rfl) hop (hs.sound.index _ _ hmarket)
      (hs.sound.book _ _ hmarket) (hclearing ▸ hs.sound.positive _)
      (hs.reduceOnly market hmarket) a
    refine ⟨fun market₁ hmarket₁ => ?_, ?_⟩
    · rw [markets_store_self] at hmarket₁
      rw [← some.inj hmarket₁]
      exact hkeep
    · rcases hmoves with hreleases | ⟨side', lots, hle, horders⟩
      · exact hreleases.reducing hs.reducing hnonneg'
      · exact horders.reducing hle hs.reducing (hnonneg side)
  · -- a call on another market leaves the position alone
    have hrefines := exec_refines (K := fun _ _ => True) hs.sound hmarket (fun _ _ => trivial) hop
    have hledger : ((s.store call.market market' accounts').clearing m).ledger =
        (s.clearing m).ledger := by
      rw [clearing_store_apart (Ne.symm hm) hrefines.apart (hcall.1.resolve_left hm)]
    refine ⟨?_, ?_⟩
    · rw [markets_store_of_ne (Ne.symm hm)]
      exact hs.reduceOnly
    · rw [Clearing.position_of_ledger_eq hledger]
      exact ⟨hs.reducing, le_rfl⟩

theorem run_shrinking {calls : List Call} (hs : s.Shrinking m a side bound)
    (hcalls : ∀ call ∈ calls, TradesOn m call) : (run exec s calls).Shrinking m a side bound :=
  run_preserves_of_guarded (fun _ _ _ _ hs hcall h => exec_shrinking hcall hs h) calls s hs
    (guarded_of_forall calls (fun call hcall _ => hcalls call hcall) s)

/-- An account with nothing pending has no lots in open orders. -/
theorem Idle.maker_eq_zero (h : s.Idle m a) (hb : (s.clearing m).MakerBalanced) (side : Side) :
    ((s.clearing m).position a).maker side = 0 := by
  have hbook : ownLots a ((s.clearing m).leaves side) = 0 := by
    rw [clearing_leaves]
    apply Multiset.sum_eq_zero
    intro n hn
    obtain ⟨x, hx, rfl⟩ := Multiset.mem_map.mp hn
    exact if_neg (h.orders side x hx)
  have hqueue : (s.clearing m).queuedLots a side = 0 := by
    apply sum_eq_zero
    intro n hn
    obtain ⟨e, he, rfl⟩ := mem_map.mp hn
    have hnot := h.events e he
    cases e with
    | fill f => exact if_neg fun hmaker => hnot (.inl hmaker.1)
    | out o => exact if_neg fun howner => hnot howner.1
    | liquidate => rfl
  rw [hb a side, hbook, hqueue, add_zero]

theorem becomeReduceOnly_self (s : Exchange) (m : PerpMarketIndex) :
    (s.becomeReduceOnly m).markets m = (s.markets m).map setReduceOnly :=
  Function.update_self ..

theorem becomeReduceOnly_of_ne {m' : PerpMarketIndex} (h : m' ≠ m) :
    (s.becomeReduceOnly m).markets m' = s.markets m' :=
  Function.update_of_ne h ..

theorem becomeReduceOnly_clearing (s : Exchange) (m m' : PerpMarketIndex) :
    (s.becomeReduceOnly m).clearing m' = s.clearing m' := by
  unfold clearing
  by_cases hm : m' = m
  · subst hm
    rw [becomeReduceOnly_self]
    cases s.markets m' <;> rfl
  · rw [becomeReduceOnly_of_ne hm]
    rfl

/-- What holds of every market whatever its mode still holds. -/
theorem becomeReduceOnly_markets {Q : PerpMarketIndex → Market → Prop}
    (hQ : ∀ m market, Q m market → Q m (setReduceOnly market))
    (h : ∀ m market, s.markets m = some market → Q m market) :
    ∀ m' market, (s.becomeReduceOnly m).markets m' = some market → Q m' market := by
  intro m' market hmarket
  by_cases hm : m' = m
  · subst hm
    rw [becomeReduceOnly_self] at hmarket
    obtain ⟨market₀, hmarket₀, rfl⟩ := map_eq_some_iff.mp hmarket
    exact hQ m' market₀ (h m' market₀ hmarket₀)
  · rw [becomeReduceOnly_of_ne hm] at hmarket
    exact h m' market hmarket

theorem becomeReduceOnly_sound (hs : s.Sound) : (s.becomeReduceOnly m).Sound where
  index := becomeReduceOnly_markets (Q := fun m market => market.perpMarket.perpMarketIndex = m)
    (fun _ _ h => h) hs.index
  book := becomeReduceOnly_markets (Q := fun _ market => market.book.WellFormed)
    (fun _ _ h => h) hs.book
  count := hs.count
  positive := fun m' => by
    rw [becomeReduceOnly_clearing]
    exact hs.positive m'
  keyed := fun m' => by
    rw [becomeReduceOnly_clearing]
    exact hs.keyed m'

/-- Once the market is reduce-only, the account can only shrink the position it has. -/
theorem becomeReduceOnly_shrinking (hs : s.Sound) (hb : (s.clearing m).MakerBalanced)
    (hidle : s.Idle m a) : ∃ side bound, (s.becomeReduceOnly m).Shrinking m a side bound := by
  have hmaker := hidle.maker_eq_zero hb
  have hreduceOnly : ∀ market, (s.becomeReduceOnly m).markets m = some market →
      market.perpMarket.reduceOnly = true := by
    intro market hmarket
    rw [becomeReduceOnly_self] at hmarket
    obtain ⟨market₀, -, rfl⟩ := map_eq_some_iff.mp hmarket
    rfl
  have hclearing := becomeReduceOnly_clearing s m m
  -- a long position is reduced by asks, a short one by bids
  obtain ⟨side, hside⟩ : ∃ side, 0 ≤ ((s.clearing m).position a).exposure side := by
    rcases le_total 0 (((s.clearing m).position a).exposure .ask) with hlong | hshort
    · exact ⟨.ask, hlong⟩
    · refine ⟨.bid, ?_⟩
      have hinverted := ((s.clearing m).position a).exposure_invertSide .ask
      show 0 ≤ ((s.clearing m).position a).exposure Side.ask.invertSide
      omega
  refine ⟨side, _, becomeReduceOnly_sound hs, hclearing ▸ hb, hreduceOnly, ?_, le_rfl⟩
  rw [hclearing]
  exact ⟨hmaker side.invertSide, by rw [hmaker side]; exact hside⟩

/-- Later in the run, the position lies between nothing and what it was. -/
theorem Shrinking.effective_between (hs : s.Shrinking m a side bound)
    (hlater : s'.Shrinking m a side (((s.clearing m).position a).exposure side)) :
    (0 ≤ s.effectiveOf a m → 0 ≤ s'.effectiveOf a m ∧ s'.effectiveOf a m ≤ s.effectiveOf a m) ∧
    (s.effectiveOf a m ≤ 0 → s.effectiveOf a m ≤ s'.effectiveOf a m ∧ s'.effectiveOf a m ≤ 0) := by
  have hnonneg := maker_nonneg (hs.sound.positive m) hs.balanced a side
  have hnonneg' := maker_nonneg (hlater.sound.positive m) hlater.balanced a side
  have hwithin := hs.reducing.within
  have hwithin' := hlater.reducing.within
  have hle := hlater.exposure_le
  rw [clearing_position] at hnonneg hnonneg' hwithin hwithin' hle
  rw [clearing_position] at hle
  cases side with
  | bid =>
    have hexposure : (s.positionOf a m).ledger.exposure .bid = -s.effectiveOf a m := rfl
    have hexposure' : (s'.positionOf a m).ledger.exposure .bid = -s'.effectiveOf a m := rfl
    omega
  | ask =>
    have hexposure : (s.positionOf a m).ledger.exposure .ask = s.effectiveOf a m := rfl
    have hexposure' : (s'.positionOf a m).ledger.exposure .ask = s'.effectiveOf a m := rfl
    omega

/-- A reduce-only market only shrinks positions.  From the moment on at which
    the market becomes reduce-only, and for an account with nothing pending at
    that moment, the effective base position never changes its sign and is
    never enlarged: between any two points of any run of orders, cancels and
    event consumption, it moves towards zero and not beyond. -/
theorem effective_only_shrinks (hs : s.Fresh) {before : List Call}
    (hbefore : ∀ call ∈ before, Undisturbed m call) (hidle : (run exec s before).Idle m a)
    {earlier later : List Call} (hearlier : ∀ call ∈ earlier, TradesOn m call)
    (hlater : ∀ call ∈ later, TradesOn m call) :
    let s₁ := run exec ((run exec s before).becomeReduceOnly m) earlier
    let s₂ := run exec s₁ later
    (0 ≤ s₁.effectiveOf a m → 0 ≤ s₂.effectiveOf a m ∧ s₂.effectiveOf a m ≤ s₁.effectiveOf a m) ∧
    (s₁.effectiveOf a m ≤ 0 → s₁.effectiveOf a m ≤ s₂.effectiveOf a m ∧ s₂.effectiveOf a m ≤ 0) := by
  intro s₁ s₂
  have hstart : (s.clearing m).MakerBalanced := by
    intro b side
    rw [hs.position, Clearing.queuedLots, hs.events, hs.leaves]
    simp
  obtain ⟨hsound, hb⟩ := run_keeps (fun _ _ hc hstep => hstep.makerBalanced hc) hs.sound hstart
    before hbefore
  obtain ⟨side, bound, hshrinking⟩ := becomeReduceOnly_shrinking hsound hb hidle
  have hfirst : s₁.Shrinking m a side bound := run_shrinking hshrinking hearlier
  -- the position at the earlier point bounds the one at the later point
  have hfrom : s₁.Shrinking m a side (((s₁.clearing m).position a).exposure side) :=
    ⟨hfirst.sound, hfirst.balanced, hfirst.reduceOnly, hfirst.reducing, le_rfl⟩
  exact hfirst.effective_between (run_shrinking hfrom hlater)

/-- A trade of four lots that both accounts have processed. -/
def traded : List Call :=
  [⟨0, .limitAt20 1 .ask 4⟩,
    ⟨0, .limitAt20 2 .bid 4⟩,
    ⟨0, .perpConsumeEvents [1, 2] 8 0 0⟩]

/-- `perp_place_order` at the oracle price of 20. -/
def Op.placeAt20 (a : Pubkey) (side : Side) (lots : Int) : Op :=
  .perpPlaceOrder a (.plain side ⟨20, twenty_fits⟩ lots 100) (.ofSmall 20) ⟨.zero, .zero, .zero⟩ 0 10 0

theorem traded_idle : (run exec (twoTraders 0) traded).Idle 0 2 where
  orders := fun side => by
    cases side with
    | bid => decide +kernel
    | ask => decide +kernel
  events := by decide +kernel

/-- Account 2 is long four lots, offers three of them, and sells two. -/
theorem effective_shrinks_to_two :
    let s₁ := run exec ((run exec (twoTraders 0) traded).becomeReduceOnly 0)
      [⟨0, .placeAt20 2 .ask 3⟩]
    let s₂ := run exec s₁ [⟨0, .placeAt20 1 .bid 2⟩, ⟨0, .perpConsumeEvents [1, 2] 8 0 0⟩]
    s₁.effectiveOf 2 0 = 4 ∧ s₂.effectiveOf 2 0 = 2 ∧ s₂.effectiveOf 2 0 ≤ s₁.effectiveOf 2 0 := by
  intro s₁ s₂
  have hshrinks := effective_only_shrinks (m := 0) (a := 2) (twoTraders_fresh 0) (fun call hcall => by
      simp only [traded, mem_cons, not_mem_nil, or_false] at hcall
      rcases hcall with rfl | rfl | rfl <;> exact Or.inl rfl) traded_idle
    (fun call hcall => by
      obtain rfl := mem_singleton.mp hcall
      exact ⟨Or.inl rfl, fun _ => rfl⟩ :
      ∀ call ∈ [⟨0, .placeAt20 2 .ask 3⟩], TradesOn 0 call)
    (fun call hcall => by
      simp only [mem_cons, not_mem_nil, or_false] at hcall
      rcases hcall with rfl | rfl <;> exact ⟨Or.inl rfl, fun _ => rfl⟩ :
      ∀ call ∈ [⟨0, .placeAt20 1 .bid 2⟩, ⟨0, .perpConsumeEvents [1, 2] 8 0 0⟩], TradesOn 0 call)
  have hfour : s₁.effectiveOf 2 0 = 4 := by decide +kernel
  exact ⟨hfour, by decide +kernel, (hshrinks.1 (hfour ▸ by decide)).2⟩

end Runs

end Exchange

end MangoV4
