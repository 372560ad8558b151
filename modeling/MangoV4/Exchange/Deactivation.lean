/-
  MangoV4.Exchange.Deactivation

  Closing positions while events wait on the queue.

  A position is closed when its counters are zero.  The maker counters add up
  positive lots, so zero means that no order and no maker event is left.  The
  taker counters are signed: fills the account has taken can cancel out while
  they are all still on the queue, and then nobody can process them.  As long
  as no position is closed that way, every account an event names has a
  position (`Clearing.Named`).
-/

import MangoV4.Exchange.Balance
import MangoV4.Exchange.Faults

namespace MangoV4

open Lib Lib.Exec Relation Function Multiset Clearing Option

/-- A fill whose taker is account `a`. -/
def AnyEvent.TakenBy (a : Pubkey) : AnyEvent → Prop
  | .fill f => f.taker = a
  | .out _ => False
  | .liquidate => False

namespace Clearing

/-- The queued fills an account has taken do not cancel out. -/
def TakenAddUp (s : Clearing) (a : Pubkey) : Prop :=
  (∃ e ∈ s.events, e.TakenBy a) → s.queuedTaker a ≠ 0

/-- Whoever owns an order or is named by an event has a position. -/
structure Named (s : Clearing) : Prop where
  leaves : ∀ side, ∀ x ∈ s.leaves side, s.ledger x.2.owner ≠ none
  events : ∀ e ∈ s.events, ∀ a, e.Names a → s.ledger a ≠ none

section Named

variable {m : PerpMarketIndex} {s s' : Clearing} {a : Pubkey}

/-- Without maker lots there are no orders. -/
theorem no_order_of_maker_zero (hpos : s.Positive) (hb : s.MakerBalanced)
    (hzero : s.position a = .zero) (side : Side) : ∀ x ∈ s.leaves side, x.2.owner ≠ a := by
  intro x hx hown
  have hqueue := Exchange.queuedLots_nonneg hpos a side
  have hbalance := hb a side
  rw [hzero, Ledger.maker_zero] at hbalance
  have hle : x.2.quantity ≤ ownLots a (s.leaves side) := by
    refine single_le_sum (fun n hn => ?_) _ (mem_map.mpr ⟨x, hx, if_pos hown⟩)
    obtain ⟨y, hy, rfl⟩ := mem_map.mp hn
    have hy := hpos.leaves side y hy
    split <;> omega
  have hlots := hpos.leaves side x hx
  omega

/-- Without maker lots no event waits for a maker or owner. -/
theorem no_event_of_maker_zero (hpos : s.Positive) (hb : s.MakerBalanced)
    (hzero : s.position a = .zero) {e : AnyEvent} (he : e ∈ s.events) (hname : e.Names a) :
    e.TakenBy a := by
  have hlots : ∀ side, e.makerLots a side ≤ 0 := by
    intro side
    have hbook := Exchange.ownLots_nonneg (a := a) (hpos.leaves side)
    have hbalance := hb a side
    rw [hzero, Ledger.maker_zero] at hbalance
    have hle : e.makerLots a side ≤ s.queuedLots a side := by
      refine List.single_le_sum (fun n hn => ?_) _ (List.mem_map.mpr ⟨e, he, rfl⟩)
      obtain ⟨e', he', rfl⟩ := List.mem_map.mp hn
      exact Exchange.makerLots_nonneg a side (hpos.events e' he')
    omega
  have hpositive := hpos.events e he
  cases e with
  | fill f =>
    rcases hname with hmaker | htaker
    · have h := hlots f.takerSide.invertSide
      rw [AnyEvent.makerLots, if_pos ⟨hmaker, rfl⟩] at h
      have hpositive : 0 < f.quantity := hpositive
      omega
    · exact htaker
  | out o =>
    have h := hlots o.side
    rw [AnyEvent.makerLots, if_pos ⟨hname, rfl⟩] at h
    have hpositive : 0 < o.quantity := hpositive
    omega
  | liquidate => cases hname

/-- When the taker fills do not cancel out, zero counters mean that no event
    names the account. -/
theorem no_event_of_zero (hpos : s.Positive) (hmaker : s.MakerBalanced) (htaker : s.TakerBalanced)
    (hzero : s.position a = .zero) (hadd : s.TakenAddUp a) : ∀ e ∈ s.events, ¬ e.Names a := by
  intro e he hname
  have htaken := no_event_of_maker_zero hpos hmaker hzero he hname
  apply hadd ⟨e, he, htaken⟩
  rw [← htaker a, hzero, Ledger.taker_zero]

/-- Whoever had a position still has one after another value has been counted. -/
theorem update_ne_none {f : Pubkey → Option Ledger} (a : Pubkey) (l : Ledger) {b : Pubkey}
    (h : f b ≠ none) : update f a (some l) b ≠ none := by
  by_cases hb : b = a
  · subst hb
    rw [update_self]
    exact some_ne_none l
  · rw [update_of_ne hb]
    exact h

/-- Positions are only created, unless one that counts nothing is closed. -/
theorem Step.ledger_cases {K : Clearing → Pubkey → Prop} (h : Step m K s s') :
    (∀ a, s.ledger a ≠ none → s'.ledger a ≠ none) ∨
      ∃ b, s.ledger b = some .zero ∧ K s b ∧ s' = s.withLedger b none := by
  cases h with
  | fill _ _ _ => exact .inl fun _ => update_ne_none _ _
  | post _ _ _ _ _ _ => exact .inl fun _ => update_ne_none _ _
  | cancel _ _ _ _ _ _ _ _ => exact .inl fun _ => update_ne_none _ _
  | settleFill _ _ _ _ => exact .inl fun _ ha => update_ne_none _ _ (update_ne_none _ _ ha)
  | settleOut _ _ _ => exact .inl fun _ => update_ne_none _ _
  | transfer _ _ _ _ => exact .inl fun _ ha => update_ne_none _ _ (update_ne_none _ _ ha)
  | opened _ => exact .inl fun _ => update_ne_none _ _
  | closed hb hK => exact .inr ⟨_, hb, hK, rfl⟩
  | _ => exact .inl fun _ ha => ha

theorem Step.named (h : Step m TakenAddUp s s') (hpos : s.Positive) (hmaker : s.MakerBalanced)
    (htaker : s.TakerBalanced) (hs : s.Named) : s'.Named := by
  rcases h.ledger_cases with hgrow | ⟨b, hb, hadd, rfl⟩
  · refine ⟨fun side y hy => ?_, fun e he a ha => ?_⟩
    · rcases h.leaf_cases hy with ⟨o, quantity, ho, hy, -⟩ | ⟨-, -, hledger, -⟩
      · rw [hy]
        exact hgrow _ (hs.leaves side _ ho)
      · exact hledger
    · apply hgrow
      rcases h.event_cases he with hold | ⟨side, c, o, ho, ⟨f, _, rfl, hfill, hl⟩ | ⟨out, rfl, hout⟩⟩
      · exact hs.events e hold a ha
      · rcases ha with rfl | rfl
        · rw [hfill.maker]
          exact hs.leaves side _ ho
        · exact hl
      · have ha : out.owner = a := ha
        rw [← ha, hout.owner]
        exact hs.leaves side _ ho
  · -- nothing refers to the account that loses its position
    have hzero : s.position b = .zero := position_eq hb
    have horders := no_order_of_maker_zero hpos hmaker hzero
    have hevents := no_event_of_zero hpos hmaker htaker hzero hadd
    refine ⟨fun side x hx => ?_, fun e he a ha => ?_⟩
    · rw [withLedger_ledger, update_of_ne (horders side x hx)]
      exact hs.leaves side x hx
    · have hne : a ≠ b := by
        rintro rfl
        exact hevents e he ha
      rw [withLedger_ledger, update_of_ne hne]
      exact hs.events e he a ha

end Named

/-- The counters balance, and whoever is referred to has a position. -/
structure Orderly (s : Clearing) : Prop where
  positive : s.Positive
  maker : s.MakerBalanced
  taker : s.TakerBalanced
  named : s.Named

theorem Step.orderly {m : PerpMarketIndex} {s s' : Clearing} (h : Step m TakenAddUp s s')
    (hs : s.Orderly) : s'.Orderly :=
  ⟨h.positive hs.positive, h.makerBalanced hs.maker, h.takerBalanced hs.taker,
    h.named hs.positive hs.maker hs.taker hs.named⟩

end Clearing

namespace Exchange

/-! ## Runs -/

variable {s : Exchange} {m : PerpMarketIndex}

/-- If the call closes a position of market `m`, the queued fills its account
    has taken do not cancel out. -/
def ClosesSettled (m : PerpMarketIndex) (call : Call) (s : Exchange) : Prop :=
  ∀ pk, call = ⟨m, .perpDeactivatePosition pk⟩ →
    (∃ e ∈ s.eventsOf m, e.TakenBy pk) → ((s.eventsOf m).map (AnyEvent.takerLots pk)).sum ≠ 0

theorem Fresh.orderly (h : s.Fresh) : (s.clearing m).Orderly where
  positive := h.sound.positive m
  maker := fun a side => by
    rw [h.position, queuedLots, h.events, h.leaves]
    simp
  taker := fun a => by
    rw [h.position, queuedTaker, h.events]
    rfl
  named := by
    refine ⟨fun side x hx => ?_, fun e he => ?_⟩
    · rw [h.leaves] at hx
      exact absurd hx (notMem_zero x)
    · rw [h.events] at he
      cases he

theorem run_orderly (hs : s.Fresh) (hfree : m ≠ FREE_ORDER_SLOT) {calls : List Call}
    (hguard : Guarded exec (ClosesSettled m) s calls) :
    (run exec s calls).Sound ∧ ((run exec s calls).clearing m).Orderly := by
  refine (simulates (J := Orderly) (K := TakenAddUp)
    fun _ _ hc hstep => hstep.orderly hc).run calls hs.sound hs.orderly ?_
  exact hguard.mono fun call s hcall => ⟨Or.inr (Or.inl hfree), hcall⟩

/-- In every run in which no position is closed while queued fills it has taken
    cancel out: closing a position succeeds only when no queued event names the
    account, every account an event names has a position, and event
    processing never fails for want of a position. -/
theorem deactivation_safe (hs : s.Fresh) (hfree : m ≠ FREE_ORDER_SLOT) {calls : List Call}
    (hguard : Guarded exec (ClosesSettled m) s calls) :
    let s' := run exec s calls
    (∀ pk r, exec ⟨m, .perpDeactivatePosition pk⟩ s' = .ok r →
      (ClosesSettled m ⟨m, .perpDeactivatePosition pk⟩ s' ↔ ∀ e ∈ s'.eventsOf m, ¬ e.Names pk)) ∧
    (∀ e ∈ s'.eventsOf m, ∀ a, e.Names a →
      ∃ account, s'.accounts a = some account ∧ (account.perpPosition m).isSome) ∧
    (∀ passed limit nowTs interval,
      exec ⟨m, .perpConsumeEvents passed limit nowTs interval⟩ s' ≠
        .error (.error .perpPositionDoesNotExist)) := by
  intro s'
  obtain ⟨hsound, horderly⟩ := run_orderly hs hfree hguard
  refine ⟨fun pk r h => ?_, fun e he a ha => ?_, fun passed limit nowTs interval => ?_⟩
  · obtain ⟨u, s''⟩ := r
    obtain ⟨market, market', accounts', hmarket, hop, -⟩ := exec_ok h
    obtain ⟨account, hload, hop⟩ := of_bind hop
    obtain ⟨account', hdeactivate, -⟩ := of_bind hop
    obtain ⟨account₁, hmoves, -, -⟩ := perpDeactivatePosition_zero hdeactivate
    rw [hsound.index m market hmarket] at hmoves
    have hledger : (s'.clearing m).ledger pk = some .zero := by
      rw [clearing_of_market hmarket, ledger_of_account m market (load_eq_ok.mp hload)]
      exact hmoves.before
    constructor
    · intro hcond
      exact no_event_of_zero horderly.positive horderly.maker horderly.taker
        (position_eq hledger) (hcond pk rfl)
    · rintro hnone pk' hpk ⟨e, he, htaken⟩
      obtain rfl : pk = pk' := by
        injection hpk with _ hop
        injection hop
      cases e with
      | fill f => exact absurd (Or.inr htaken) (hnone _ he)
      | out _ => cases htaken
      | liquidate => cases htaken
  · have hledger := horderly.named.events e he a ha
    obtain ⟨l, hl⟩ := ne_none_iff_exists'.mp hledger
    obtain ⟨account, haccount, hl⟩ := bind_eq_some_iff.mp hl
    refine ⟨account, haccount, ?_⟩
    obtain ⟨p, hp, -⟩ := map_eq_some_iff.mp hl
    rw [hp]
    rfl
  · refine (faults_perpConsumeEvents (F := (· ≠ .error .perpPositionDoesNotExist))
      ⟨by decide, by decide, by decide⟩ (by decide) (fun hc => hc.positive)
      (fun hstep hc => hstep.orderly hc) (fun hc e he a ha hnone => ?_) (fun _ _ _ _ _ _ => by decide)
      hsound horderly passed limit nowTs interval).not_of (not_not_intro rfl)
    exact absurd hnone (hc.named.events e he a ha)

/-- A position that is opened and closed by fills that are processed at once,
    and deactivated then. -/
def closedInTime : List Call :=
  [⟨0, .limitAt20 1 .ask 1⟩,
    ⟨0, .limitAt20 2 .bid 1⟩,
    ⟨0, .perpConsumeEvents [1, 2] 8 0 0⟩,
    ⟨0, .limitAt20 1 .bid 1⟩,
    ⟨0, .limitAt20 2 .ask 1⟩,
    ⟨0, .perpConsumeEvents [1, 2] 8 0 0⟩,
    ⟨0, .perpDeactivatePosition 2⟩]

theorem closedInTime_safe :
    exec ⟨0, .perpConsumeEvents [1, 2] 8 0 0⟩ (run exec (twoTraders 0) closedInTime) ≠
      .error (.error .perpPositionDoesNotExist) := by
  refine (deactivation_safe (m := 0) (twoTraders_fresh 0) (by decide) ?_).2.2 [1, 2] 8 0 0
  refine ⟨?_, ?_, ?_, ?_, ?_, ?_, ?_, trivial⟩
  · intro pk h
    cases h
  · intro pk h
    cases h
  · intro pk h
    cases h
  · intro pk h
    cases h
  · intro pk h
    cases h
  · intro pk h
    cases h
  · rintro pk - ⟨e, he, -⟩
    have he : e ∈ (run exec (twoTraders 0) (closedInTime.take 6)).eventsOf 0 := he
    cases he

/-- An account buys a lot and sells it again at the same price. -/
def roundTrip : List Call :=
  [⟨0, .limitAt20 1 .ask 1⟩,
    ⟨0, .limitAt20 2 .bid 1⟩,
    ⟨0, .limitAt20 1 .bid 1⟩,
    ⟨0, .limitAt20 2 .ask 1⟩]

/-- The counters of the account are zero although both of its fills are
    queued; once its position is closed, the queue is blocked. -/
theorem roundTrip_blocks_queue :
    (twoTraders 0).Fresh ∧
    (∃ r, exec ⟨0, .perpDeactivatePosition 2⟩ (run exec (twoTraders 0) roundTrip) = .ok r) ∧
    (∃ e ∈ (run exec (twoTraders 0) roundTrip).eventsOf 0, e.Names 2) ∧
    exec ⟨0, .perpConsumeEvents [1, 2] 8 0 0⟩
        (run exec (twoTraders 0) (roundTrip ++ [⟨0, .perpDeactivatePosition 2⟩])) =
      .error (.error .perpPositionDoesNotExist) := by
  refine ⟨twoTraders_fresh 0, ?_, by decide +kernel, eq_error_of_faultIs (by decide +kernel)⟩
  obtain ⟨r, hr, -⟩ := exists_of_any (p := fun _ => true)
    (x := exec ⟨0, .perpDeactivatePosition 2⟩ (run exec (twoTraders 0) roundTrip))
    (by decide +kernel)
  exact ⟨r, hr⟩

end Exchange

end MangoV4
