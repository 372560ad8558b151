/-
  MangoV4.Exchange.Balance

  The counters of all accounts balance with book and queue, after every run:
  lots in open orders (`openLots_balanced`), lots of fills that wait for
  their taker and base positions (`takerLots_balanced`), and the open interest
  of the market (`openInterest_balanced`).
-/

import MangoV4.Exchange.Run

namespace MangoV4

open Lib Lib.Exec Relation List

namespace Exchange

variable {s : Exchange} {m : PerpMarketIndex}

/-! ## Lots in open orders -/

theorem ownLots_nonneg {a : Pubkey} {ls : Multiset (BookSideOrderTree × LeafNode)}
    (h : ∀ x ∈ ls, 0 < x.2.quantity) : 0 ≤ ownLots a ls := by
  apply Multiset.sum_nonneg
  intro n hn
  obtain ⟨x, hx, rfl⟩ := Multiset.mem_map.mp hn
  split
  · exact Int.le_of_lt (h x hx)
  · exact Int.le_refl 0

theorem makerLots_nonneg (a : Pubkey) (side : Side) {e : AnyEvent} (h : e.Positive) :
    0 ≤ e.makerLots a side := by
  cases e with
  | fill f =>
    show 0 ≤ if _ then f.quantity else 0
    split
    · exact Int.le_of_lt h
    · exact Int.le_refl 0
  | out o =>
    show 0 ≤ if _ then o.quantity else 0
    split
    · exact Int.le_of_lt h
    · exact Int.le_refl 0
  | liquidate => exact Int.le_refl 0

theorem queuedLots_nonneg {c : Clearing} (hpos : c.Positive) (a : Pubkey) (side : Side) :
    0 ≤ c.queuedLots a side := by
  apply sum_nonneg
  intro n hn
  obtain ⟨e, he, rfl⟩ := mem_map.mp hn
  exact makerLots_nonneg a side (hpos.events e he)

theorem maker_nonneg {c : Clearing} (hpos : c.Positive) (hb : c.MakerBalanced) (a : Pubkey)
    (side : Side) : 0 ≤ (c.position a).maker side := by
  rw [hb a side]
  have hbook := ownLots_nonneg (a := a) (hpos.leaves side)
  have hqueue := queuedLots_nonneg hpos a side
  omega

/-- After every run of orders, cancels and event consumption (and of any other
    instruction that does not reach into the market from outside), the lots in
    open orders of an account are those of its orders on the book plus those
    of the queued events that will release them. -/
theorem openLots_balanced (hs : s.Fresh) {calls : List Call}
    (hcalls : ∀ call ∈ calls, Undisturbed m call) (a : Pubkey) :
    let s' := run exec s calls
    (s'.positionOf a m).bidsBaseLots = ownLots a (s'.bookOf m).bids.leaves +
      ((s'.eventsOf m).map (AnyEvent.makerLots a .bid)).sum ∧
    (s'.positionOf a m).asksBaseLots = ownLots a (s'.bookOf m).asks.leaves +
      ((s'.eventsOf m).map (AnyEvent.makerLots a .ask)).sum ∧
    0 ≤ (s'.positionOf a m).bidsBaseLots ∧ 0 ≤ (s'.positionOf a m).asksBaseLots := by
  intro s'
  have hstart : (s.clearing m).MakerBalanced := by
    intro b side
    rw [hs.position, Clearing.queuedLots, hs.events, hs.leaves]
    simp
  obtain ⟨hsound, hb⟩ := run_keeps (fun _ _ hc hstep => hstep.makerBalanced hc) hs.sound hstart calls hcalls
  have hbid := hb a .bid
  have hask := hb a .ask
  have hbid0 := maker_nonneg (hsound.positive m) hb a .bid
  have hask0 := maker_nonneg (hsound.positive m) hb a .ask
  rw [clearing_position] at hbid hask hbid0 hask0
  rw [clearing_leaves] at hbid hask
  exact ⟨hbid, hask, hbid0, hask0⟩

/-- An ask that is half filled and then cancelled. -/
def halfFilled : List Call :=
  [⟨0, .limitAt20 1 .ask 4⟩,
    ⟨0, .limitAt20 2 .bid 2⟩,
    ⟨0, .cancelOrderBySlot 1 0⟩]

theorem halfFilled_openLots :
    let s' := run exec (twoTraders 0) halfFilled
    (s'.positionOf 1 0).asksBaseLots = ownLots 1 (s'.bookOf 0).asks.leaves +
      ((s'.eventsOf 0).map (AnyEvent.makerLots 1 .ask)).sum :=
  (openLots_balanced (twoTraders_fresh 0)
    (by
      intro call hcall
      simp only [halfFilled, mem_cons, not_mem_nil, or_false] at hcall
      rcases hcall with rfl | rfl | rfl <;> exact Or.inl rfl) 1).2.1

/-! ## Lots of taken fills, and base positions -/

/-- After every run, the taker lots of an account are the base and quote
    changes of the queued fills it has taken, and the base positions of all
    accounts add up to nothing. -/
theorem takerLots_balanced (hs : s.Fresh) {calls : List Call}
    (hcalls : ∀ call ∈ calls, Undisturbed m call) :
    let s' := run exec s calls
    (∀ a, (s'.positionOf a m).takerBaseLots = ((s'.eventsOf m).map (AnyEvent.takerLots a)).sum.1 ∧
      (s'.positionOf a m).takerQuoteLots = ((s'.eventsOf m).map (AnyEvent.takerLots a)).sum.2) ∧
    ∑ a, (s'.positionOf a m).basePositionLots = 0 := by
  intro s'
  have hstart : (s.clearing m).TakerBalanced ∧ (s.clearing m).BaseBalanced := by
    refine ⟨fun b => ?_, ?_⟩
    · rw [hs.position, Clearing.queuedTaker, hs.events]
      rfl
    · exact Finset.sum_eq_zero fun b _ => by rw [hs.position]; rfl
  obtain ⟨-, htaker, hbase⟩ := run_keeps (J := fun c => c.TakerBalanced ∧ c.BaseBalanced)
    (fun _ _ hc hstep => ⟨hstep.takerBalanced hc.1, hstep.baseChange.baseBalanced hc.2⟩) hs.sound
    hstart calls hcalls
  refine ⟨fun a => ?_, ?_⟩
  · have ha := htaker a
    rw [clearing_position] at ha
    exact ⟨congrArg Prod.fst ha, congrArg Prod.snd ha⟩
  · have hsum : ∑ a, ((s'.clearing m).position a).base = 0 := hbase
    simp only [clearing_position] at hsum
    exact hsum

/-- A fill and its consumption, then a forced close of what it opened. -/
def forcedClose : List Call :=
  [⟨0, .limitAt20 1 .ask 4⟩,
    ⟨0, .limitAt20 2 .bid 2⟩,
    ⟨0, .perpConsumeEvents [1, 2] 8 0 0⟩,
    ⟨0, .perpForceClosePosition 2 1 (.ofSmall 20)⟩]

theorem forcedClose_base :
    ∑ a, ((run exec (twoTraders 0) forcedClose).positionOf a 0).basePositionLots = 0 :=
  (takerLots_balanced (twoTraders_fresh 0)
    (by
      intro call hcall
      simp only [forcedClose, mem_cons, not_mem_nil, or_false] at hcall
      rcases hcall with rfl | rfl | rfl | rfl <;> exact Or.inl rfl)).2

/-! ## Open interest -/

/-- After every run, the open interest of the market is what all accounts
    together hold, long or short. -/
theorem openInterest_balanced (hs : s.Fresh) {calls : List Call}
    (hcalls : ∀ call ∈ calls, Undisturbed m call) :
    let s' := run exec s calls
    s'.openInterestOf m = ∑ a, |(s'.positionOf a m).basePositionLots| ∧ 0 ≤ s'.openInterestOf m ∧
    (s'.openInterestOf m = 0 ↔ ∀ a, (s'.positionOf a m).basePositionLots = 0) := by
  intro s'
  have hstart : (s.clearing m).InterestBalanced := by
    show (s.clearing m).openInterest = _
    rw [hs.openInterest]
    exact (Finset.sum_eq_zero fun b _ => by rw [hs.position]; rfl).symm
  obtain ⟨-, hinterest⟩ := run_keeps (fun _ _ hc hstep => hstep.baseChange.interestBalanced hc)
    hs.sound hstart calls hcalls
  have hsum : s'.openInterestOf m = ∑ a, |(s'.positionOf a m).basePositionLots| := by
    have h : (s'.clearing m).openInterest = ∑ a, |((s'.clearing m).position a).base| := hinterest
    simp only [clearing_position] at h
    exact h
  refine ⟨hsum, ?_, ?_⟩
  · rw [hsum]
    exact Finset.sum_nonneg fun a _ => abs_nonneg _
  · rw [hsum, Finset.sum_eq_zero_iff_of_nonneg fun a _ => abs_nonneg _]
    simp only [Finset.mem_univ, forall_const, abs_eq_zero]

/-- A position that is liquidated after its fill. -/
def liquidated : List Call :=
  [⟨0, .limitAt20 1 .ask 4⟩,
    ⟨0, .limitAt20 2 .bid 2⟩,
    ⟨0, .perpConsumeEvents [1, 2] 8 0 0⟩,
    ⟨0, .perpLiqBaseOrPositivePnl 1 2 (.ofSmall 20) 1 ⟨[1], .zero, 0, 0⟩ 0⟩]

theorem liquidated_openInterest :
    (run exec (twoTraders 0) liquidated).openInterestOf 0 =
      ∑ a, |((run exec (twoTraders 0) liquidated).positionOf a 0).basePositionLots| :=
  (openInterest_balanced (twoTraders_fresh 0)
    (by
      intro call hcall
      simp only [liquidated, mem_cons, not_mem_nil, or_false] at hcall
      rcases hcall with rfl | rfl | rfl | rfl <;> exact Or.inl rfl)).1

end Exchange

end MangoV4
