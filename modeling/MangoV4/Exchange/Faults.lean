/-
  MangoV4.Exchange.Faults

  How the processing of events fails.

  An account that cannot be loaded apart, an event fails for want of a position
  only if an account it names has none, and for want of a slot only if the
  owner of its order has fewer slots.
-/

import MangoV4.Exchange.OpenOrders

namespace MangoV4

open Lib Lib.Exec

namespace Exchange

variable {F : Fault MangoError → Prop} {perpMarket : PerpMarket} {accounts : Accounts}
  {market : Market} {passed : List Pubkey} {nowTs interval : Nat}

theorem faults_loadPassed (hload : F (.error .accountNotInitialized)) (passed : List Pubkey)
    (key : Pubkey) : Faults F (loadPassed accounts passed key) := by
  unfold loadPassed Accounts.load
  cases accounts key <;> simp [hload]

theorem faults_consumeEvent (hF : Computes F) (hload : F (.error .accountNotInitialized))
    {event : AnyEvent} (hnamed : ∀ a account, event.Names a → accounts a = some account →
      account.ledgerOf perpMarket.perpMarketIndex = none → F (.error .perpPositionDoesNotExist))
    (hslot : ∀ r ∈ event.ref, ∀ account, accounts r.owner = some account →
      account.perpOpenOrders.length ≤ r.slot → F (.panic .outOfBounds)) :
    Faults F (consumeEvent perpMarket accounts passed nowTs interval event) := by
  cases event with
  | fill f =>
    have hmaker := fun account haccount => hnamed f.maker account (Or.inl rfl) haccount
    have hslot := hslot _ rfl
    refine .ite (fun hself => ?_) fun hne => ?_
    · refine .bind_of (faults_loadPassed hload _ _) fun o ho => ?_
      cases o with
      | none => exact .pure _
      | some account =>
        have ha := loadPassed_eq_some ho
        refine .bind_of (account.faults_executePerpMaker hF _ _ (hmaker account ha)
          (hslot account ha)) fun r hexecuted => ?_
        obtain ⟨maker, perpMarket₁⟩ := r
        obtain ⟨⟨l, l', -, hmoves, hmarket⟩, -⟩ := MangoAccount.executePerpMaker_spec hexecuted
        refine .bind (maker.faults_executePerpTaker hF (fun hnone => ?_) f) fun _ => .pure _
        rw [hmarket, PerpMarket.track_perpMarketIndex, hmoves.after] at hnone
        cases hnone
    · refine .bind_of (faults_loadPassed hload _ _) fun o ho => ?_
      cases o with
      | none => exact .pure _
      | some maker =>
        refine .bind_of (faults_loadPassed hload _ _) fun o ho' => ?_
        cases o with
        | none => exact .pure _
        | some taker =>
          have ha := loadPassed_eq_some ho
          refine .bind_of (maker.faults_executePerpMaker hF _ _ (hmaker maker ha)
            (hslot maker ha)) fun r hexecuted => ?_
          obtain ⟨maker', perpMarket₁⟩ := r
          obtain ⟨⟨l, l', -, -, hmarket⟩, -⟩ := MangoAccount.executePerpMaker_spec hexecuted
          refine .bind (taker.faults_executePerpTaker hF (fun hnone => ?_) f) fun _ => .pure _
          rw [hmarket, PerpMarket.track_perpMarketIndex] at hnone
          exact hnamed f.taker taker (Or.inr rfl) (loadPassed_eq_some ho') hnone
  | out e =>
    refine .bind_of (faults_loadPassed hload _ _) fun o ho => ?_
    cases o with
    | none => exact .pure _
    | some owner =>
      have ha := loadPassed_eq_some ho
      exact .bind (owner.faults_executePerpOutEvent hF _ _ _ (hnamed e.owner owner rfl ha)
        (hslot _ rfl owner ha)) fun _ => .pure _
  | liquidate => exact .ok _

section Loop

variable {m : PerpMarketIndex} {K : Clearing → Pubkey → Prop} {C : Clearing → Prop}
  (hF : Computes F) (hload : F (.error .accountNotInitialized))
  (hpositive : ∀ {c}, C c → c.Positive) (hstep : ∀ {c c'}, Clearing.Step m K c c' → C c → C c')
  (hnamed : ∀ {c}, C c → ∀ e ∈ c.events, ∀ a, e.Names a → c.ledger a = none →
    F (.error .perpPositionDoesNotExist))
  (hslot : ∀ {c}, C c → ∀ e ∈ c.events, ∀ r ∈ e.ref, (c.slots r.owner).length ≤ r.slot →
    F (.panic .outOfBounds))

include hF hload hpositive hstep hnamed hslot

/-- Steps of the clearing keep `C`, so it decides how each of the events fails. -/
theorem faults_consumeLoop (passed : List Pubkey) (nowTs interval : Nat) :
    ∀ (limit : Nat) {market : Market} {accounts : Accounts},
      market.perpMarket.perpMarketIndex = m → C (clearingOf m market accounts) →
      Faults F (consumeLoop passed nowTs interval limit market accounts) := by
  intro limit
  induction limit with
  | zero => exact fun _ _ => .ok _
  | succ limit ih =>
    intro market accounts hindex hC
    unfold consumeLoop
    rw [EventQueue.peekFront_eq]
    cases hevents : market.eventQueue.events with
    | nil => exact .ok _
    | cons event es =>
      have hfront : event ∈ (clearingOf m market accounts).events := by
        rw [clearingOf_events, hevents]
        exact List.mem_cons_self ..
      refine .bind_of (faults_consumeEvent hF hload (fun a account hname ha => ?_)
        fun r hr account ha => ?_) fun o hconsume => ?_
      · rw [hindex, ← ledger_of_account m market ha]
        exact hnamed hC event hfront a hname
      · rw [← slots_of_account m market ha]
        exact hslot hC event hfront r hr
      · cases o with
        | none => exact .pure _
        | some r =>
          obtain ⟨perpMarket₁, accounts₁⟩ := r
          obtain ⟨q₁, hpop, hq⟩ := EventQueue.popFront_of_cons hevents
          simp only [hpop, ok_bind]
          obtain ⟨⟨_, rfl⟩, hnext, -⟩ := consumeEvent_step (K := K) (P := True) market.book hevents
            ((hpositive hC).events event hfront) hindex hq hconsume
          exact ih hindex (hstep hnext hC)

theorem faults_perpConsumeEvents {s : Exchange} (hs : s.Sound) (hC : C (s.clearing m))
    (passed : List Pubkey) (limit nowTs interval : Nat) :
    Faults F (exec ⟨m, .perpConsumeEvents passed limit nowTs interval⟩ s) := by
  refine .bind_of ?_ fun market hmarket => .bind ?_ fun _ => .pure _
  · unfold loadMarket
    cases s.markets m <;> simp [hload]
  · have hmarket := loadMarket_eq_ok.mp hmarket
    exact faults_consumeLoop hF hload hpositive hstep hnamed hslot passed nowTs interval _
      (hs.index m market hmarket) (clearing_of_market hmarket ▸ hC)

end Loop

end Exchange

end MangoV4
