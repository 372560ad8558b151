/-
  MangoV4.Exchange.Resize

  Accounts that change the number of their open-order slots while events are
  queued (`account_expand.rs`).

  Orders and events refer to slots by index.  The slot of a resting order is in
  use and cannot be removed, but the slot of an event may be free already, and
  `account_expand` does not look at events.  As long as it leaves the slots
  that events refer to, all indices are in range (`Clearing.InRange`).
-/

import MangoV4.Exchange.Faults
import MangoV4.State.Resize

namespace MangoV4

open Lib Lib.Exec Relation MangoAccount BookSide

namespace Clearing

/-- Orders and events refer to slots that exist. -/
structure InRange (s : Clearing) : Prop where
  leaves : ∀ side, ∀ x ∈ s.leaves side, x.2.ownerSlot < (s.slots x.2.owner).length
  events : ∀ e ∈ s.events, ∀ r ∈ e.ref, r.slot < (s.slots r.owner).length

variable {m : PerpMarketIndex} {K : Clearing → Pubkey → Prop} {s s' : Clearing}

theorem length_withSlots {a : Pubkey} {orders : List PerpOpenOrder}
    (h : orders.length = (s.slots a).length) (b : Pubkey) :
    ((s.withSlots a orders).slots b).length = (s.slots b).length := by
  rw [withSlots_slots]
  by_cases hb : b = a
  · rw [hb, Function.update_self, h]
  · rw [Function.update_of_ne hb]

/-- No step creates or removes a slot. -/
theorem Step.slotCount (h : Step m K s s') (a : Pubkey) :
    (s'.slots a).length = (s.slots a).length := by
  cases h with
  | post _ _ _ _ _ _ => exact length_withSlots List.length_set a
  | cancel _ _ _ _ _ _ _ _ => exact length_withSlots List.length_set a
  | forget _ _ _ _ => exact length_withSlots List.length_set a
  | settleFill _ _ _ hslots => exact length_withSlots hslots.length_eq a
  | settleOut _ _ hslots => exact length_withSlots hslots.length_eq a
  | elsewhere _ hcount => exact hcount a
  | count _ => rfl
  | fill _ _ _ => rfl
  | drop _ _ => rfl
  | skip _ => rfl
  | transfer _ _ _ _ => rfl
  | opened _ => rfl
  | closed _ _ => rfl

/-- Orders are old or refer to a slot, and events are old or about an old order. -/
theorem InRange.next (hs : s.InRange) (hcount : ∀ a, (s'.slots a).length = (s.slots a).length)
    (hleaves : ∀ side, ∀ y ∈ s'.leaves side,
      y ∈ s.leaves side ∨ y.2.ownerSlot < (s.slots y.2.owner).length)
    (hevents : ∀ e ∈ s'.events, e ∈ s.events ∨ ∀ r ∈ e.ref, r.slot < (s.slots r.owner).length) :
    s'.InRange := by
  refine ⟨fun side y hy => ?_, fun e he r hr => ?_⟩
  · rw [hcount]
    exact (hleaves side y hy).elim (hs.leaves side y) id
  · rw [hcount]
    exact (hevents e he).elim (fun hold => hs.events e hold r hr) fun hnew => hnew r hr

theorem Step.inRange (h : Step m K s s') (hs : s.InRange) : s'.InRange := by
  refine hs.next h.slotCount (fun side y hy => ?_) fun e he => ?_
  · rcases h.leaf_cases hy with ⟨o, quantity, ho, hy, -⟩ | ⟨-, -, -, hslot⟩
    · rw [hy]
      exact .inr (hs.leaves side _ ho)
    · exact .inr hslot
  · rcases h.event_cases he with hold | ⟨side, c, o, ho, ⟨f, _, rfl, hfill, -⟩ | ⟨out, rfl, hout⟩⟩
    · exact .inl hold
    · right
      rintro r ⟨⟩
      rw [hfill.maker, hfill.makerSlot]
      exact hs.leaves side _ ho
    · right
      rintro r ⟨⟩
      rw [hout.owner, hout.ownerSlot]
      exact hs.leaves side _ ho

end Clearing

namespace Exchange

/-! ## account_expand -/

/-- Writes back a loaded account. -/
def storeAccount (s : Exchange) (pk : Pubkey) (account : MangoAccount) : Exchange :=
  { s with accounts := s.accounts.store pk account }

def accountExpand (s : Exchange) (pk : Pubkey) (new : MangoAccountDynamicHeader)
    (hnew : new.perpOoCount < 2 ^ 8) : Exec Exchange := do
  let account ← s.accounts.load pk
  let account ← account.resizeDynamicContent new hnew
  return s.storeAccount pk account

/-- Calls on markets, and accounts that are resized. -/
inductive ResizeOp where
  | call (c : Call)
  | accountExpand (pk : Pubkey) (new : MangoAccountDynamicHeader) (hnew : new.perpOoCount < 2 ^ 8)

def ResizeOp.exec : ResizeOp → Exchange → Exec (Unit × Exchange)
  | .call c, s => Exchange.exec c s
  | .accountExpand pk new hnew, s => do return ((), ← s.accountExpand pk new hnew)

/-- The account keeps the slots that queued events refer to.  In the market
    whose index marks free slots, or once ids have been used up, that has to be
    said of resting orders, too. -/
def ResizeOp.KeepsSlots : ResizeOp → Exchange → Prop
  | .call _, _ => True
  | .accountExpand pk new _, s => ∀ m,
      (∀ e ∈ s.eventsOf m, ∀ r ∈ e.ref, r.owner = pk → r.slot < new.perpOoCount) ∧
      (m = FREE_ORDER_SLOT ∨ 2 ^ 63 ≤ s.seqNumOf m →
        ∀ x ∈ s.restingOf m, x.2.2.owner = pk → x.2.2.ownerSlot < new.perpOoCount)

/-- What holds of an exchange whose accounts are resized. -/
structure Ranged (s : Exchange) : Prop where
  sound : s.Sound
  inRange : ∀ m, (s.clearing m).InRange
  tracked : ∀ m, m ≠ FREE_ORDER_SLOT → (s.clearing m).seqNum < 2 ^ 63 → (s.clearing m).Tracked m

variable {s s' : Exchange}

theorem Fresh.ranged (h : s.Fresh) : s.Ranged where
  sound := h.sound
  inRange := fun m => by
    refine ⟨fun side x hx => ?_, fun e he => ?_⟩
    · rw [h.leaves side] at hx
      exact absurd hx (Multiset.notMem_zero x)
    · rw [h.events] at he
      cases he
  tracked := fun _ hfree _ => h.tracked hfree

theorem exec_ranged {call : Call} {r : Unit} (hs : s.Ranged) (h : Exchange.exec call s = .ok (r, s')) :
    s'.Ranged := by
  refine ⟨exec_sound hs.sound h, fun m => ?_, fun m hfree hfew => ?_⟩
  · obtain ⟨market, market', accounts', hmarket, hop, rfl⟩ := exec_ok h
    have hrefines := exec_refines (K := fun _ _ => True) hs.sound hmarket (fun _ _ => trivial) hop
    by_cases hm : call.market = m
    · subst hm
      have hrange := hs.inRange call.market
      rw [clearing_of_market hmarket] at hrange
      rw [clearing_store_self]
      exact invariant_of_steps (J := Clearing.InRange) (fun _ _ hc hstep => hstep.inRange hc)
        hrefines.steps hrange
    · -- another market: its orders and events, and how many slots there are
      have hsame : (s.store call.market market' accounts').markets m = s.markets m :=
        markets_store_of_ne (Ne.symm hm)
      refine (hs.inRange m).next hrefines.apart.slotCount (fun side y hy => .inl ?_)
        fun e he => .inl ?_
      · rw [clearing, hsame] at hy
        exact hy
      · rw [clearing, hsame] at he
        exact he
  · have hsteps := exec_steps (m := m) (K := fun _ _ => True) hs.sound (.inr (.inl hfree))
      (fun _ _ => trivial) h
    exact (invariant_of_steps (J := fun c => c.Keyed ∧ (c.seqNum < 2 ^ 63 → c.Tracked m))
      (fun _ _ hc hstep => hstep.keyed_tracked hfree hc) hsteps
      ⟨hs.sound.keyed m, hs.tracked m hfree⟩).2 hfew

theorem accounts_storeAccount_self (s : Exchange) (pk : Pubkey) (account : MangoAccount) :
    (s.storeAccount pk account).accounts pk = some account :=
  store_self ..

theorem accounts_storeAccount_of_ne {pk a : Pubkey} {account : MangoAccount} (h : a ≠ pk) :
    (s.storeAccount pk account).accounts a = s.accounts a :=
  store_of_ne h

theorem accountExpand_ok {pk : Pubkey} {new : MangoAccountDynamicHeader}
    {hnew : new.perpOoCount < 2 ^ 8} (h : s.accountExpand pk new hnew = .ok s') :
    ∃ account account', s.accounts pk = some account ∧
      account.resizeDynamicContent new hnew = .ok account' ∧
      s' = s.storeAccount pk account' := by
  obtain ⟨account, hload, h⟩ := of_bind h
  obtain ⟨account', hresize, h⟩ := of_bind h
  obtain rfl := ok_inj h
  exact ⟨account, account', load_eq_ok.mp hload, hresize, rfl⟩

section Expand

variable {pk : Pubkey} {account account' : MangoAccount} {new : MangoAccountDynamicHeader}
  {hnew : new.perpOoCount < 2 ^ 8} (hpk : s.accounts pk = some account)
  (hresize : account.resizeDynamicContent new hnew = .ok account')

include hpk hresize

/-- Open orders of an ordinary market are where they were. -/
theorem expand_active {m : PerpMarketIndex} (hm : m ≠ FREE_ORDER_SLOT) (a : Pubkey) (i : Nat)
    (oo : PerpOpenOrder) :
    Clearing.Active m ((s.storeAccount pk account').clearing m) a i oo ↔
      Clearing.Active m (s.clearing m) a i oo := by
  rw [active_clearing, active_clearing, slotOf, slotOf]
  by_cases ha : a = pk
  · subst ha
    rw [accounts_storeAccount_self, hpk, Option.bind_some, Option.bind_some]
    constructor
    · rintro ⟨hoo, hmarket⟩
      exact ⟨(resizeDynamicContent_sameSlots hresize hm i oo hmarket).mp hoo, hmarket⟩
    · rintro ⟨hoo, hmarket⟩
      exact ⟨(resizeDynamicContent_sameSlots hresize hm i oo hmarket).mpr hoo, hmarket⟩
  · rw [accounts_storeAccount_of_ne ha]

omit hpk in
theorem expand_slotCount (m : PerpMarketIndex) (a : Pubkey) :
    (((s.storeAccount pk account').clearing m).slots a).length =
      if a = pk then new.perpOoCount else ((s.clearing m).slots a).length := by
  show ((s.accounts.store pk account' a).elim [] perpOpenOrders).length = _
  by_cases ha : a = pk
  · subst ha
    rw [store_self, if_pos rfl]
    exact resizeDynamicContent_slotCount hresize
  · rw [store_of_ne ha, if_neg ha]
    rfl

theorem expand_sound (hs : s.Sound) :
    (s.storeAccount pk account').Sound where
  index := hs.index
  book := hs.book
  count := fun a b hb m hm => by
    by_cases ha : a = pk
    · subst ha
      rw [accounts_storeAccount_self] at hb
      obtain rfl := Option.some.inj hb
      exact Nat.le_trans (resizeDynamicContent_perpCount hresize hm)
        (hs.count a account hpk m hm)
    · rw [accounts_storeAccount_of_ne ha] at hb
      exact hs.count a b hb m hm
  positive := fun m => ⟨(hs.positive m).leaves, (hs.positive m).events⟩
  keyed := fun m => ⟨(hs.keyed m).seqNum_lt, (hs.keyed m).leaves⟩

theorem expand_ranged (hs : s.Ranged) (hkeeps : (ResizeOp.accountExpand pk new hnew).KeepsSlots s) :
    (s.storeAccount pk account').Ranged := by
  have hcount : ∀ m a, (((s.storeAccount pk account').clearing m).slots a).length =
      if a = pk then new.perpOoCount else ((s.clearing m).slots a).length :=
    expand_slotCount hresize
  refine ⟨expand_sound hpk hresize hs.sound, fun m => ⟨fun side x hx => ?_, fun e he r hr => ?_⟩,
    fun m hm hfew => ?_⟩
  · rw [hcount]
    have hold := (hs.inRange m).leaves side x hx
    by_cases ha : x.2.owner = pk
    · rw [if_pos ha]
      by_cases hodd : m = FREE_ORDER_SLOT ∨ 2 ^ 63 ≤ s.seqNumOf m
      · exact (hkeeps m).2 hodd (side, x) (mem_restingOf.mpr hx) ha
      · -- the slot of the order is in use, so that it is still there
        obtain ⟨hm, hfew⟩ := not_or.mp hodd
        obtain ⟨oo, hoo, -⟩ := (hs.tracked m hm (Nat.lt_of_not_le hfew)).held side x hx
        have hoo' := ((expand_active hpk hresize hm _ _ oo).mpr hoo).1
        have hlt := (List.getElem?_eq_some_iff.mp hoo').1
        rwa [hcount, if_pos ha] at hlt
    · rw [if_neg ha]
      exact hold
  · rw [hcount]
    by_cases ha : r.owner = pk
    · rw [if_pos ha]
      exact (hkeeps m).1 e he r hr ha
    · rw [if_neg ha]
      exact (hs.inRange m).events e he r hr
  · exact (hs.tracked m hm hfew).quiet (hs.sound.keyed m) (Nat.le_refl _) rfl (fun _ he => he)
      (expand_active hpk hresize hm)

end Expand

theorem ResizeOp.exec_ranged {op : ResizeOp} {r : Unit} (hs : s.Ranged) (hop : op.KeepsSlots s)
    (h : op.exec s = .ok (r, s')) : s'.Ranged := by
  cases op with
  | call c => exact Exchange.exec_ranged hs h
  | accountExpand pk new hnew =>
    obtain ⟨_, hexpand, h⟩ := of_bind h
    obtain ⟨-, rfl⟩ := ok_inj₂ h
    obtain ⟨account, account', hpk, hresize, rfl⟩ := accountExpand_ok hexpand
    exact expand_ranged hpk hresize hs hop

/-- If accounts keep the slots that queued events refer to, every queued event
    refers to a slot of its account in every state of a run, and processing
    events finds all their slots. -/
theorem queued_slots_in_range (hs : s.Fresh) (ops : List ResizeOp)
    (hops : Guarded ResizeOp.exec ResizeOp.KeepsSlots s ops) (m : PerpMarketIndex) :
    (∀ e ∈ (run ResizeOp.exec s ops).eventsOf m, ∀ r ∈ e.ref,
      ∃ account, (run ResizeOp.exec s ops).accounts r.owner = some account ∧
        r.slot < account.perpOpenOrders.length) ∧
    ∀ passed limit nowTs interval,
      exec ⟨m, .perpConsumeEvents passed limit nowTs interval⟩ (run ResizeOp.exec s ops) ≠
        .error (.panic .outOfBounds) := by
  have hranged := run_preserves_of_guarded (P := Ranged)
    (fun op s r s' hs hop h => ResizeOp.exec_ranged hs hop h) ops s hs.ranged hops
  generalize run ResizeOp.exec s ops = t at hranged
  refine ⟨fun e he r hr => ?_, fun passed limit nowTs interval => ?_⟩
  · have hslot := (hranged.inRange m).events e he r hr
    replace hslot : r.slot < ((t.accounts r.owner).elim [] perpOpenOrders).length := hslot
    cases ha : t.accounts r.owner with
    | none =>
      rw [ha] at hslot
      exact absurd hslot (Nat.not_lt_zero _)
    | some account =>
      rw [ha] at hslot
      exact ⟨account, rfl, hslot⟩
  · refine (faults_perpConsumeEvents (F := (· ≠ .panic .outOfBounds)) (K := fun _ _ => True)
      (C := fun c => c.Positive ∧ c.InRange) ⟨by decide, by decide, by decide⟩ (by decide)
      (fun hc => hc.1) (fun hstep hc => ⟨hstep.positive hc.1, hstep.inRange hc.2⟩)
      (fun _ _ _ _ _ _ => by decide) (fun hc e he r hr hle => ?_) hranged.sound
      ⟨hranged.sound.positive m, hranged.inRange m⟩ passed limit nowTs interval).not_of
      (not_not_intro rfl)
    exact absurd (hc.2.events e he r hr) (not_lt.mpr hle)

theorem ResizeOp.markets_run_of_none {m : PerpMarketIndex} (h : s.markets m = none)
    (ops : List ResizeOp) : (run ResizeOp.exec s ops).markets m = none := by
  refine run_preserves (P := fun t : Exchange => t.markets m = none)
    (fun op t r t' ht hexec => ?_) ops h
  cases op with
  | call c =>
    have hexec : Exchange.exec c t = .ok (r, t') := hexec
    have hstep := Exchange.markets_run_of_none ht [c]
    rw [run, stepState_of_ok hexec] at hstep
    exact hstep
  | accountExpand pk new hnew =>
    obtain ⟨_, hexpand, hexec⟩ := of_bind hexec
    obtain ⟨-, rfl⟩ := ok_inj₂ hexec
    obtain ⟨account, account', -, -, rfl⟩ := accountExpand_ok hexpand
    exact ht

/-- An order is partly filled and cancelled. -/
def filledAndCancelled : List ResizeOp :=
  [.call ⟨0, .limitAt20 1 .ask 4⟩,
    .call ⟨0, .limitAt20 2 .bid 2⟩,
    .call ⟨0, .cancelOrderBySlot 1 0⟩]

/-- The other slot is removed, and the fill is processed in the one that is left. -/
theorem filledAndCancelled_in_range :
    let s := run ResizeOp.exec (twoTraders 0)
      (filledAndCancelled ++ [.accountExpand 1 ⟨1, 0, 1, 1, 0⟩ (by decide)])
    (∃ e ∈ s.eventsOf 0, ∃ r ∈ e.ref, ∃ account ∈ s.accounts r.owner,
      account.perpOpenOrders = [.cleared]) ∧
    (∀ e ∈ s.eventsOf 0, ∀ r ∈ e.ref, ∃ account, s.accounts r.owner = some account ∧
      r.slot < account.perpOpenOrders.length) ∧
    ∀ passed limit nowTs interval,
      exec ⟨0, .perpConsumeEvents passed limit nowTs interval⟩ s ≠ .error (.panic .outOfBounds) := by
  refine ⟨by decide +kernel, queued_slots_in_range (twoTraders_fresh 0) _ ?_ 0⟩
  refine ⟨trivial, trivial, trivial, fun m => ?_, trivial⟩
  by_cases hm : m = 0
  · subst hm
    decide +kernel
  · have hnone : (run ResizeOp.exec (twoTraders 0) filledAndCancelled).markets m = none :=
      ResizeOp.markets_run_of_none (by simp only [twoTraders, Function.update_of_ne hm]) _
    refine ⟨fun e he => ?_, fun _ x hx => ?_⟩
    · replace he : e ∈ (run ResizeOp.exec (twoTraders 0) filledAndCancelled).eventsOf m := he
      rw [eventsOf, hnone] at he
      cases he
    · replace hx : x ∈ (run ResizeOp.exec (twoTraders 0) filledAndCancelled).restingOf m := hx
      rw [restingOf, bookOf, hnone] at hx
      replace hx : x ∈ (zeroed .bids).leaves.map (Prod.mk Side.bid) +
        (zeroed .asks).leaves.map (Prod.mk Side.ask) := hx
      exact absurd hx (Multiset.notMem_zero x)

/-- Of two orders one is cancelled and the other partly filled.  That is
    cancelled, too, and both slots are removed before the fill is processed. -/
def slotsRemoved : List ResizeOp :=
  [.call ⟨0, .limitAt20 1 .ask 1⟩,
    .call ⟨0, .limitAt20 1 .ask 4⟩,
    .call ⟨0, .cancelOrderBySlot 1 0⟩,
    .call ⟨0, .limitAt20 2 .bid 2⟩,
    .call ⟨0, .cancelOrderBySlot 1 1⟩,
    .accountExpand 1 ⟨1, 0, 1, 0, 0⟩ (by decide)]

/-- The queued fill refers to a slot that is not there any more. -/
theorem slotsRemoved_out_of_range :
    (twoTraders 0).Fresh ∧
    (∃ e ∈ (run ResizeOp.exec (twoTraders 0) slotsRemoved).eventsOf 0, ∃ r ∈ e.ref,
      ∃ account ∈ (run ResizeOp.exec (twoTraders 0) slotsRemoved).accounts r.owner,
        account.perpOpenOrders.length ≤ r.slot) ∧
    (exec ⟨0, .perpConsumeEvents [1, 2] 8 0 0⟩
      (run ResizeOp.exec (twoTraders 0) slotsRemoved)).map Prod.fst =
        .error (.panic .outOfBounds) :=
  ⟨twoTraders_fresh 0, by decide +kernel, by decide +kernel⟩

end Exchange

end MangoV4
