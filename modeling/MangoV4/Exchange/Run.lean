/-
  MangoV4.Exchange.Run

  Runs of the exchange, seen from the clearing of one market.

  Whatever the steps of a clearing keep holds after every run of the exchange
  (`simulates`).  A run starts from an exchange on which nothing has been
  traded (`Fresh`).
-/

import MangoV4.Exchange.Positions

namespace MangoV4

open Lib Lib.Exec Relation List Function MangoAccount BookSide Clearing

namespace Exchange

/-- The instruction neither creates nor closes positions. -/
def Op.keepsPositions : Op → Bool
  | .perpPlaceOrder .. => false
  | .perpDeactivatePosition _ => false
  | .perpLiqBaseOrPositivePnl .. => false
  | .newOrder .. => true
  | .cancelOrderBySlot .. => true
  | .cancelAllOrders .. => true
  | .perpConsumeEvents .. => true
  | .perpSettlePnl .. => true
  | .perpForceClosePosition .. => true

section ExecOp

variable {m : PerpMarketIndex} {K : Clearing → Pubkey → Prop} {market market' : Market}
  {accounts accounts' : Accounts}

/-- Every instruction refines steps of the clearing of its market. -/
theorem execOp_refines {op : Op} (h : execOp market accounts op = .ok (market', accounts'))
    (hindex : market.perpMarket.perpMarketIndex = m) (hwf : market.book.WellFormed)
    (hcount : ∀ a account, accounts a = some account → m ≠ FREE_ORDER_SLOT →
      account.perpCount m ≤ 1)
    (hpos : (clearingOf m market accounts).Positive) (hkeyed : (clearingOf m market accounts).Keyed)
    (hK : ∀ pk, op = .perpDeactivatePosition pk → K (clearingOf m market accounts) pk) :
    Refines m K (op.keepsPositions = true) market accounts market' accounts' := by
  cases op with
  | newOrder pk order oraclePrice nowTs limit =>
    obtain ⟨account, hload, h⟩ := of_bind h
    obtain ⟨⟨posted, book', perpMarket', q', account'⟩, horder, h⟩ := of_bind h
    obtain ⟨rfl, rfl⟩ := ok_inj₂ h
    exact newOrder_refines horder hindex hwf (load_eq_ok.mp hload) hpos hkeyed
  | perpPlaceOrder pk order oraclePrice funding nowTs limit interval =>
    obtain ⟨account, hload, h⟩ := of_bind h
    obtain ⟨⟨posted, market₁, account'⟩, horder, h⟩ := of_bind h
    obtain ⟨rfl, rfl⟩ := ok_inj₂ h
    exact perpPlaceOrder_refines Bool.false_ne_true horder hindex hwf (load_eq_ok.mp hload) hpos
      hkeyed
  | cancelOrderBySlot pk slot =>
    obtain ⟨account, hload, h⟩ := of_bind h
    obtain ⟨⟨book', account'⟩, hcancel, h⟩ := of_bind h
    obtain ⟨rfl, rfl⟩ := ok_inj₂ h
    rw [hindex] at hcancel
    exact (cancelOrderBySlot_releasing hcancel _ _ hwf (load_eq_ok.mp hload)).toRefines
  | cancelAllOrders pk limit sideToCancel =>
    obtain ⟨account, hload, h⟩ := of_bind h
    obtain ⟨⟨book', account'⟩, hcancel, h⟩ := of_bind h
    obtain ⟨rfl, rfl⟩ := ok_inj₂ h
    rw [hindex] at hcancel
    exact (cancelLoop_releasing _ _ sideToCancel _ hwf (load_eq_ok.mp hload) hcancel).toRefines
  | perpConsumeEvents passed limit nowTs interval =>
    exact (consumeLoop_releasing passed nowTs interval _ hindex hpos h).toRefines
  | perpSettlePnl a b oraclePrice amounts nowTs =>
    obtain ⟨_, hab, h⟩ := of_bind h
    obtain ⟨accountA, hloadA, h⟩ := of_bind h
    obtain ⟨accountB, hloadB, h⟩ := of_bind h
    obtain ⟨⟨accountA', accountB'⟩, hsettle, h⟩ := of_bind h
    obtain ⟨rfl, rfl⟩ := ok_inj₂ h
    exact perpSettlePnl_refines hsettle hindex (of_require hab)
      (load_eq_ok.mp hloadA) (load_eq_ok.mp hloadB)
  | perpDeactivatePosition pk =>
    obtain ⟨account, hload, h⟩ := of_bind h
    obtain ⟨account', hdeactivate, h⟩ := of_bind h
    obtain ⟨rfl, rfl⟩ := ok_inj₂ h
    have hpk := load_eq_ok.mp hload
    exact perpDeactivatePosition_refines Bool.false_ne_true hdeactivate hindex hpk
      (hcount pk account hpk) (hK pk rfl)
  | perpForceClosePosition a b oraclePrice =>
    obtain ⟨_, hab, h⟩ := of_bind h
    obtain ⟨accountA, hloadA, h⟩ := of_bind h
    obtain ⟨accountB, hloadB, h⟩ := of_bind h
    obtain ⟨⟨perpMarket', accountA', accountB'⟩, hclose, h⟩ := of_bind h
    obtain ⟨rfl, rfl⟩ := ok_inj₂ h
    exact perpForceClosePosition_refines hclose hindex (of_require hab)
      (load_eq_ok.mp hloadA) (load_eq_ok.mp hloadB)
  | perpLiqBaseOrPositivePnl liqorPk liqeePk oraclePrice maxBaseTransfer amounts nowTs =>
    obtain ⟨_, hne, h⟩ := of_bind h
    obtain ⟨liqor, hliqor, h⟩ := of_bind h
    obtain ⟨liqee, hliqee, h⟩ := of_bind h
    obtain ⟨⟨perpMarket', liqor', liqee'⟩, hliq, h⟩ := of_bind h
    obtain ⟨rfl, rfl⟩ := ok_inj₂ h
    exact perpLiqBaseOrPositivePnl_refines Bool.false_ne_true hliq hindex
      (of_require hne) (load_eq_ok.mp hliqor) (load_eq_ok.mp hliqee)

end ExecOp

/-! ## The clearing of each market -/

/-- The clearing of market `m`; a market that does not exist has no orders and
    no events. -/
def clearing (s : Exchange) (m : PerpMarketIndex) : Clearing where
  leaves := fun side => (s.markets m).elim 0 fun market => (market.book.bookside side).leaves
  events := (s.markets m).elim [] fun market => market.eventQueue.events
  seqNum := (s.markets m).elim 0 fun market => market.perpMarket.seqNum
  openInterest := (s.markets m).elim 0 fun market => market.perpMarket.openInterest
  ledger := fun a => (s.accounts a).bind fun account => account.ledgerOf m
  slots := fun a => (s.accounts a).elim [] MangoAccount.perpOpenOrders

section Clearing

variable {s s' : Exchange} {m : PerpMarketIndex} {market : Market}

theorem clearing_of_market (h : s.markets m = some market) :
    s.clearing m = clearingOf m market s.accounts := by
  refine Clearing.ext ?_ ?_ ?_ ?_ rfl rfl
  · funext side
    rw [clearing, h]
    rfl
  · rw [clearing, h]
    rfl
  · rw [clearing, h]
    rfl
  · rw [clearing, h]
    rfl

theorem loadMarket_eq_ok : s.loadMarket m = .ok market ↔ s.markets m = some market := by
  unfold loadMarket
  cases s.markets m with
  | none => simp [fail]
  | some market' => simp

theorem markets_store_self (s : Exchange) (m : PerpMarketIndex) (market : Market)
    (accounts : Accounts) : (s.store m market accounts).markets m = some market :=
  update_self ..

variable {index : PerpMarketIndex} {call : Call} {r : Unit}

theorem markets_store_of_ne {accounts : Accounts} (h : m ≠ index) :
    (s.store index market accounts).markets m = s.markets m :=
  update_of_ne h ..

theorem clearing_store_self (s : Exchange) (m : PerpMarketIndex) (market : Market)
    (accounts : Accounts) : (s.store m market accounts).clearing m = clearingOf m market accounts :=
  clearing_of_market (markets_store_self ..)

/-! ## What can be read off an exchange -/

/-- The orderbook of a market; there is nothing on the book of a market that does not exist. -/
def bookOf (s : Exchange) (m : PerpMarketIndex) : Orderbook :=
  (s.markets m).elim ⟨.zeroed .bids, .zeroed .asks⟩ Market.book

/-- The events on the queue of a market. -/
def eventsOf (s : Exchange) (m : PerpMarketIndex) : List AnyEvent :=
  (s.markets m).elim [] fun market => market.eventQueue.events

def openInterestOf (s : Exchange) (m : PerpMarketIndex) : Int :=
  (s.markets m).elim 0 fun market => market.perpMarket.openInterest

/-- The position of an account in a market; without one, all its counters are zero. -/
def positionOf (s : Exchange) (a : Pubkey) (m : PerpMarketIndex) : PerpPosition :=
  ((s.accounts a).bind fun account => account.perpPosition m).getD .default

theorem clearing_leaves (s : Exchange) (m : PerpMarketIndex) (side : Side) :
    (s.clearing m).leaves side = ((s.bookOf m).bookside side).leaves := by
  rw [clearing, bookOf]
  cases s.markets m with
  | some market => rfl
  | none =>
    cases side with
    | bid => exact (leaves_zeroed .bids).symm
    | ask => exact (leaves_zeroed .asks).symm

theorem clearing_position (s : Exchange) (m : PerpMarketIndex) (a : Pubkey) :
    (s.clearing m).position a = (s.positionOf a m).ledger := by
  show ((s.accounts a).bind fun account => account.ledgerOf m).getD .zero = _
  rw [positionOf]
  cases s.accounts a with
  | none => rfl
  | some account =>
    rw [Option.bind_some, Option.bind_some, ledgerOf]
    cases account.perpPosition m <;> rfl

/-! ## Every call is a sequence of steps -/

/-- What markets, books and accounts satisfy at all times. -/
structure Sound (s : Exchange) : Prop where
  index : ∀ m market, s.markets m = some market → market.perpMarket.perpMarketIndex = m
  book : ∀ m market, s.markets m = some market → market.book.WellFormed
  count : ∀ a account, s.accounts a = some account → ∀ m, m ≠ FREE_ORDER_SLOT →
    account.perpCount m ≤ 1
  positive : ∀ m, (s.clearing m).Positive
  keyed : ∀ m, (s.clearing m).Keyed

/-- The call on some market is either on market `m` or cannot reach what belongs to it.
    Only the market whose index marks free positions can be reached from
    others. -/
def Undisturbed (m : PerpMarketIndex) (call : Call) : Prop :=
  call.market = m ∨ m ≠ FREE_ORDER_SLOT ∨ call.op.keepsPositions = true

/-- A call on market `m` that closes a position meets `K`. -/
def ClosesUnder (m : PerpMarketIndex) (K : Clearing → Pubkey → Prop) (call : Call) (s : Exchange) :
    Prop :=
  ∀ pk, call = ⟨m, .perpDeactivatePosition pk⟩ → K (s.clearing m) pk

/-- A successful call, market by market. -/
theorem exec_ok (h : exec call s = .ok (r, s')) :
    ∃ market market' accounts', s.markets call.market = some market ∧
      execOp market s.accounts call.op = .ok (market', accounts') ∧
      s' = s.store call.market market' accounts' := by
  obtain ⟨market, hload, h⟩ := of_bind h
  obtain ⟨⟨market', accounts'⟩, hop, h⟩ := of_bind h
  obtain ⟨-, rfl⟩ := ok_inj₂ h
  exact ⟨market, market', accounts', loadMarket_eq_ok.mp hload, hop, rfl⟩

theorem exec_refines {K : Clearing → Pubkey → Prop} {market' : Market}
    {accounts' : Accounts} (hs : s.Sound) (hmarket : s.markets call.market = some market)
    (hK : ClosesUnder call.market K call s)
    (h : execOp market s.accounts call.op = .ok (market', accounts')) :
    Refines call.market K (call.op.keepsPositions = true) market s.accounts market' accounts' := by
  have hclearing := clearing_of_market hmarket
  refine execOp_refines h (hs.index _ _ hmarket) (hs.book _ _ hmarket)
    (fun a account ha hfree => hs.count a account ha _ hfree) (hclearing ▸ hs.positive call.market)
    (hclearing ▸ hs.keyed call.market) fun pk hop => ?_
  rw [← hclearing]
  apply hK pk
  rw [← hop]

/-- The clearing of another market, when only accounts have changed. -/
theorem clearing_store_apart {P : Prop} {market' : Market} {accounts' : Accounts} (hne : m ≠ index)
    (hapart : ApartAccounts index P s.accounts accounts') (hP : m ≠ FREE_ORDER_SLOT ∨ P) :
    (s.store index market' accounts').clearing m =
      { s.clearing m with slots := ((s.store index market' accounts').clearing m).slots } := by
  have hmarket : (s.store index market' accounts').markets m = s.markets m :=
    markets_store_of_ne hne
  refine Clearing.ext ?_ ?_ ?_ ?_ ?_ rfl
  · funext side
    rw [clearing, clearing, hmarket]
  · rw [clearing, clearing, hmarket]
  · rw [clearing, clearing, hmarket]
  · rw [clearing, clearing, hmarket]
  · funext a
    show (accounts' a).bind _ = (s.accounts a).bind _
    have ha := hapart a
    revert ha
    cases s.accounts a <;> cases accounts' a <;> intro ha
    · rfl
    · cases ha
    · cases ha
    · cases ha with
      | some ha => exact ha.ledger m hne hP

theorem steps_apart {K : Clearing → Pubkey → Prop} {P : Prop}
    {market' : Market} {accounts' : Accounts} (hne : m ≠ index)
    (hapart : ApartAccounts index P s.accounts accounts') (hP : m ≠ FREE_ORDER_SLOT ∨ P) :
    ReflTransGen (Step m K) (s.clearing m)
      ((s.store index market' accounts').clearing m) := by
  rw [clearing_store_apart hne hapart hP]
  refine .single (.elsewhere (fun hfree a => ?_) hapart.slotCount)
  show SameSlots m ((s.accounts a).elim [] _) ((accounts' a).elim [] _)
  have ha := hapart a
  revert ha
  cases s.accounts a <;> cases accounts' a <;> intro ha
  · exact .refl m _
  · cases ha
  · cases ha
  · cases ha with
    | some ha => exact ha.slots m hne hfree

/-- Every call is a sequence of steps for the clearing of every market it does not disturb. -/
theorem exec_steps {K : Clearing → Pubkey → Prop} (hs : s.Sound)
    (hcall : Undisturbed m call) (hK : ClosesUnder m K call s) (h : exec call s = .ok (r, s')) :
    ReflTransGen (Step m K) (s.clearing m) (s'.clearing m) := by
  obtain ⟨market, market', accounts', hmarket, hop, rfl⟩ := exec_ok h
  by_cases hm : call.market = m
  · subst hm
    rw [clearing_store_self, clearing_of_market hmarket]
    exact (exec_refines hs hmarket hK hop).steps
  · have hrefines := exec_refines (K := fun _ _ => True) hs hmarket (fun _ _ => trivial) hop
    exact steps_apart (Ne.symm hm) hrefines.apart (hcall.resolve_left hm)

theorem exec_sound (hs : s.Sound) (h : exec call s = .ok (r, s')) :
    s'.Sound := by
  obtain ⟨market, market', accounts', hmarket, hop, rfl⟩ := exec_ok h
  have hrefines := exec_refines (K := fun _ _ => True) hs hmarket (fun _ _ => trivial) hop
  have hindex := hs.index _ _ hmarket
  have hmarkets : ∀ {Q : PerpMarketIndex → Market → Prop},
      (∀ m market, s.markets m = some market → Q m market) → Q call.market market' →
      ∀ m market, (s.store call.market market' accounts').markets m = some market → Q m market := by
    intro Q hold hnew m market₁ hm
    by_cases hcall : m = call.market
    · subst hcall
      rw [markets_store_self] at hm
      exact Option.some.inj hm ▸ hnew
    · rw [markets_store_of_ne hcall] at hm
      exact hold m market₁ hm
  -- orders and events of the other markets are what they were
  have hother : ∀ m, m ≠ call.market → ((s.store call.market market' accounts').clearing m).leaves =
      (s.clearing m).leaves ∧ ((s.store call.market market' accounts').clearing m).events =
      (s.clearing m).events ∧ ((s.store call.market market' accounts').clearing m).seqNum =
      (s.clearing m).seqNum := by
    intro m hm
    have hsame : (s.store call.market market' accounts').markets m = s.markets m :=
      markets_store_of_ne hm
    refine ⟨?_, ?_, ?_⟩
    · funext side
      rw [clearing, clearing, hsame]
    · rw [clearing, clearing, hsame]
    · rw [clearing, clearing, hsame]
  refine ⟨hmarkets hs.index (hrefines.index.trans hindex),
    hmarkets hs.book (hrefines.book (hs.book _ _ hmarket)), fun a account ha m hfree => ?_,
    fun m => ?_, fun m => ?_⟩
  · have hapart := hrefines.apart a
    have ha : accounts' a = some account := ha
    rw [ha] at hapart
    cases hold : s.accounts a with
    | none =>
      rw [hold] at hapart
      cases hapart
    | some account₀ =>
      rw [hold] at hapart
      cases hapart with
      | some hapart =>
        have hle := hapart.count m hfree
        have hone := hs.count a account₀ hold m hfree
        omega
  · by_cases hm : m = call.market
    · subst hm
      rw [clearing_store_self]
      exact steps_positive hrefines.steps (clearing_of_market hmarket ▸ hs.positive _)
    · obtain ⟨hleaves, hevents, -⟩ := hother m hm
      exact ⟨hleaves ▸ (hs.positive m).leaves, hevents ▸ (hs.positive m).events⟩
  · by_cases hm : m = call.market
    · subst hm
      rw [clearing_store_self]
      exact steps_keyed hrefines.steps (clearing_of_market hmarket ▸ hs.keyed _)
    · obtain ⟨hleaves, -, hseq⟩ := hother m hm
      refine ⟨hseq ▸ (hs.keyed m).seqNum_lt, ?_⟩
      rw [hleaves, hseq]
      exact (hs.keyed m).leaves

/-- Runs of the exchange keep what the steps of a clearing keep. -/
theorem simulates {K : Clearing → Pubkey → Prop} {J : Clearing → Prop}
    (hJ : ∀ c c', J c → Step m K c c' → J c') :
    Simulates exec (fun call s => Undisturbed m call ∧ ClosesUnder m K call s) Sound
      (fun s => s.clearing m) J (Step m K) where
  abstract := hJ
  concrete := fun _ _ _ _ hs _ hcall h => ⟨exec_sound hs h, exec_steps hs hcall.1 hcall.2 h⟩

/-- What the steps of a clearing keep without any condition holds after every
    run that does not disturb the market. -/
theorem run_keeps {J : Clearing → Prop}
    (hJ : ∀ c c', J c → Step m (fun _ _ => True) c c' → J c') (hs : s.Sound)
    (hstart : J (s.clearing m)) (calls : List Call) (hcalls : ∀ call ∈ calls, Undisturbed m call) :
    (run exec s calls).Sound ∧ J ((run exec s calls).clearing m) :=
  (simulates hJ).run calls hs hstart
    (guarded_of_forall calls (fun call hcall _ => ⟨hcalls call hcall, fun _ _ => trivial⟩) s)

end Clearing

/-! ## The start of a run -/

/-- Nothing has been traded: books and queues are empty, positions count
    nothing, and all open-order slots are free. -/
structure Fresh (s : Exchange) : Prop where
  index : ∀ m market, s.markets m = some market → market.perpMarket.perpMarketIndex = m
  book : ∀ m market, s.markets m = some market →
    market.book = ⟨.zeroed .bids, .zeroed .asks⟩ ∧ market.eventQueue = .zeroed ∧
      market.perpMarket.seqNum = 0 ∧ market.perpMarket.openInterest = 0
  positions : ∀ a account, s.accounts a = some account → ∀ p ∈ account.perps, p.ledger = .zero
  count : ∀ a account, s.accounts a = some account → ∀ m, m ≠ FREE_ORDER_SLOT →
    account.perpCount m ≤ 1
  slots : ∀ a account, s.accounts a = some account →
    ∀ oo ∈ account.perpOpenOrders, oo.market = FREE_ORDER_SLOT

section Fresh

variable {s : Exchange} {m : PerpMarketIndex}

theorem Fresh.leaves (h : s.Fresh) (side : Side) : (s.clearing m).leaves side = 0 := by
  rw [clearing]
  cases hm : s.markets m with
  | none => rfl
  | some market =>
    show (market.book.bookside side).leaves = 0
    rw [(h.book m market hm).1]
    cases side with
    | bid => exact leaves_zeroed .bids
    | ask => exact leaves_zeroed .asks

theorem Fresh.events (h : s.Fresh) : (s.clearing m).events = [] := by
  rw [clearing]
  cases hm : s.markets m with
  | none => rfl
  | some market =>
    show market.eventQueue.events = []
    rw [(h.book m market hm).2.1]
    rfl

theorem Fresh.seqNum (h : s.Fresh) : (s.clearing m).seqNum = 0 := by
  rw [clearing]
  cases hm : s.markets m with
  | none => rfl
  | some market => exact (h.book m market hm).2.2.1

theorem Fresh.openInterest (h : s.Fresh) : (s.clearing m).openInterest = 0 := by
  rw [clearing]
  cases hm : s.markets m with
  | none => rfl
  | some market => exact (h.book m market hm).2.2.2

theorem Fresh.position (h : s.Fresh) (a : Pubkey) : (s.clearing m).position a = .zero := by
  show ((s.accounts a).bind fun account => account.ledgerOf m).getD .zero = .zero
  cases ha : s.accounts a with
  | none => rfl
  | some account =>
    rw [Option.bind_some, ledgerOf]
    cases hp : account.perpPosition m with
    | none => rfl
    | some p => exact h.positions a account ha p (mem_of_find?_eq_some hp)

theorem Fresh.sound (h : s.Fresh) : s.Sound where
  index := h.index
  book := fun m market hm => by
    rw [(h.book m market hm).1]
    intro side
    cases side with
    | bid => exact ⟨wellFormed_zeroed .bids, rfl⟩
    | ask => exact ⟨wellFormed_zeroed .asks, rfl⟩
  count := h.count
  positive := fun m => by
    refine ⟨fun side x hx => ?_, fun e he => ?_⟩
    · rw [h.leaves side] at hx
      exact absurd hx (Multiset.notMem_zero x)
    · rw [h.events] at he
      cases he
  keyed := fun m => by
    refine ⟨?_, fun side x hx => ?_⟩
    · rw [h.seqNum]
      exact Nat.two_pow_pos 64
    · rw [h.leaves side] at hx
      exact absurd hx (Multiset.notMem_zero x)

end Fresh

/-- A limit order at the oracle price of 20. -/
def Op.limitAt20 (a : Pubkey) (side : Side) (lots : Int) : Op :=
  .newOrder a (.plain side ⟨20, twenty_fits⟩ lots 100) (.ofSmall 20) 0 10

/-- A market with two accounts that have a position in it. -/
def twoTraders (m : PerpMarketIndex) : Exchange where
  markets := Function.update (fun _ => none) m
    (some ⟨.plain m, ⟨.zeroed .bids, .zeroed .asks⟩, .zeroed⟩)
  accounts := fun a => if a = 1 ∨ a = 2 then some (.plain m) else none

theorem twoTraders_fresh (m : PerpMarketIndex) : (twoTraders m).Fresh := by
  have hmarket : ∀ m' market, (twoTraders m).markets m' = some market →
      m' = m ∧ market = ⟨.plain m, ⟨.zeroed .bids, .zeroed .asks⟩, .zeroed⟩ := by
    intro m' market h
    simp only [twoTraders] at h
    by_cases hm : m' = m
    · rw [hm, update_self] at h
      exact ⟨hm, (Option.some.inj h).symm⟩
    · rw [update_of_ne hm] at h
      cases h
  have haccount : ∀ a account, (twoTraders m).accounts a = some account → account = .plain m := by
    intro a account h
    unfold twoTraders at h
    simp only at h
    split at h
    · exact (Option.some.inj h).symm
    · cases h
  refine ⟨?_, ?_, ?_, ?_, ?_⟩
  · intro m' market h
    obtain ⟨rfl, rfl⟩ := hmarket m' market h
    rfl
  · intro m' market h
    obtain ⟨rfl, rfl⟩ := hmarket m' market h
    exact ⟨rfl, rfl, rfl, rfl⟩
  · intro a account h p hp
    obtain rfl := haccount a account h
    obtain rfl := mem_singleton.mp hp
    rfl
  · intro a account h m' _
    obtain rfl := haccount a account h
    exact countP_le_length
  · intro a account h oo hoo
    obtain rfl := haccount a account h
    simp only [plain, mem_cons, not_mem_nil, or_false, or_self] at hoo
    rw [hoo]
    rfl

end Exchange

end MangoV4
