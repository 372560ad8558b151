/-
  MangoV4.Exchange.Refinement

  The instructions of the exchange are steps of the clearing of their market,
  and leave the clearing of every other market alone.

  Each instruction has one lemma, which says what it does to the market and
  the accounts as a whole (`Refines`).  Results about runs of the exchange are
  proved for the steps and come down through `simulates`.
-/

import MangoV4.Exchange.Clearing
import MangoV4.Instructions.Perp

namespace MangoV4

open Lib Lib.Exec Relation Function MangoAccount List Clearing Orderbook Option Hit

/-! ## A new order, step by step -/

namespace Clearing

variable {m : PerpMarketIndex} {K : Clearing → Pubkey → Prop}

theorem hitEvents_cons (ctx : MatchContext) (n : Nat) (h : Hit) (hits : List Hit) :
    hitEvents ctx n (h :: hits) = h.event ctx n :: hitEvents ctx (n + 1) hits := by
  unfold hitEvents
  rw [mapIdx_cons]
  simp only [Nat.add_zero, Nat.add_assoc, Nat.add_comm 1]

/-- What is left of a list of orders after hits, one hit at a time. -/
theorem leftover_cons (h : Hit) (hits : List Hit) :
    (((h :: hits).filterMap Hit.leftover : List _) : Multiset (BookSideOrderTree × LeafNode)) =
      (h.leftover.toList : Multiset (BookSideOrderTree × LeafNode)) +
        (hits.filterMap Hit.leftover : List _) := by
  cases hleft : h.leftover with
  | none =>
    rw [filterMap_cons_none hleft]
    exact (zero_add _).symm
  | some x =>
    rw [filterMap_cons_some hleft]
    rfl

theorem takerChange_add (side : Side) (b b' q q' : Int) :
    takerChange side (b + b') (q + q') = takerChange side b q + takerChange side b' q' := by
  cases side with
  | bid => exact Prod.ext rfl (neg_add q q')
  | ask => exact Prod.ext (neg_add b b') rfl

theorem takerChange_zero (side : Side) : takerChange side 0 0 = 0 := by cases side <;> rfl

/-- The clearing after the hits of an order. -/
def afterHits (s : Clearing) (ctx : MatchContext) (n : Nat) (hits : List Hit)
    (rest : Multiset (BookSideOrderTree × LeafNode)) (l : Ledger) : Clearing :=
  ((s.withLeaves ctx.side.invertSide (rest + (hits.filterMap Hit.leftover : List _))).withEvents
    (s.events ++ hitEvents ctx n hits)).move ctx.accountPk l
      (l.addTaker (takerChange ctx.side (hits.map Hit.base).sum (hits.map Hit.quote).sum))

/-- A hit that takes lots is a fill. -/
theorem isFill_event (ctx : MatchContext) {item : BookSideIterItem} {lots : Int} (n : Nat)
    (hsound : Sound ⟨item, some lots⟩) :
    ∃ f, event ctx n ⟨item, some lots⟩ = .fill f ∧ IsFill ctx.side item.node f ∧
      f.quantity = lots ∧ f.taker = ctx.accountPk ∧
      f.change f.takerSide = takerChange ctx.side lots (lots * item.priceLots) := by
  obtain ⟨hpos, hle⟩ := hsound lots rfl
  refine ⟨_, rfl, ⟨rfl, rfl, rfl, rfl, hpos, hle, ?_⟩, rfl, rfl, ?_⟩
  · refine decide_eq_decide.mpr ?_
    show item.node.quantity - lots = 0 ↔ lots = item.node.quantity
    omega
  · show FillEvent.change _ ctx.side = _
    cases ctx.side with
    | bid => exact Prod.ext rfl (congrArg Neg.neg (Int.mul_comm ..))
    | ask => exact Prod.ext rfl (Int.mul_comm ..)

/-- Lots that are taken leave the rest of the order on the book. -/
theorem leftover_toList (item : BookSideIterItem) (lots : Int) :
    ((Hit.leftover ⟨item, some lots⟩).toList : Multiset (BookSideOrderTree × LeafNode)) =
      leftover item.handle.orderTree item.node lots := by
  unfold Hit.leftover leftover
  by_cases hlots : lots = item.node.quantity
  · have hleft : left ⟨item, some lots⟩ = 0 := by
      show item.node.quantity - lots = 0
      omega
    rw [if_pos hleft, if_pos hlots]
    rfl
  · have hleft : left ⟨item, some lots⟩ ≠ 0 := by
      show item.node.quantity - lots ≠ 0
      omega
    rw [if_neg hleft, if_neg hlots]
    rfl

section AfterHits

variable {s : Clearing} {ctx : MatchContext} {item : BookSideIterItem} {hits : List Hit} {n : Nat}
  {rest : Multiset (BookSideOrderTree × LeafNode)} {l : Ledger}

theorem afterHits_nil (hleaves : s.leaves ctx.side.invertSide = rest)
    (hl : s.ledger ctx.accountPk = some l) : s.afterHits ctx n [] rest l = s := by
  have hrest : rest + ((([] : List Hit).filterMap Hit.leftover : List _) : Multiset _) =
      s.leaves ctx.side.invertSide := (add_zero rest).trans hleaves.symm
  unfold afterHits
  rw [hrest]
  simp only [map_nil, sum_nil, takerChange_zero, Ledger.addTaker_zero]
  refine Clearing.ext (update_eq_self ..) (append_nil _) rfl ?_ ?_ rfl
  · simp
  · show update s.ledger ctx.accountPk (some l) = s.ledger
    rw [← hl, update_eq_self]

/-- A dropped order, then the other hits. -/
theorem afterHits_drop (ls : Multiset (BookSideOrderTree × LeafNode)) :
    ((s.withLeaves ctx.side.invertSide ls).push (Hit.event ctx n ⟨item, none⟩)).afterHits ctx (n + 1)
      hits rest l = s.afterHits ctx n (⟨item, none⟩ :: hits) rest l := by
  have hleft : (Hit.leftover ⟨item, none⟩) = none := rfl
  unfold afterHits
  rw [filterMap_cons_none hleft, hitEvents_cons, map_cons, sum_cons, map_cons,
    sum_cons]
  have hbase : base ⟨item, none⟩ = 0 := rfl
  have hquote : quote ⟨item, none⟩ = 0 := Int.zero_mul _
  rw [hbase, hquote, zero_add, zero_add]
  refine Clearing.ext (update_idem ..) ?_ rfl rfl rfl rfl
  exact append_assoc ..

/-- A fill, then the other hits. -/
theorem afterHits_fill {lots : Int} (ls : Multiset (BookSideOrderTree × LeafNode))
    {change : Int × Int} (hchange : change = takerChange ctx.side lots (lots * item.priceLots)) :
    (((s.withLeaves ctx.side.invertSide ls).push (Hit.event ctx n ⟨item, some lots⟩)).move
      ctx.accountPk l (l.addTaker change)).afterHits ctx (n + 1) hits
        (leftover item.handle.orderTree item.node lots + rest) (l.addTaker change) =
      s.afterHits ctx n (⟨item, some lots⟩ :: hits) rest l := by
  unfold afterHits
  rw [leftover_cons, leftover_toList, hitEvents_cons, map_cons, sum_cons, map_cons,
    sum_cons]
  have hbase : Hit.base ⟨item, some lots⟩ = lots := rfl
  have hquote : Hit.quote ⟨item, some lots⟩ = lots * item.priceLots := rfl
  rw [hbase, hquote, takerChange_add, ← hchange, Ledger.addTaker_addTaker]
  refine Clearing.ext ?_ ?_ rfl ?_ ?_ rfl
  · refine (update_idem ..).trans (congrArg _ ?_)
    rw [add_left_comm, add_assoc]
  · exact append_assoc ..
  · simp
  · exact update_idem ..

end AfterHits

/-- The hits of an order are fills and drops, one after the other. -/
theorem steps_hits (ctx : MatchContext) (hits : List Hit) :
    ∀ {s : Clearing} (n : Nat) {rest : Multiset (BookSideOrderTree × LeafNode)} {l : Ledger},
      s.leaves ctx.side.invertSide = rest + (hits.map order : List _) →
      (∀ h ∈ hits, h.Sound) → s.ledger ctx.accountPk = some l →
      ReflTransGen (Step m K) s (s.afterHits ctx n hits rest l) := by
  induction hits with
  | nil =>
    intro s n rest l hleaves _ hl
    rw [afterHits_nil (hleaves.trans (add_zero rest)) hl]
  | cons h hits ih =>
    intro s n rest l hleaves hsound hl
    obtain ⟨item, taken⟩ := h
    have hsound' : ∀ h ∈ hits, h.Sound := fun h hmem => hsound h (mem_cons_of_mem _ hmem)
    have hcons : s.leaves ctx.side.invertSide =
        (item.handle.orderTree, item.node) ::ₘ (rest + (hits.map order : List _)) := by
      rw [hleaves, map_cons, ← Multiset.cons_coe, Multiset.add_cons]
      rfl
    cases taken with
    | none =>
      have hstep := Step.drop (m := m) (K := K) (s := s) hcons
        (e := .fromLeafNode ctx.side.invertSide ctx.nowTs n item.node) ⟨rfl, rfl, rfl, rfl, rfl⟩
      rw [← afterHits_drop (rest + (hits.map order : List _))]
      exact .head hstep (ih (n + 1) (update_self ..) hsound' hl)
    | some lots =>
      obtain ⟨f, hevent, hfill, hlots, htaker, hchange⟩ :=
        isFill_event ctx n (hsound ⟨item, some lots⟩ (mem_cons_self ..))
      have hstep := Step.fill (m := m) (K := K) (s := s) hcons hfill (htaker ▸ hl)
      rw [hlots, htaker] at hstep
      rw [← afterHits_fill (leftover item.handle.orderTree item.node lots +
        (rest + (hits.map order : List _))) hchange, hevent]
      refine .head hstep (ih (n + 1) ?_ hsound' (update_self ..))
      exact (update_self ..).trans (add_assoc ..).symm

/-- Orders that make room leave the book one after the other. -/
theorem steps_drops (side : Side) (nowTs : Nat) (outs : List (BookSideOrderTree × LeafNode)) :
    ∀ {s : Clearing} (n : Nat) {rest : Multiset (BookSideOrderTree × LeafNode)},
      s.leaves side = (outs : Multiset _) + rest →
      ReflTransGen (Step m K) s
        ((s.withLeaves side rest).withEvents (s.events ++ roomEvents side nowTs n outs)) := by
  induction outs with
  | nil =>
    intro s n rest hleaves
    have hrest : s.leaves side = rest := hleaves.trans (zero_add rest)
    have hsame : (s.withLeaves side rest).withEvents (s.events ++ roomEvents side nowTs n []) = s :=
      Clearing.ext (hrest ▸ update_eq_self ..) (append_nil _) rfl rfl rfl rfl
    rw [hsame]
  | cons x outs ih =>
    intro s n rest hleaves
    have hcons : s.leaves side = (x.1, x.2) ::ₘ ((outs : Multiset _) + rest) := by
      rw [hleaves, ← Multiset.cons_coe, Multiset.cons_add]
    have hstep := Step.drop (m := m) (K := K) (s := s) hcons
      (e := .fromLeafNode side nowTs n x.2) ⟨rfl, rfl, rfl, rfl, rfl⟩
    have hevents : roomEvents side nowTs n (x :: outs) =
        .out (.fromLeafNode side nowTs n x.2) :: roomEvents side nowTs (n + 1) outs := by
      unfold roomEvents
      rw [mapIdx_cons]
      simp only [Nat.add_zero, Nat.add_assoc, Nat.add_comm 1]
    have hfinal : (((s.withLeaves side ((outs : Multiset _) + rest)).push
          (.out (.fromLeafNode side nowTs n x.2))).withLeaves side rest).withEvents
        ((s.events ++ [.out (.fromLeafNode side nowTs n x.2)]) ++
          roomEvents side nowTs (n + 1) outs) =
        (s.withLeaves side rest).withEvents (s.events ++ roomEvents side nowTs n (x :: outs)) := by
      rw [hevents]
      exact Clearing.ext (update_idem ..) (append_assoc ..) rfl rfl rfl rfl
    rw [← hfinal]
    exact .head hstep (ih (n + 1) (update_self ..))

end Clearing

/-! ## The clearing of a market -/

theorem Orderbook.leaves_setBookside (book : Orderbook) (side : Side) (b : BookSide) :
    (fun side' => ((book.setBookside side b).bookside side').leaves) =
      update (fun side' => (book.bookside side').leaves) side b.leaves := by
  funext side'
  cases side <;> cases side' <;> rfl

/-- Replacing a side by a well-formed one of the same type. -/
theorem Orderbook.WellFormed.set {book : Orderbook} (h : book.WellFormed) {side : Side}
    {b : BookSide} (hb : b.WellFormed)
    (htype : b.nodes.orderTreeType = (book.bookside side).nodes.orderTreeType) :
    (book.setBookside side b).WellFormed := by
  have hside : b.side = side := by
    have hold := (h side).2
    unfold BookSide.side at *
    rw [htype]
    exact hold
  intro side'
  by_cases heq : side' = side
  · subst heq
    rw [bookside_setBookside_self]
    exact ⟨hb, hside⟩
  · have hother : (book.setBookside side b).bookside side' = book.bookside side' := by
      cases side <;> cases side' <;> first | rfl | exact absurd rfl heq
    rw [hother]
    exact h side'

namespace Exchange

/-- The clearing of market `m`, when its accounts hold `market`. -/
@[simps]
def clearingOf (m : PerpMarketIndex) (market : Market) (accounts : Accounts) : Clearing where
  leaves := fun side => (market.book.bookside side).leaves
  events := market.eventQueue.events
  seqNum := market.perpMarket.seqNum
  openInterest := market.perpMarket.openInterest
  ledger := fun a => (accounts a).bind fun account => account.ledgerOf m
  slots := fun a => (accounts a).elim [] MangoAccount.perpOpenOrders

section ClearingOf

variable {m : PerpMarketIndex} {market : Market} {accounts : Accounts} {pk : Pubkey}
  {account : MangoAccount}

variable (m market) in
theorem ledger_of_account (h : accounts pk = some account) :
    (clearingOf m market accounts).ledger pk = account.ledgerOf m := by
  rw [clearingOf_ledger, h, bind_some]

variable (m market) in
theorem slots_of_account (h : accounts pk = some account) :
    (clearingOf m market accounts).slots pk = account.perpOpenOrders := by
  rw [clearingOf_slots, h]
  rfl

theorem ledger_store : (clearingOf m market (accounts.store pk account)).ledger =
    update (clearingOf m market accounts).ledger pk (account.ledgerOf m) := by
  funext a
  exact apply_update (fun _ (o : Option MangoAccount) => o.bind fun x => x.ledgerOf m)
    accounts pk (some account) a

theorem slots_store : (clearingOf m market (accounts.store pk account)).slots =
    update (clearingOf m market accounts).slots pk account.perpOpenOrders := by
  funext a
  exact apply_update (fun _ (o : Option MangoAccount) =>
    o.elim [] perpOpenOrders) accounts pk (some account) a

theorem store_store (accounts : Accounts) (pk : Pubkey) (account account' : MangoAccount) :
    (accounts.store pk account).store pk account' = accounts.store pk account' :=
  update_idem ..

theorem store_self (accounts : Accounts) (pk : Pubkey) (account : MangoAccount) :
    accounts.store pk account pk = some account :=
  update_self ..

theorem store_of_ne {a : Pubkey} (h : a ≠ pk) : accounts.store pk account a = accounts a :=
  update_of_ne h ..

theorem load_eq_ok {a : MangoAccount} : accounts.load pk = .ok a ↔ accounts pk = some a := by
  unfold Accounts.load
  cases accounts pk with
  | none => simp [fail]
  | some a' => simp

end ClearingOf

/-! ## What an instruction does -/

/-- Accounts that differ in what belongs to market `m` only. -/
def ApartAccounts (m : PerpMarketIndex) (P : Prop) (accounts accounts' : Accounts) : Prop :=
  ∀ a, Option.Rel (MangoAccount.Apart m P) (accounts a) (accounts' a)

section Apart

variable {m : PerpMarketIndex} {P : Prop} {accounts accounts₁ accounts₂ : Accounts}

theorem ApartAccounts.refl (m : PerpMarketIndex) (P : Prop) (accounts : Accounts) :
    ApartAccounts m P accounts accounts := by
  intro a
  cases accounts a with
  | none => exact .none
  | some account => exact .some (.refl m P account)

theorem ApartAccounts.trans (h : ApartAccounts m P accounts accounts₁)
    (h' : ApartAccounts m P accounts₁ accounts₂) : ApartAccounts m P accounts accounts₂ := by
  intro a
  have ha := h a
  have ha' := h' a
  revert ha ha'
  cases accounts a <;> cases accounts₁ a <;> cases accounts₂ a
  all_goals intro ha ha'
  all_goals first | cases ha; done | cases ha'; done | skip
  · exact .none
  · cases ha with
    | some ha => cases ha' with
      | some ha' => exact .some (ha.trans ha')

theorem ApartAccounts.store {pk : Pubkey} {account account' : MangoAccount}
    (hpk : accounts pk = some account) (h : Apart m P account account') :
    ApartAccounts m P accounts (accounts.store pk account') := by
  intro a
  by_cases ha : a = pk
  · subst ha
    rw [store_self, hpk]
    exact .some h
  · rw [store_of_ne ha]
    exact ApartAccounts.refl m P accounts a

theorem ApartAccounts.slotCount (h : ApartAccounts m P accounts accounts₁) (a : Pubkey) :
    ((accounts₁ a).elim [] perpOpenOrders).length =
      ((accounts a).elim [] perpOpenOrders).length := by
  have ha := h a
  revert ha
  cases accounts a <;> cases accounts₁ a <;> intro ha
  · rfl
  · cases ha
  · cases ha
  · cases ha with
    | some ha => exact ha.slotCount

end Apart

/-- What an instruction on market `m` does: steps of its clearing, and nothing
    to what belongs to other markets.  If `P` holds, it neither creates nor
    closes positions. -/
structure Refines (m : PerpMarketIndex) (K : Clearing → Pubkey → Prop) (P : Prop)
    (market : Market) (accounts : Accounts) (market' : Market) (accounts' : Accounts) : Prop where
  index : market'.perpMarket.perpMarketIndex = market.perpMarket.perpMarketIndex
  book : market.book.WellFormed → market'.book.WellFormed
  steps : ReflTransGen (Clearing.Step m K) (clearingOf m market accounts)
    (clearingOf m market' accounts')
  apart : ApartAccounts m P accounts accounts'

section Refines

variable {m : PerpMarketIndex} {K : Clearing → Pubkey → Prop} {P : Prop}

theorem Refines.refl (market : Market) (accounts : Accounts) :
    Refines m K P market accounts market accounts :=
  ⟨rfl, id, .refl, .refl m P accounts⟩

theorem Refines.trans {market market₁ market₂ : Market} {accounts accounts₁ accounts₂ : Accounts}
    (h : Refines m K P market accounts market₁ accounts₁)
    (h' : Refines m K P market₁ accounts₁ market₂ accounts₂) :
    Refines m K P market accounts market₂ accounts₂ where
  index := h'.index.trans h.index
  book := fun hwf => h'.book (h.book hwf)
  steps := h.steps.trans h'.steps
  apart := h.apart.trans h'.apart

/-- An instruction that only releases open orders. -/
structure Releasing (m : PerpMarketIndex) (K : Clearing → Pubkey → Prop) (P : Prop)
    (market : Market) (accounts : Accounts) (market' : Market) (accounts' : Accounts) : Prop
    extends Refines m K P market accounts market' accounts' where
  releases : (clearingOf m market accounts).Positive → ∀ a,
    ((clearingOf m market accounts).position a).Releases
      ((clearingOf m market' accounts').position a)
  mode : market'.perpMarket.reduceOnly = market.perpMarket.reduceOnly

theorem Releasing.refl (market : Market) (accounts : Accounts) :
    Releasing m K P market accounts market accounts :=
  ⟨.refl market accounts, fun _ _ => .refl _, rfl⟩

theorem Releasing.trans {market market' market'' : Market} {accounts accounts' accounts'' : Accounts}
    (h : Releasing m K P market accounts market' accounts')
    (h' : Releasing m K P market' accounts' market'' accounts'') :
    Releasing m K P market accounts market'' accounts'' where
  toRefines := h.toRefines.trans h'.toRefines
  releases := fun hpos a =>
    (h.releases hpos a).trans (h'.releases (steps_positive h.steps hpos) a)
  mode := h'.mode.trans h.mode

end Refines

/-! ## new_order -/

section NewOrder

variable {m : PerpMarketIndex} {K : Clearing → Pubkey → Prop} {P : Prop}
  {book book' : Orderbook} {order : Order} {perpMarket perpMarket' : PerpMarket}
  {q q' : EventQueue} {oraclePrice : I80F48} {account account' : MangoAccount} {pk : Pubkey}
  {nowTs limit : Nat} {posted : Option Key} {accounts : Accounts}

/-- Matching, seen from the clearing. -/
theorem steps_matched {r : OrderRun book book' order perpMarket perpMarket' q q' oraclePrice account
      account' pk nowTs limit posted} {hits : List Hit}
    {rest : Multiset (BookSideOrderTree × LeafNode)} (hm : r.Matched hits rest)
    (hindex : perpMarket.perpMarketIndex = m) (hpk : accounts pk = some account)
    (hpos : (clearingOf m ⟨perpMarket, book, q⟩ accounts).Positive) :
    ReflTransGen (Step m K) (clearingOf m ⟨perpMarket, book, q⟩ accounts)
      (clearingOf m ⟨perpMarket, book.setBookside order.side.invertSide r.opposing,
        r.st.eventQueue⟩ (accounts.store pk r.taker)) := by
  have hmoves := r.taker_moves
  rw [hindex] at hmoves
  have hbase : order.maxBaseLots - r.st.remainingBaseLots = (hits.map base).sum := by
    have hprogress := hm.progress.base
    have hstart : (MatchState.start order limit q).remainingBaseLots = order.maxBaseLots := rfl
    omega
  have hquote : order.maxQuoteLots - r.st.remainingQuoteLots = (hits.map quote).sum := by
    have hprogress := hm.progress.quote
    have hstart : (MatchState.start order limit q).remainingQuoteLots = order.maxQuoteLots := rfl
    omega
  rw [hbase, hquote] at hmoves
  have hsteps := steps_hits (m := m) (K := K)
    (.of order perpMarket pk nowTs r.priceLots) hits q.seqNum
    (s := clearingOf m ⟨perpMarket, book, q⟩ accounts) hm.before (hm.sound (hpos.leaves _)).1
    ((ledger_of_account m _ hpk).trans hmoves.before)
  have hfinal : (clearingOf m ⟨perpMarket, book, q⟩ accounts).afterHits
      (.of order perpMarket pk nowTs r.priceLots) q.seqNum hits rest r.ledger =
      clearingOf m ⟨perpMarket, book.setBookside order.side.invertSide r.opposing,
        r.st.eventQueue⟩ (accounts.store pk r.taker) := by
    refine Clearing.ext ?_ hm.progress.events.symm rfl ?_ ?_ ?_
    · refine Eq.trans ?_ (leaves_setBookside ..).symm
      rw [hm.after.leaves_eq]
      rfl
    · show _ + (|(Ledger.addTaker _ _).base| - _) = _
      rw [Ledger.base_addTaker, sub_self, add_zero]
      rfl
    · rw [ledger_store, hmoves.after]
      rfl
    · rw [slots_store, r.taker_orders, ← slots_of_account m ⟨perpMarket, book, q⟩ hpk]
      exact (update_eq_self ..).symm
  rw [← hfinal]
  exact hsteps

/-- The end of an order, seen from the clearing: it is counted, and may have been posted. -/
theorem steps_remainder {st : MatchState} {oracle priceLots : Int} {priceData : BitVec 64}
    (h : Remainder book order m st oracle priceLots
      (newNodeKey order.side priceData (BitVec.ofNat 64 (perpMarket.seqNum + 1))) account pk nowTs
      posted book' q' account')
    (hmarket : ∃ feesAccrued, perpMarket' =
      { perpMarket with seqNum := perpMarket.seqNum + 1, feesAccrued })
    (hseq : perpMarket.seqNum + 1 < 2 ^ 64) (hwf : book.WellFormed)
    (hpk : accounts pk = some account)
    (hkeyed : (clearingOf m ⟨perpMarket, book, st.eventQueue⟩ accounts).Keyed) :
    ReflTransGen (Step m K) (clearingOf m ⟨perpMarket, book, st.eventQueue⟩ accounts)
        (clearingOf m ⟨perpMarket', book', q'⟩ (accounts.store pk account')) ∧
      book'.WellFormed ∧ Apart m P account account' := by
  obtain ⟨fees, rfl⟩ := hmarket
  cases h with
  | unposted =>
    refine ⟨.single ?_, hwf, .refl m P account⟩
    have hsame : accounts.store pk account = accounts := by
      rw [Accounts.store, ← hpk, update_eq_self]
    rw [hsame]
    exact .count hseq
  | @posted target room side q' slot account' htarget hpos hroom hposted =>
    obtain ⟨outs, hleaves, hwfRoom, htypeRoom, hevents⟩ := makeRoom_spec (hwf order.side).1 hroom
    -- the key of the new leaf is not on the book
    have hnew : ∀ o, (target, o) ∈ room.leaves → o.key ≠
        newNodeKey order.side priceData (BitVec.ofNat 64 (perpMarket.seqNum + 1)) := by
      intro o ho
      have hmem : (target, o) ∈ (book.bookside order.side).leaves := by
        rw [hleaves]
        exact Multiset.mem_add.mpr (Or.inr ho)
      exact (hkeyed.leaves order.side _ hmem).ne_next hseq priceData
    obtain ⟨r, hinsert⟩ := hposted.insert
    obtain ⟨oo, hoo, hfree⟩ := hposted.free
    obtain ⟨l, hmoves⟩ := hposted.moves
    have horders := hposted.orders
    generalize hquantity : min st.remainingBaseLots (st.remainingQuoteLots.tdiv priceLots) =
      quantity at hpos hinsert hmoves horders
    generalize hleaf : newLeaf order slot (newNodeKey order.side priceData
      (BitVec.ofNat 64 (perpMarket.seqNum + 1))) pk quantity nowTs = leaf at hinsert
    have hkey : leaf.key = newNodeKey order.side priceData
        (BitVec.ofNat 64 (perpMarket.seqNum + 1)) := by rw [← hleaf, newLeaf]
    have howner : leaf.owner = pk := by rw [← hleaf, newLeaf]
    have hslot : leaf.ownerSlot = slot := by
      rw [← hleaf]
      exact Nat.mod_eq_of_lt hposted.slot_lt
    have hlots : leaf.quantity = quantity := by rw [← hleaf, newLeaf]
    have hclient : leaf.clientOrderId = order.clientOrderId := by rw [← hleaf, newLeaf]
    have hside := (BookSide.insertLeaf_spec hwfRoom hinsert).2 (hkey ▸ hnew)
    refine ⟨?_, hwf.set hside.wf (hside.type_eq.trans htypeRoom),
      hmoves.apart (by rw [horders, length_set]) fun m' hm' hne => ?_⟩
    · have hdrops := steps_drops (m := m) (K := K) order.side nowTs outs
        (s := clearingOf m ⟨perpMarket, book, st.eventQueue⟩ accounts) st.eventQueue.seqNum hleaves
      refine hdrops.trans (.single ?_)
      have hslots := slots_of_account m ⟨perpMarket, book, st.eventQueue⟩ hpk
      have hfree' : ((clearingOf m ⟨perpMarket, book, st.eventQueue⟩ accounts).slots
          leaf.owner)[leaf.ownerSlot]? = some oo := by
        rw [howner, hslots, hslot]
        exact hoo
      have hledger : (clearingOf m ⟨perpMarket, book, st.eventQueue⟩ accounts).ledger leaf.owner =
          some l := by
        rw [howner, ledger_of_account m _ hpk]
        exact hmoves.before
      have hpost := Step.post (m := m) (K := K) (c := target)
        (s := ((clearingOf m ⟨perpMarket, book, st.eventQueue⟩ accounts).withLeaves order.side
          room.leaves).withEvents (st.eventQueue.events ++ roomEvents order.side nowTs
            st.eventQueue.seqNum outs)) hseq hkey (hlots ▸ hpos) hledger hfree' hfree
      refine Eq.subst ?_ hpost
      refine Clearing.ext ?_ ?_ rfl ?_ ?_ ?_
      · refine Eq.trans ?_ (leaves_setBookside ..).symm
        rw [hside.leaves_eq]
        refine (update_idem ..).trans (congrArg _ ?_)
        exact congrArg _ (update_self ..)
      · exact hevents.symm
      · show perpMarket.openInterest + (|(Ledger.addMaker _ _ _).base| - _) = _
        rw [Ledger.base_addMaker, sub_self, add_zero]
        rfl
      · rw [ledger_store, hmoves.after, ← howner, ← hlots]
        rfl
      · rw [slots_store, horders, ← hslots, ← howner, ← hslot, ← hkey, ← hclient, ← hlots]
        rfl
    · rw [horders]
      exact .set hoo (hfree ▸ hne.symm) hm'.symm

theorem newOrder_refines
    (h : book.newOrder order perpMarket q oraclePrice account pk nowTs limit =
      .ok (posted, book', perpMarket', q', account'))
    (hindex : perpMarket.perpMarketIndex = m) (hwf : book.WellFormed)
    (hpk : accounts pk = some account)
    (hpos : (clearingOf m ⟨perpMarket, book, q⟩ accounts).Positive)
    (hkeyed : (clearingOf m ⟨perpMarket, book, q⟩ accounts).Keyed) :
    Refines m K P ⟨perpMarket, book, q⟩ accounts ⟨perpMarket', book', q'⟩
      (accounts.store pk account') := by
  obtain ⟨r⟩ := newOrder_run h
  obtain ⟨hits, rest, hm⟩ := r.matched hwf
  have hmatched := steps_matched (K := K) hm hindex hpk hpos
  have hkeyed' := steps_keyed hmatched hkeyed
  have hrest := r.remainder
  rw [hindex] at hrest
  obtain ⟨hsteps, hwf', hapart⟩ := steps_remainder (K := K) (P := P) hrest r.market_eq r.seqNum_lt
    (hwf.set hm.after.wf hm.after.type_eq) (store_self accounts pk r.taker) hkeyed'
  rw [store_store] at hsteps
  have hmoves := r.taker_moves
  rw [hindex] at hmoves
  refine ⟨?_, fun _ => hwf', hmatched.trans hsteps, .store hpk ?_⟩
  · obtain ⟨fees, hmarket⟩ := r.market_eq
    show perpMarket'.perpMarketIndex = perpMarket.perpMarketIndex
    rw [hmarket]
  · exact (hmoves.apart_of_orders r.taker_orders).trans hapart

end NewOrder

/-! ## perp_consume_events -/

section Consume

variable {m : PerpMarketIndex} {K : Clearing → Pubkey → Prop} {P : Prop} {accounts : Accounts}

/-- Writing back an account whose position counts something else. -/
theorem clearingOf_store {pk : Pubkey} {account' : MangoAccount} {l l' : Ledger}
    {perpMarket perpMarket' : PerpMarket} (book : Orderbook) (q : EventQueue)
    (hafter : account'.ledgerOf m = some l')
    (hseq : perpMarket'.seqNum = perpMarket.seqNum)
    (hinterest : perpMarket'.openInterest = perpMarket.openInterest + (|l'.base| - |l.base|)) :
    clearingOf m ⟨perpMarket', book, q⟩ (accounts.store pk account') =
      ((clearingOf m ⟨perpMarket, book, q⟩ accounts).move pk l l').withSlots pk
        account'.perpOpenOrders := by
  refine Clearing.ext rfl rfl hseq hinterest ?_ ?_
  · rw [ledger_store, hafter]
    rfl
  · rw [slots_store]
    rfl

/-- An account that was passed in is loaded. -/
theorem loadPassed_eq_some {passed : List Pubkey} {key : Pubkey} {account : MangoAccount}
    (h : loadPassed accounts passed key = .ok (some account)) : accounts key = some account := by
  unfold loadPassed at h
  split at h
  · obtain ⟨a, hload, h⟩ := of_bind h
    obtain rfl := some.inj (ok_inj h)
    exact load_eq_ok.mp hload
  · cases h

variable (book : Orderbook) {q q' : EventQueue} {perpMarket perpMarket' : PerpMarket}
  {accounts' : Accounts} {passed : List Pubkey} {nowTs interval : Nat} {es : List AnyEvent}

/-- Both sides of a fill are processed one after the other: in a self-trade, the
    taker is the account that was written back for the maker. -/
theorem consumeEvent_fill {f : FillEvent}
    (h : consumeEvent perpMarket accounts passed nowTs interval (.fill f) =
      .ok (some (perpMarket', accounts'))) :
    ∃ maker maker' perpMarket₁ taker taker', accounts f.maker = some maker ∧
      maker.executePerpMaker perpMarket f nowTs interval = .ok (maker', perpMarket₁) ∧
      accounts.store f.maker maker' f.taker = some taker ∧
      taker.executePerpTaker perpMarket₁ f = .ok (taker', perpMarket') ∧
      accounts' = (accounts.store f.maker maker').store f.taker taker' := by
  simp only [consumeEvent] at h
  split at h
  · rename_i hself
    obtain ⟨o, hload, h⟩ := of_bind h
    cases o with
    | none => cases h
    | some account =>
      obtain ⟨⟨maker, perpMarket₁⟩, hmaker, h⟩ := of_bind h
      obtain ⟨⟨both, perpMarket₂⟩, htaker, h⟩ := of_bind h
      obtain ⟨rfl, rfl⟩ := Prod.mk.inj (some.inj (ok_inj h))
      refine ⟨account, maker, perpMarket₁, maker, both, loadPassed_eq_some hload, hmaker, ?_,
        htaker, ?_⟩
      · rw [← hself]
        exact store_self ..
      · rw [← hself]
        exact (store_store ..).symm
  · rename_i hne
    obtain ⟨o, hload, h⟩ := of_bind h
    cases o with
    | none => cases h
    | some maker =>
      obtain ⟨o, hload', h⟩ := of_bind h
      cases o with
      | none => cases h
      | some taker =>
        obtain ⟨⟨maker', perpMarket₁⟩, hmaker, h⟩ := of_bind h
        obtain ⟨⟨taker', perpMarket₂⟩, htaker, h⟩ := of_bind h
        obtain ⟨rfl, rfl⟩ := Prod.mk.inj (some.inj (ok_inj h))
        exact ⟨maker, maker', perpMarket₁, taker, taker', loadPassed_eq_some hload, hmaker,
          (store_of_ne (Ne.symm hne)).trans (loadPassed_eq_some hload'), htaker, rfl⟩

theorem consume_fill {f : FillEvent} {maker maker' taker taker' : MangoAccount}
    {perpMarket₁ : PerpMarket} (hevents : q.events = .fill f :: es) (hpos : 0 < f.quantity)
    (hindex : perpMarket.perpMarketIndex = m) (hload : accounts f.maker = some maker)
    (hmaker : maker.executePerpMaker perpMarket f nowTs interval = .ok (maker', perpMarket₁))
    (hload' : accounts.store f.maker maker' f.taker = some taker)
    (htaker : taker.executePerpTaker perpMarket₁ f = .ok (taker', perpMarket'))
    (hq : q'.events = es) :
    (∃ openInterest, perpMarket' = { perpMarket with openInterest }) ∧
    Step m K (clearingOf m ⟨perpMarket, book, q⟩ accounts)
      (clearingOf m ⟨perpMarket', book, q'⟩
        ((accounts.store f.maker maker').store f.taker taker')) ∧
    Apart m P maker maker' ∧ Apart m P taker taker' := by
  obtain ⟨⟨lm, lm', hlm', hmoves, rfl⟩, hslots, -⟩ := executePerpMaker_spec hmaker
  obtain ⟨⟨lt, lt', hlt', hmoves', rfl⟩, horders, -⟩ := executePerpTaker_spec htaker
  rw [abs_of_pos hpos] at hlm'
  rw [PerpMarket.track_perpMarketIndex, hindex] at hmoves'
  rw [hindex] at hmoves hslots
  refine ⟨⟨_, rfl⟩, ?_, hmoves.apart hslots.length_eq fun m' hm' hne => hslots.sameSlots hm' hne,
    hmoves'.apart_of_orders horders⟩
  rw [← slots_of_account m ⟨perpMarket, book, q⟩ hload] at hslots
  have hm : afterMaker f lm = lm' := hlm'.symm
  have ht : afterTaker f lt = lt' := hlt'.symm
  have hledger : ((clearingOf m ⟨perpMarket, book, q⟩ accounts).move f.maker lm
      (afterMaker f lm)).ledger f.taker = some lt := by
    have hstored := ledger_of_account m ⟨perpMarket, book, q⟩ hload'
    rw [ledger_store, hmoves.after, hmoves'.before] at hstored
    rw [hm]
    exact hstored
  have hstep := Step.settleFill (K := K) (s := clearingOf m ⟨perpMarket, book, q⟩ accounts)
    hevents ((ledger_of_account m _ hload).trans hmoves.before) hledger hslots
  refine Eq.subst ?_ hstep
  rw [hm, ht]
  refine Clearing.ext rfl hq.symm rfl rfl ?_ ?_
  · rw [ledger_store, ledger_store, hmoves'.after, hmoves.after]
    rfl
  · -- the slots of the taker are not touched
    rw [slots_store, horders, ← slots_of_account m
      ⟨(perpMarket.track lm lm').track lt lt', book, q'⟩ hload', update_eq_self, slots_store]
    rfl

theorem consume_out {e : OutEvent} {owner owner' : MangoAccount}
    (hevents : q.events = .out e :: es) (hindex : perpMarket.perpMarketIndex = m)
    (hload : accounts e.owner = some owner)
    (hout : owner.executePerpOutEvent perpMarket.perpMarketIndex e.side e.ownerSlot e.quantity
      e.orderId = .ok owner') (hq : q'.events = es) :
    Step m K (clearingOf m ⟨perpMarket, book, q⟩ accounts)
      (clearingOf m ⟨perpMarket, book, q'⟩ (accounts.store e.owner owner')) ∧
    Apart m P owner owner' := by
  obtain ⟨⟨l, hmoves⟩, hslots, -⟩ := executePerpOutEvent_spec hout
  rw [hindex] at hmoves hslots
  refine ⟨?_, hmoves.apart hslots.length_eq fun m' hm' hne => hslots.sameSlots hm' hne⟩
  rw [← slots_of_account m ⟨perpMarket, book, q⟩ hload] at hslots
  have hstep := Step.settleOut (K := K) (s := clearingOf m ⟨perpMarket, book, q⟩ accounts)
    hevents ((ledger_of_account m _ hload).trans hmoves.before) hslots
  refine Eq.subst ?_ hstep
  rw [clearingOf_store (l := l) book q' hmoves.after rfl
    (by rw [Ledger.base_addMaker, sub_self, add_zero])]
  exact Clearing.ext rfl hq.symm rfl rfl rfl rfl

/-- Processing the first event of the queue. -/
theorem consumeEvent_step {event : AnyEvent} (hevents : q.events = event :: es)
    (hpos : event.Positive) (hindex : perpMarket.perpMarketIndex = m) (hq : q'.events = es)
    (h : consumeEvent perpMarket accounts passed nowTs interval event =
      .ok (some (perpMarket', accounts'))) :
    (∃ openInterest, perpMarket' = { perpMarket with openInterest }) ∧
    Step m K (clearingOf m ⟨perpMarket, book, q⟩ accounts)
      (clearingOf m ⟨perpMarket', book, q'⟩ accounts') ∧ ApartAccounts m P accounts accounts' := by
  cases event with
  | fill f =>
    obtain ⟨maker, maker', perpMarket₁, taker, taker', hload, hmaker, hload', htaker, rfl⟩ :=
      consumeEvent_fill h
    obtain ⟨hmarket, hstep, hapart, hapart'⟩ := consume_fill (K := K) (P := P) book
      hevents hpos hindex hload hmaker hload' htaker hq
    exact ⟨hmarket, hstep, (ApartAccounts.store hload hapart).trans (.store hload' hapart')⟩
  | out e =>
    obtain ⟨o, hload, h⟩ := of_bind h
    cases o with
    | none => cases h
    | some owner =>
      obtain ⟨owner', hout, h⟩ := of_bind h
      obtain ⟨rfl, rfl⟩ := Prod.mk.inj (some.inj (ok_inj h))
      have hload := loadPassed_eq_some hload
      obtain ⟨hstep, hapart⟩ := consume_out (K := K) (P := P) book hevents hindex hload
        hout hq
      exact ⟨⟨_, rfl⟩, hstep, .store hload hapart⟩
  | liquidate =>
    obtain ⟨rfl, rfl⟩ := Prod.mk.inj (some.inj (ok_inj h))
    refine ⟨⟨_, rfl⟩, ?_, .refl m P accounts⟩
    have hstep := Step.skip (m := m) (K := K)
      (s := clearingOf m ⟨perpMarket, book, q⟩ accounts) hevents
    refine Eq.subst ?_ hstep
    exact Clearing.ext rfl hq.symm rfl rfl rfl rfl

/-- What processing the first event keeps holds after the loop. -/
theorem consumeLoop_induction {J : Market → Accounts → Prop}
    (hstep : ∀ {market : Market} {accounts accounts₁ : Accounts} {event : AnyEvent}
      {es : List AnyEvent} {perpMarket₁ : PerpMarket} {q₁ : EventQueue}, J market accounts →
      market.eventQueue.events = event :: es → q₁.events = es →
      consumeEvent market.perpMarket accounts passed nowTs interval event =
        .ok (some (perpMarket₁, accounts₁)) →
      J { market with perpMarket := perpMarket₁, eventQueue := q₁ } accounts₁) :
    ∀ (limit : Nat) {market market' : Market} {accounts accounts' : Accounts},
      J market accounts →
      consumeLoop passed nowTs interval limit market accounts = .ok (market', accounts') →
      J market' accounts' := by
  intro limit
  induction limit with
  | zero =>
    intro market market' accounts accounts' hJ h
    obtain ⟨rfl, rfl⟩ := ok_inj₂ h
    exact hJ
  | succ limit ih =>
    intro market market' accounts accounts' hJ h
    unfold consumeLoop at h
    rw [EventQueue.peekFront_eq] at h
    cases hevents : market.eventQueue.events with
    | nil =>
      rw [hevents] at h
      obtain ⟨rfl, rfl⟩ := ok_inj₂ h
      exact hJ
    | cons event es =>
      rw [hevents] at h
      obtain ⟨o, hconsume, h⟩ := of_bind h
      cases o with
      | none =>
        obtain ⟨rfl, rfl⟩ := ok_inj₂ h
        exact hJ
      | some r =>
        obtain ⟨perpMarket₁, accounts₁⟩ := r
        obtain ⟨⟨event', q₁⟩, hpop, h⟩ := of_bind h
        have hcons := EventQueue.events_popFront hpop
        rw [hevents] at hcons
        obtain ⟨-, hq⟩ := cons.inj hcons
        exact ih (hstep hJ hevents hq.symm hconsume) h

theorem consumeLoop_releasing (passed : List Pubkey) (nowTs interval limit : Nat)
    {market market' : Market} {accounts accounts' : Accounts}
    (hindex : market.perpMarket.perpMarketIndex = m)
    (hpos : (clearingOf m market accounts).Positive)
    (h : consumeLoop passed nowTs interval limit market accounts = .ok (market', accounts')) :
    Releasing m K P market accounts market' accounts' := by
  refine consumeLoop_induction (J := Releasing m K P market accounts) ?_ limit (.refl _ _) h
  intro market₁ accounts₁ accounts₂ event es perpMarket₂ q₂ hrefines hevents hq hconsume
  have hpos₁ := steps_positive hrefines.steps hpos
  have hevent : event.Positive := by
    apply hpos₁.events
    rw [clearingOf_events, hevents]
    exact mem_cons_self ..
  obtain ⟨⟨_, rfl⟩, hstep, hapart⟩ := consumeEvent_step (K := K) (P := P) market₁.book hevents
    hevent (hrefines.index.trans hindex) hq hconsume
  refine hrefines.trans ⟨⟨rfl, id, .single hstep, hapart⟩, fun hpos => hstep.releases hpos ?_, rfl⟩
  show q₂.events.length < market₁.eventQueue.events.length
  rw [hevents, hq]
  exact Nat.lt_succ_self _

end Consume

/-! ## cancel_order_by_slot and cancel_all_orders -/

section Cancel

variable {m : PerpMarketIndex} {K : Clearing → Pubkey → Prop} {P : Prop}
  {book book' : Orderbook} {account account' : MangoAccount} {pk : Pubkey} {market : Market}
  {accounts : Accounts}

theorem position_store_self : (clearingOf m market (accounts.store pk account)).position pk =
    (account.ledgerOf m).getD .zero := by
  rw [position, ledger_store, Function.update_self]

theorem position_store_of_ne (market market' : Market) {a : Pubkey} (h : a ≠ pk) :
    (clearingOf m market' (accounts.store pk account)).position a =
      (clearingOf m market accounts).position a := by
  rw [position, ledger_store, Function.update_of_ne h]
  rfl

theorem position_of_account (h : accounts pk = some account) :
    (clearingOf m market accounts).position pk = (account.ledgerOf m).getD .zero := by
  rw [position, ledger_of_account m market h]

theorem releases_store (market market' : Market) {l l' : Ledger} (hpk : accounts pk = some account)
    (hmoves : PerpMoves account account' m l l') (h : l.Releases l') (a : Pubkey) :
    ((clearingOf m market accounts).position a).Releases
      ((clearingOf m market' (accounts.store pk account')).position a) := by
  by_cases ha : a = pk
  · subst ha
    rw [position_store_self, position_of_account hpk, hmoves.before, hmoves.after]
    exact h
  · rw [position_store_of_ne market market' ha]
    exact .refl _

theorem cancelOrderBySlot_releasing {slot : Nat}
    (h : book.cancelOrderBySlot account pk slot m = .ok (book', account')) (perpMarket : PerpMarket)
    (q : EventQueue) (hwf : book.WellFormed)
    (hpk : accounts pk = some account) :
    Releasing m K P ⟨perpMarket, book, q⟩ accounts ⟨perpMarket, book', q⟩
      (accounts.store pk account') := by
  obtain ⟨oo, hoo, h⟩ := of_bind h
  obtain ⟨_, hactive, h⟩ := of_bind h
  obtain ⟨⟨leaf, b⟩, hremove, h⟩ := of_bind h
  obtain ⟨quantity, hquantity, h⟩ := of_bind h
  obtain ⟨account₁, hremoveOrder, h⟩ := of_bind h
  obtain ⟨rfl, rfl⟩ := ok_inj₂ h
  have hoo := perpOrderByRawIndex_eq_ok.mp hoo
  have hm : oo.market = m := of_require hactive
  obtain ⟨⟨l, hmoves⟩, hfree, horders, -⟩ := removePerpOrder_spec hoo hremoveOrder
  rw [hm] at hmoves hfree
  have hslots := slots_of_account m ⟨perpMarket, book, q⟩ hpk
  have hledger := (ledger_of_account m ⟨perpMarket, book, q⟩ hpk).trans hmoves.before
  have hapart : Apart m P account account₁ := by
    refine hmoves.apart (by rw [horders, length_set]) fun m' hm' hne => ?_
    rw [horders]
    exact .set hoo (hm ▸ hm'.symm) hne.symm
  have hstore : ∀ book', clearingOf m ⟨perpMarket, book', q⟩ (accounts.store pk account₁) =
      ((clearingOf m ⟨perpMarket, book', q⟩ accounts).move pk l
        (l.addMaker oo.sideAndTree.side (-quantity))).withSlots pk
          (account.perpOpenOrders.set slot .cleared) := by
    intro book'
    rw [← horders]
    exact clearingOf_store book' q hmoves.after rfl (by rw [Ledger.base_addMaker, sub_self, add_zero])
  have hreleases : ∀ book', 0 ≤ quantity → ∀ a,
      ((clearingOf m ⟨perpMarket, book, q⟩ accounts).position a).Releases
        ((clearingOf m ⟨perpMarket, book', q⟩ (accounts.store pk account₁)).position a) :=
    fun book' hquantity => releases_store _ _ hpk hmoves (.drop l _ hquantity)
  rcases BookSide.removeByKey_spec (hwf oo.sideAndTree.side).1 hremove with
    ⟨rfl, rfl, hgone⟩ | ⟨o, rest, rfl, hkey, hrest, hb⟩
  · -- the order is not on the book
    have hsame : book.setBookside oo.sideAndTree.side (book.bookside oo.sideAndTree.side) = book := by
      cases oo.sideAndTree.side <;> rfl
    simp only at hquantity
    split at hquantity
    · cases hquantity
    · obtain rfl := ok_inj hquantity
      rw [hsame]
      refine ⟨⟨rfl, fun _ => hwf, .single ?_, .store hpk hapart⟩, fun _ => hreleases _ le_rfl, rfl⟩
      have hstep := Step.forget (K := K) (s := clearingOf m ⟨perpMarket, book, q⟩ accounts)
        (a := pk) (by rw [hslots]; exact hoo) hm hfree hgone
      refine Eq.subst ?_ hstep
      rw [hstore, hslots, neg_zero, Ledger.addMaker_zero]
      refine Clearing.ext rfl rfl rfl ?_ ?_ rfl
      · simp
      · show (clearingOf m ⟨perpMarket, book, q⟩ accounts).ledger =
          update (clearingOf m ⟨perpMarket, book, q⟩ accounts).ledger pk (some l)
        rw [← hledger, update_eq_self]
  · obtain ⟨_, hslot, hquantity⟩ := of_bind hquantity
    obtain ⟨_, howner, hquantity⟩ := of_bind hquantity
    obtain rfl := ok_inj hquantity
    have hslot := of_require hslot
    have howner := of_require howner
    have hin : (_, o) ∈ (book.bookside oo.sideAndTree.side).leaves :=
      hrest ▸ Multiset.mem_cons_self ..
    refine ⟨⟨rfl, fun _ => hwf.set hb.wf hb.type_eq, .single ?_, .store hpk hapart⟩,
      fun hpos => hreleases _ (hpos.leaves _ _ hin).le, rfl⟩
    have hstep := Step.cancel (K := K) (s := clearingOf m ⟨perpMarket, book, q⟩ accounts)
      (a := pk) (by rw [hslots]; exact hoo) hm hfree hrest hkey howner hslot hledger
    refine Eq.subst ?_ hstep
    rw [hstore, hslots]
    refine Clearing.ext ?_ rfl rfl rfl rfl rfl
    refine Eq.trans ?_ (leaves_setBookside ..).symm
    rw [hb.leaves_eq]
    rfl

theorem cancelLoop_releasing (perpMarket : PerpMarket) (q : EventQueue) (sideToCancel : Option Side)
    (is : List Nat) {limit : Nat} (hwf : book.WellFormed)
    (hpk : accounts pk = some account)
    (h : cancelLoop pk m sideToCancel is book account limit = .ok (book', account')) :
    Releasing m K P ⟨perpMarket, book, q⟩ accounts ⟨perpMarket, book', q⟩
      (accounts.store pk account') := by
  have hsame : accounts.store pk account = accounts := by
    rw [Accounts.store, ← hpk, update_eq_self]
  have hstart : Releasing m K P ⟨perpMarket, book, q⟩ accounts ⟨perpMarket, book, q⟩
      (accounts.store pk account) := by
    rw [hsame]
    exact .refl _ accounts
  refine cancelLoop_preserves (P := fun book₁ account₁ => Releasing m K P
    ⟨perpMarket, book, q⟩ accounts ⟨perpMarket, book₁, q⟩ (accounts.store pk account₁))
    ?_ sideToCancel is hstart h
  intro book₁ book₂ account₁ account₂ slot hfirst hcancel
  have hnext := cancelOrderBySlot_releasing (K := K) (P := P) hcancel perpMarket q (hfirst.book hwf)
    (store_self accounts pk account₁)
  rw [store_store] at hnext
  exact hfirst.trans hnext

end Cancel

end Exchange

end MangoV4
