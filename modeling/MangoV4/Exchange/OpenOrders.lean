/-
  MangoV4.Exchange.OpenOrders

  Orders, open-order slots and events refer to each other by order id.

  Ids are generated from the sequence number of the market, so they are new
  when an order is posted and are never given out again.  That makes the slot
  of a resting order the only one with its id (`Clearing.Tracked`), and keeps
  a delayed event from touching a slot that another order uses by now.
-/

import MangoV4.Exchange.Run
import MangoV4.State.Faults

namespace MangoV4

open Lib Lib.Exec Relation Multiset Function MangoAccount Clearing Orderbook

/-- The order an event refers to; `out` says that it is off the book. -/
structure OrderRef where
  owner : Pubkey
  slot : Nat
  id : Key
  out : Bool
deriving DecidableEq

/-- The order of an event; liquidations have none. -/
def AnyEvent.ref : AnyEvent → Option OrderRef
  | .fill f => some ⟨f.maker, f.makerSlot, f.makerOrderId, f.makerOut⟩
  | .out o => some ⟨o.owner, o.ownerSlot, o.orderId, true⟩
  | .liquidate => none

namespace Clearing

/-! ## Ids -/

theorem KeyedUpTo.ne_zero {n : Nat} {side : Side} {k : Key} (h : KeyedUpTo n side k)
    (hn : n < 2 ^ 63) : k ≠ 0 := by
  obtain ⟨priceData, i, hone, hi, rfl⟩ := h
  intro heq
  have hlow := newNodeKey_low side priceData (BitVec.ofNat 64 i)
  have hnat : (BitVec.ofNat 64 i).toNat = i := Nat.mod_eq_of_lt (by omega)
  rw [heq] at hlow
  cases side with
  | bid =>
    have hlow : 0 = 2 ^ 64 - 1 - (BitVec.ofNat 64 i).toNat := hlow
    omega
  | ask =>
    have hlow : 0 = (BitVec.ofNat 64 i).toNat := hlow
    omega

/-- The next key is new on both sides. -/
theorem KeyedUpTo.ne_next_of_lt {n : Nat} {side : Side} {k : Key} (h : KeyedUpTo n side k)
    (hn : n + 1 < 2 ^ 63) (side' : Side) (priceData : BitVec 64) :
    k ≠ newNodeKey side' priceData (BitVec.ofNat 64 (n + 1)) := by
  by_cases hside : side = side'
  · subst hside
    exact h.ne_next (by omega) priceData
  · obtain ⟨priceData', i, -, hi, rfl⟩ := h
    refine newNodeKey_ne_of_side hside priceData' priceData ?_ ?_
    · rw [BitVec.toNat_ofNat]
      omega
    · rw [BitVec.toNat_ofNat]
      omega

/-- Ids of all resting orders. -/
def keys (s : Clearing) : Multiset Key :=
  (s.leaves .bid + s.leaves .ask).map fun x => x.2.key

section Keys

variable {s : Clearing} {side : Side} {ls : Multiset (BookSideOrderTree × LeafNode)}

theorem keys_eq (s : Clearing) (side : Side) :
    s.keys = (s.leaves side).map (fun x => x.2.key) +
      (s.leaves side.invertSide).map fun x => x.2.key := by
  rw [keys, map_add]
  cases side with
  | bid => rfl
  | ask => exact add_comm _ _

/-- The ids after the orders of one side have been replaced. -/
theorem keys_of_leaves {t : Clearing} (h : t.leaves = update s.leaves side ls) :
    t.keys = ls.map (fun x => x.2.key) + (s.leaves side.invertSide).map fun x => x.2.key := by
  have hne : side.invertSide ≠ side := by cases side <;> decide
  rw [keys_eq t side, h, update_self, update_of_ne hne]

theorem mem_keys {x : BookSideOrderTree × LeafNode} (h : x ∈ s.leaves side) : x.2.key ∈ s.keys := by
  rw [keys_eq s side]
  exact mem_add.mpr (Or.inl (mem_map_of_mem _ h))

theorem Keyed.of_mem_keys (h : s.Keyed) {k : Key} (hk : k ∈ s.keys) :
    ∃ side, KeyedUpTo s.seqNum side k := by
  obtain ⟨x, hx, rfl⟩ := mem_map.mp hk
  rcases mem_add.mp hx with hx | hx
  · exact ⟨.bid, h.leaves .bid x hx⟩
  · exact ⟨.ask, h.leaves .ask x hx⟩

/-- The ids of a side from which one order has been taken. -/
theorem keys_of_cons {y : BookSideOrderTree × LeafNode} (h : s.leaves side = y ::ₘ ls) :
    s.keys = y.2.key ::ₘ (s.withLeaves side ls).keys := by
  rw [keys_eq s side, keys_of_leaves (s := s) (t := s.withLeaves side ls) rfl, h, map_cons, cons_add]

end Keys

/-! ## Slots -/

/-- Slot `i` of account `a` is in use for market `m`. -/
def Active (m : PerpMarketIndex) (s : Clearing) (a : Pubkey) (i : Nat) (oo : PerpOpenOrder) : Prop :=
  (s.slots a)[i]? = some oo ∧ oo.market = m

/-- Both slots are for the same order, of which there may be a different quantity left. -/
def SameOrder (oo oo' : PerpOpenOrder) : Prop :=
  oo'.id = oo.id ∧ oo'.sideAndTree = oo.sideAndTree

/-- No slot is used for a new order, and only slots that are `lost` get free. -/
structure SlotsKept (m : PerpMarketIndex) (lost : Pubkey → Nat → PerpOpenOrder → Prop)
    (s s' : Clearing) : Prop where
  old : ∀ a i oo', Active m s' a i oo' → ∃ oo, Active m s a i oo ∧ SameOrder oo oo'
  new : ∀ a i oo, Active m s a i oo → lost a i oo ∨ ∃ oo', Active m s' a i oo' ∧ SameOrder oo oo'

section Slots

variable {m : PerpMarketIndex} {s s' : Clearing} {a : Pubkey} {slot : Nat}

theorem SlotsKept.of_iff (h : ∀ a i oo, Active m s' a i oo ↔ Active m s a i oo) :
    SlotsKept m (fun _ _ _ => False) s s' :=
  ⟨fun a i oo' ho => ⟨oo', (h a i oo').mp ho, rfl, rfl⟩,
    fun a i oo ho => Or.inr ⟨oo, (h a i oo).mpr ho, rfl, rfl⟩⟩

theorem SlotsKept.of_slots (h : s'.slots = s.slots) : SlotsKept m (fun _ _ _ => False) s s' :=
  .of_iff fun a i oo => by rw [Active, Active, h]

/-- What is in use after one slot has been written. -/
theorem active_set {old new : PerpOpenOrder} (hold : (s.slots a)[slot]? = some old)
    (hslots : s'.slots = update s.slots a ((s.slots a).set slot new)) (b : Pubkey) (i : Nat)
    (oo : PerpOpenOrder) :
    Active m s' b i oo ↔
      (b = a ∧ i = slot ∧ oo = new ∧ new.market = m) ∨ (¬ (b = a ∧ i = slot) ∧ Active m s b i oo) := by
  unfold Active
  rw [hslots]
  by_cases hb : b = a
  · subst hb
    rw [update_self]
    by_cases hi : i = slot
    · subst hi
      have hlt := (List.getElem?_eq_some_iff.mp hold).1
      rw [List.getElem?_set_self hlt]
      constructor
      · rintro ⟨hoo, hm⟩
        obtain rfl := Option.some.inj hoo
        exact Or.inl ⟨rfl, rfl, rfl, hm⟩
      · rintro (⟨-, -, rfl, hm⟩ | ⟨hne, -⟩)
        · exact ⟨rfl, hm⟩
        · exact absurd ⟨rfl, rfl⟩ hne
    · rw [List.getElem?_set_ne (Ne.symm hi)]
      simp [hi]
  · simp [hb]

/-- Clearing a slot. -/
theorem SlotsKept.cleared {old : PerpOpenOrder} (hfree : m ≠ FREE_ORDER_SLOT)
    (hold : (s.slots a)[slot]? = some old)
    (hslots : s'.slots = update s.slots a ((s.slots a).set slot .cleared)) :
    SlotsKept m (fun b i oo => b = a ∧ i = slot ∧ oo = old) s s' := by
  have hiff := active_set (m := m) hold hslots
  refine ⟨fun b i oo' ho => ?_, fun b i oo ho => ?_⟩
  · rcases (hiff b i oo').mp ho with ⟨-, -, -, hm⟩ | ⟨-, ho⟩
    · exact absurd hm.symm hfree
    · exact ⟨oo', ho, rfl, rfl⟩
  · by_cases hat : b = a ∧ i = slot
    · obtain ⟨rfl, rfl⟩ := hat
      exact Or.inl ⟨rfl, rfl, Option.some.inj (ho.1.symm.trans hold)⟩
    · exact Or.inr ⟨oo, (hiff b i oo).mpr (Or.inr ⟨hat, ho⟩), rfl, rfl⟩

/-- An event frees at most the slot of its order, once that is off the book. -/
theorem SlotsKept.updated {id : Key} {out : Bool} {orders : List PerpOpenOrder}
    (hfree : m ≠ FREE_ORDER_SLOT)
    (hupdate : SlotUpdate m slot id out (s.slots a) orders)
    (hslots : s'.slots = update s.slots a orders) :
    SlotsKept m (fun b i oo => b = a ∧ i = slot ∧ out = true ∧ (id = 0 ∨ oo.id = id)) s s' := by
  cases hupdate with
  | kept _ _ =>
    rw [update_eq_self] at hslots
    exact ⟨(SlotsKept.of_slots hslots).old, fun b i oo ho =>
      Or.inr (((SlotsKept.of_slots hslots).new b i oo ho).resolve_left not_false)⟩
  | cleared hout hoo _ hmatch =>
    have hkept := SlotsKept.cleared hfree hoo hslots
    refine ⟨hkept.old, fun b i oo ho => ?_⟩
    rcases hkept.new b i oo ho with ⟨rfl, rfl, rfl⟩ | hnew
    · exact Or.inl ⟨rfl, rfl, hout, hmatch⟩
    · exact Or.inr hnew
  | @reduced old quantity hoo hm _ =>
    have hiff := active_set (m := m) hoo hslots
    refine ⟨fun b i oo' ho => ?_, fun b i oo ho => Or.inr ?_⟩
    · rcases (hiff b i oo').mp ho with ⟨rfl, rfl, rfl, -⟩ | ⟨-, ho⟩
      · exact ⟨old, ⟨hoo, hm⟩, rfl, rfl⟩
      · exact ⟨oo', ho, rfl, rfl⟩
    · by_cases hat : b = a ∧ i = slot
      · obtain ⟨rfl, rfl⟩ := hat
        obtain rfl := Option.some.inj (ho.1.symm.trans hoo)
        exact ⟨_, (hiff b i _).mpr (Or.inl ⟨rfl, rfl, rfl, hm⟩), rfl, rfl⟩
      · exact ⟨oo, (hiff b i oo).mpr (Or.inr ⟨hat, ho⟩), rfl, rfl⟩

end Slots

/-! ## Orders are tracked by their ids -/

/-- Ids identify orders: resting orders have different ones and are off the
    book once an event says so, and the slot of a resting order is the only
    slot with its id. -/
structure Tracked (m : PerpMarketIndex) (s : Clearing) : Prop where
  nodup : s.keys.Nodup
  events : ∀ e ∈ s.events, ∀ r ∈ e.ref, ∃ side, KeyedUpTo s.seqNum side r.id
  gone : ∀ e ∈ s.events, ∀ r ∈ e.ref, r.out = true → r.id ∉ s.keys
  slots : ∀ a i oo, Active m s a i oo → ∃ side, KeyedUpTo s.seqNum side oo.id
  unique : ∀ a i oo a' i' oo', Active m s a i oo → Active m s a' i' oo' → oo.id = oo'.id →
    a = a' ∧ i = i'
  held : ∀ side, ∀ x ∈ s.leaves side, ∃ oo, Active m s x.2.owner x.2.ownerSlot oo ∧
    oo.id = x.2.key ∧ oo.sideAndTree = .new side x.1

/-- The same resting order, of which there may be a different quantity left. -/
def SameLeaf (x y : BookSideOrderTree × LeafNode) : Prop :=
  y.1 = x.1 ∧ y.2.key = x.2.key ∧ y.2.owner = x.2.owner ∧ y.2.ownerSlot = x.2.ownerSlot

section Tracked

variable {m : PerpMarketIndex} {K : Clearing → Pubkey → Prop} {s s' : Clearing}

/-- Orders stay tracked when no order is added. -/
theorem Tracked.shrink {lost : Pubkey → Nat → PerpOpenOrder → Prop} (hs : s.Tracked m)
    (hkeyed : s.Keyed) (hseq : s.seqNum ≤ s'.seqNum) (hkeys : s'.keys ≤ s.keys)
    (hleaves : ∀ side, ∀ y ∈ s'.leaves side, ∃ x ∈ s.leaves side, SameLeaf x y)
    (hevents : ∀ e ∈ s'.events, e ∈ s.events ∨
      ∀ r ∈ e.ref, r.id ∈ s.keys ∧ (r.out = true → r.id ∉ s'.keys))
    (hslots : SlotsKept m lost s s')
    (hlost : ∀ side, ∀ x ∈ s'.leaves side, ∀ oo, oo.id = x.2.key → oo.sideAndTree = .new side x.1 →
      ¬ lost x.2.owner x.2.ownerSlot oo) : s'.Tracked m := by
  refine ⟨nodup_of_le hkeys hs.nodup, fun e he r hr => ?_, fun e he r hr hout => ?_,
    fun a i oo' ho => ?_, fun a i oo a' i' oo' ho ho' hid => ?_, fun side y hy => ?_⟩
  · have hissued : ∃ side, KeyedUpTo s.seqNum side r.id := by
      rcases hevents e he with hold | hnew
      · exact hs.events e hold r hr
      · exact hkeyed.of_mem_keys (hnew r hr).1
    obtain ⟨side, hissued⟩ := hissued
    exact ⟨side, hissued.mono hseq⟩
  · rcases hevents e he with hold | hnew
    · exact fun hmem => hs.gone e hold r hr hout (mem_of_le hkeys hmem)
    · exact (hnew r hr).2 hout
  · obtain ⟨oo, ho, hid, -⟩ := hslots.old a i oo' ho
    obtain ⟨side, hissued⟩ := hs.slots a i oo ho
    exact ⟨side, hid ▸ hissued.mono hseq⟩
  · obtain ⟨oo₁, ho₁, hid₁, -⟩ := hslots.old a i oo ho
    obtain ⟨oo₂, ho₂, hid₂, -⟩ := hslots.old a' i' oo' ho'
    exact hs.unique a i oo₁ a' i' oo₂ ho₁ ho₂ (hid₁.symm.trans (hid.trans hid₂))
  · obtain ⟨x, hx, htree, hkey, howner, hslot⟩ := hleaves side y hy
    obtain ⟨oo, ho, hid, hst⟩ := hs.held side x hx
    rw [← hkey] at hid
    rw [← htree] at hst
    rw [← howner, ← hslot] at ho
    rcases hslots.new _ _ oo ho with hl | ⟨oo', ho', hid', hst'⟩
    · exact absurd hl (hlost side y hy oo hid hst)
    · exact ⟨oo', ho', hid'.trans hid, hst'.trans hst⟩

/-- A step that takes one order off the book, or lots from it. -/
theorem Tracked.hit {side : Side} {y : BookSideOrderTree × LeafNode}
    {rest : Multiset (BookSideOrderTree × LeafNode)} {e : AnyEvent} {r : OrderRef}
    (ls : Multiset (BookSideOrderTree × LeafNode)) (hs : s.Tracked m) (hkeyed : s.Keyed) (hleaf : s.leaves side = y ::ₘ rest)
    (hls : ls = 0 ∨ r.out = false ∧ ∃ y', SameLeaf y y' ∧ ls = {y'})
    (hr : e.ref = some r) (hid : r.id = y.2.key) (hseq : s'.seqNum = s.seqNum)
    (hleaves : s'.leaves = update s.leaves side (ls + rest))
    (hevents : s'.events = s.events ++ [e]) (hslots : s'.slots = s.slots) : s'.Tracked m := by
  have hkeys : s.keys = y.2.key ::ₘ (s.withLeaves side rest).keys := keys_of_cons hleaf
  have hkeys' : s'.keys = ls.map (fun x => x.2.key) + (s.withLeaves side rest).keys := by
    rw [keys_of_leaves hleaves, keys_of_leaves (s := s) (t := s.withLeaves side rest) rfl,
      map_add, add_assoc]
  refine hs.shrink hkeyed hseq.ge ?_ ?_ ?_ (.of_slots hslots) fun _ _ _ _ _ _ => id
  · rw [hkeys', hkeys]
    rcases hls with rfl | ⟨-, y', hy, rfl⟩
    · rw [map_zero, zero_add]
      exact le_cons_self _ _
    · rw [map_singleton, hy.2.1]
      exact le_refl _
  · rw [hleaves]
    refine forall_leaves_update (P := fun side y => ∃ x ∈ s.leaves side, SameLeaf x y)
      (fun side x hx => ⟨x, hx, rfl, rfl, rfl, rfl⟩) fun x hx => ?_
    rcases mem_add.mp hx with hx | hx
    · rcases hls with rfl | ⟨-, y', hy, rfl⟩
      · exact absurd hx (notMem_zero x)
      · rw [mem_singleton.mp hx]
        exact ⟨y, hleaf ▸ mem_cons_self _ _, hy⟩
    · exact ⟨x, hleaf ▸ mem_cons_of_mem hx, rfl, rfl, rfl, rfl⟩
  · rw [hevents]
    intro e' he
    rcases List.mem_append.mp he with he | he
    · exact Or.inl he
    · obtain rfl := List.mem_singleton.mp he
      refine Or.inr fun r' hr' => ?_
      obtain rfl := Option.some.inj (hr.symm.trans hr')
      refine ⟨hid ▸ hkeys ▸ mem_cons_self _ _, fun hout => ?_⟩
      -- an order that is out has left nothing on the book
      have hzero : ls = 0 := hls.resolve_right fun h => by rw [hout] at h; exact absurd h.1 (by decide)
      have hnodup := hs.nodup
      rw [hkeys, nodup_cons] at hnodup
      rw [hkeys', hzero, map_zero, zero_add, hid]
      exact hnodup.1

/-- A new order gets an id that nothing else has. -/
theorem Tracked.posted {side : Side} {c : BookSideOrderTree} {o : LeafNode} {priceData : BitVec 64}
    {oo new : PerpOpenOrder} (hs : s.Tracked m) (hkeyed : s.Keyed) (hfree : m ≠ FREE_ORDER_SLOT)
    (hfew : s.seqNum + 1 < 2 ^ 63)
    (hkey : o.key = newNodeKey side priceData (BitVec.ofNat 64 (s.seqNum + 1)))
    (hoo : (s.slots o.owner)[o.ownerSlot]? = some oo) (hmarket : oo.market = FREE_ORDER_SLOT)
    (hnew : new.market = m ∧ new.id = o.key ∧ new.sideAndTree = .new side c)
    (hseq : s'.seqNum = s.seqNum + 1)
    (hleaves : s'.leaves = update s.leaves side ((c, o) ::ₘ s.leaves side))
    (hevents : s'.events = s.events)
    (hslots : s'.slots = update s.slots o.owner ((s.slots o.owner).set o.ownerSlot new)) :
    s'.Tracked m := by
  have hfresh : ∀ k, (∃ side, KeyedUpTo s.seqNum side k) → k ≠ o.key := by
    rintro k ⟨side', hk⟩
    rw [hkey]
    exact hk.ne_next_of_lt hfew side priceData
  have hissued : ∀ k, (∃ side, KeyedUpTo s.seqNum side k) → ∃ side, KeyedUpTo s'.seqNum side k := by
    rintro k ⟨side', hk⟩
    exact ⟨side', hk.mono (by omega)⟩
  have hkeys : s'.keys = o.key ::ₘ s.keys := by
    rw [keys_of_leaves hleaves, keys_eq s side, map_cons, cons_add]
  have hiff := active_set (m := m) hoo hslots
  -- the slot of the new order was not in use
  have hother : ∀ {a i oo'}, Active m s a i oo' → ¬ (a = o.owner ∧ i = o.ownerSlot) := by
    rintro a i oo' ho ⟨rfl, rfl⟩
    obtain rfl := Option.some.inj (ho.1.symm.trans hoo)
    exact hfree (ho.2.symm.trans hmarket)
  have hold : ∀ {a i oo'}, Active m s a i oo' → Active m s' a i oo' := fun ho =>
    (hiff _ _ _).mpr (Or.inr ⟨hother ho, ho⟩)
  refine ⟨?_, fun e he r hr => ?_, fun e he r hr hout => ?_, fun a i oo' ho => ?_,
    fun a i oo₁ a' i' oo₂ h₁ h₂ hid => ?_, ?_⟩
  · rw [hkeys, nodup_cons]
    exact ⟨fun hmem => hfresh _ (hkeyed.of_mem_keys hmem) rfl, hs.nodup⟩
  · exact hissued _ (hs.events e (hevents ▸ he) r hr)
  · rw [hkeys, mem_cons, not_or]
    exact ⟨hfresh _ (hs.events e (hevents ▸ he) r hr), hs.gone e (hevents ▸ he) r hr hout⟩
  · rcases (hiff a i oo').mp ho with ⟨-, -, rfl, -⟩ | ⟨-, ho⟩
    · refine ⟨side, priceData, s.seqNum + 1, Nat.le_add_left .., hseq.ge, ?_⟩
      rw [hnew.2.1, hkey]
    · exact hissued _ (hs.slots a i oo' ho)
  · rcases (hiff a i oo₁).mp h₁ with ⟨rfl, rfl, rfl, -⟩ | ⟨-, h₁⟩
    · rcases (hiff a' i' oo₂).mp h₂ with ⟨rfl, rfl, -, -⟩ | ⟨-, h₂⟩
      · exact ⟨rfl, rfl⟩
      · exact absurd (hid.symm.trans hnew.2.1) (hfresh _ (hs.slots a' i' oo₂ h₂))
    · rcases (hiff a' i' oo₂).mp h₂ with ⟨rfl, rfl, rfl, -⟩ | ⟨-, h₂⟩
      · exact absurd (hid.trans hnew.2.1) (hfresh _ (hs.slots a i oo₁ h₁))
      · exact hs.unique a i oo₁ a' i' oo₂ h₁ h₂ hid
  · rw [hleaves]
    have hkept : ∀ side, ∀ x ∈ s.leaves side, ∃ oo, Active m s' x.2.owner x.2.ownerSlot oo ∧
        oo.id = x.2.key ∧ oo.sideAndTree = .new side x.1 := by
      intro side' x hx
      obtain ⟨oo', ho, hid, hst⟩ := hs.held side' x hx
      exact ⟨oo', hold ho, hid, hst⟩
    refine forall_leaves_update (P := fun side x => ∃ oo, Active m s' x.2.owner x.2.ownerSlot oo ∧
      oo.id = x.2.key ∧ oo.sideAndTree = .new side x.1) hkept fun x hx => ?_
    rcases mem_cons.mp hx with rfl | hx
    · exact ⟨new, (hiff _ _ _).mpr (Or.inl ⟨rfl, rfl, rfl, hnew.1⟩), hnew.2⟩
    · exact hkept side x hx

/-- A step that changes neither orders nor slots. -/
theorem Tracked.quiet (hs : s.Tracked m) (hkeyed : s.Keyed) (hseq : s.seqNum ≤ s'.seqNum)
    (hleaves : s'.leaves = s.leaves) (hevents : ∀ e ∈ s'.events, e ∈ s.events)
    (hslots : ∀ a i oo, Active m s' a i oo ↔ Active m s a i oo) : s'.Tracked m := by
  refine hs.shrink hkeyed hseq ?_ ?_ (fun e he => Or.inl (hevents e he)) (.of_iff hslots)
    fun _ _ _ _ _ _ => id
  · rw [keys, keys, hleaves]
  · rw [hleaves]
    exact fun side x hx => ⟨x, hx, rfl, rfl, rfl, rfl⟩

/-- An event that is processed frees no slot of a resting order: the event says
    that the order is off the book. -/
theorem Tracked.settled {e : AnyEvent} {es : List AnyEvent} {r : OrderRef} (hs : s.Tracked m)
    (hkeyed : s.Keyed) (hfew : s.seqNum < 2 ^ 63) (hfree : m ≠ FREE_ORDER_SLOT)
    (hfront : s.events = e :: es) (hr : e.ref = some r) {orders : List PerpOpenOrder}
    (hupdate : SlotUpdate m r.slot r.id r.out (s.slots r.owner) orders)
    (hseq : s'.seqNum = s.seqNum) (hleaves : s'.leaves = s.leaves) (hevents : s'.events = es)
    (hslots : s'.slots = update s.slots r.owner orders) : s'.Tracked m := by
  have he : e ∈ s.events := hfront ▸ List.mem_cons_self ..
  obtain ⟨side, hissued⟩ := hs.events e he r hr
  have hkept := SlotsKept.updated hfree hupdate hslots
  refine hs.shrink hkeyed hseq.ge ?_ ?_ ?_ hkept ?_
  · rw [keys, keys, hleaves]
  · rw [hleaves]
    exact fun side x hx => ⟨x, hx, rfl, rfl, rfl, rfl⟩
  · rw [hevents]
    exact fun e' he' => Or.inl (hfront ▸ List.mem_cons_of_mem _ he')
  · rintro side' x hx oo hid - ⟨-, -, hout, hmatch⟩
    apply hs.gone e he r hr hout
    rw [← hmatch.resolve_left (hissued.ne_zero hfew), hid]
    exact mem_keys (hleaves ▸ hx)

theorem Step.tracked (h : Step m K s s') (hfree : m ≠ FREE_ORDER_SLOT) (hkeyed : s.Keyed)
    (hfew : s'.seqNum < 2 ^ 63) (hs : s.Tracked m) : s'.Tracked m := by
  cases h with
  | count _ => exact hs.quiet hkeyed (Nat.le_succ _) rfl (fun _ he => he) fun _ _ _ => Iff.rfl
  | @fill side c o rest f l hleaf hfill hl =>
    refine Tracked.hit (r := ⟨f.maker, f.makerSlot, f.makerOrderId, f.makerOut⟩) _ hs hkeyed hleaf ?_ rfl
      hfill.makerOrderId rfl rfl rfl rfl
    by_cases hq : f.quantity = o.quantity
    · exact Or.inl (if_pos hq)
    · refine Or.inr ⟨?_, _, ?_, if_neg hq⟩
      · exact hfill.makerOut.trans (decide_eq_false hq)
      · exact ⟨rfl, rfl, rfl, rfl⟩
  | @drop side c o rest e hleaf hout =>
    refine Tracked.hit (r := ⟨e.owner, e.ownerSlot, e.orderId, true⟩) 0 hs hkeyed hleaf (Or.inl rfl)
      rfl hout.orderId rfl ?_ rfl rfl
    rw [zero_add]
    rfl
  | post _ hkey _ _ hoo hmarket =>
    exact hs.posted hkeyed hfree hfew hkey hoo hmarket ⟨rfl, rfl, rfl⟩ rfl rfl rfl rfl
  | @cancel a slot oo o rest l hoo hm _ hleaf hid howner hslot hl =>
    have hkeys := keys_of_cons hleaf
    refine hs.shrink hkeyed (Nat.le_refl _) ?_ ?_ (fun _ he => Or.inl he)
      (.cleared hfree hoo rfl) ?_
    · show (s.withLeaves oo.sideAndTree.side rest).keys ≤ s.keys
      rw [hkeys]
      exact le_cons_self _ _
    · exact forall_leaves_update (P := fun side y => ∃ x ∈ s.leaves side, SameLeaf x y)
        (fun side x hx => ⟨x, hx, rfl, rfl, rfl, rfl⟩)
        fun x hx => ⟨x, hleaf ▸ mem_cons_of_mem hx, rfl, rfl, rfl, rfl⟩
    · -- the id of the slot is that of the order that has been removed
      rintro side x hx oo' hid' - ⟨-, -, rfl⟩
      have hnodup := hs.nodup
      rw [hkeys, nodup_cons] at hnodup
      apply hnodup.1
      show o.key ∈ _
      rw [hid, hid']
      exact mem_keys (s := s.withLeaves oo'.sideAndTree.side rest) hx
  | @forget a slot oo hoo hm _ hgone =>
    refine hs.shrink hkeyed (Nat.le_refl _) (le_refl _)
      (fun side x hx => ⟨x, hx, rfl, rfl, rfl, rfl⟩) (fun _ he => Or.inl he)
      (.cleared hfree hoo rfl) ?_
    rintro side x hx oo' hid hst ⟨-, -, rfl⟩
    rw [hst] at hgone
    have hside : (SideAndOrderTree.new side x.1).side = side := by cases side <;> cases x.1 <;> rfl
    have htree : (SideAndOrderTree.new side x.1).orderTree = x.1 := by
      cases side <;> cases x.1 <;> rfl
    rw [hside, htree] at hgone
    exact hgone x.2 hx hid.symm
  | @settleFill f es lm lt orders hevents hm ht hslots =>
    exact hs.settled (r := ⟨f.maker, f.makerSlot, f.makerOrderId, f.makerOut⟩) hkeyed hfew hfree
      hevents rfl hslots rfl rfl rfl rfl
  | @settleOut e es l orders hevents hl hslots =>
    exact hs.settled (r := ⟨e.owner, e.ownerSlot, e.orderId, true⟩) hkeyed hfew hfree
      hevents rfl hslots rfl rfl rfl rfl
  | skip hevents =>
    exact hs.quiet hkeyed (Nat.le_refl _) rfl (fun _ he => hevents ▸ List.mem_cons_of_mem _ he)
      fun _ _ _ => Iff.rfl
  | transfer _ _ _ _ => exact hs.quiet hkeyed (Nat.le_refl _) rfl (fun _ he => he) fun _ _ _ => Iff.rfl
  | opened _ => exact hs.quiet hkeyed (Nat.le_refl _) rfl (fun _ he => he) fun _ _ _ => Iff.rfl
  | closed _ _ => exact hs.quiet hkeyed (Nat.le_refl _) rfl (fun _ he => he) fun _ _ _ => Iff.rfl
  | elsewhere hsame =>
    exact hs.quiet hkeyed (Nat.le_refl _) rfl (fun _ he => he) fun a i oo =>
      and_congr_left fun hm => hsame hfree a i oo hm

/-- As long as ids are new, orders stay tracked. -/
theorem Step.keyed_tracked (h : Step m K s s') (hfree : m ≠ FREE_ORDER_SLOT)
    (hs : s.Keyed ∧ (s.seqNum < 2 ^ 63 → s.Tracked m)) :
    s'.Keyed ∧ (s'.seqNum < 2 ^ 63 → s'.Tracked m) :=
  ⟨h.keyed hs.1, fun hfew =>
    h.tracked hfree hs.1 hfew (hs.2 (Nat.lt_of_le_of_lt h.seqNum_le hfew))⟩

/-- A slot in use either was so for the same order, or has the id of an order
    that was posted right now. -/
theorem Step.slots_old (h : Step m K s s') (hfree : m ≠ FREE_ORDER_SLOT) {a : Pubkey} {i : Nat}
    {oo' : PerpOpenOrder} (ho : Active m s' a i oo') :
    (∃ oo, Active m s a i oo ∧ SameOrder oo oo') ∨ (s'.seqNum = s.seqNum + 1 ∧
      ∃ side priceData, oo'.id = newNodeKey side priceData (BitVec.ofNat 64 (s.seqNum + 1))) := by
  cases h with
  | post _ hkey _ _ hoo _ =>
    rcases (active_set hoo rfl a i oo').mp ho with ⟨-, -, rfl, -⟩ | ⟨-, ho⟩
    · exact Or.inr ⟨rfl, _, _, hkey⟩
    · exact Or.inl ⟨oo', ho, rfl, rfl⟩
  | cancel hoo _ _ _ _ _ _ _ => exact Or.inl ((SlotsKept.cleared hfree hoo rfl).old a i oo' ho)
  | forget hoo _ _ _ => exact Or.inl ((SlotsKept.cleared hfree hoo rfl).old a i oo' ho)
  | settleFill _ _ _ hslots => exact Or.inl ((SlotsKept.updated hfree hslots rfl).old a i oo' ho)
  | settleOut _ _ hslots => exact Or.inl ((SlotsKept.updated hfree hslots rfl).old a i oo' ho)
  | elsewhere hsame => exact Or.inl ⟨oo', ⟨(hsame hfree a i oo' ho.2).mp ho.1, ho.2⟩, rfl, rfl⟩
  | count _ => exact Or.inl ⟨oo', ho, rfl, rfl⟩
  | fill _ _ _ => exact Or.inl ⟨oo', ho, rfl, rfl⟩
  | drop _ _ => exact Or.inl ⟨oo', ho, rfl, rfl⟩
  | skip _ => exact Or.inl ⟨oo', ho, rfl, rfl⟩
  | transfer _ _ _ _ => exact Or.inl ⟨oo', ho, rfl, rfl⟩
  | opened _ => exact Or.inl ⟨oo', ho, rfl, rfl⟩
  | closed _ _ => exact Or.inl ⟨oo', ho, rfl, rfl⟩

/-- The id `k` is taken, and every slot that has it is one of `P`. -/
def OnlyAt (m : PerpMarketIndex) (k : Key) (P : Pubkey → Nat → SideAndOrderTree → Prop)
    (s : Clearing) : Prop :=
  (∃ side, KeyedUpTo s.seqNum side k) ∧ (s.seqNum < 2 ^ 63 →
    ∀ a i oo, Active m s a i oo → oo.id = k → P a i oo.sideAndTree)

/-- An id that is taken does not get into another slot. -/
theorem Step.onlyAt (h : Step m K s s') (hfree : m ≠ FREE_ORDER_SLOT) {k : Key}
    {P : Pubkey → Nat → SideAndOrderTree → Prop} (hs : OnlyAt m k P s) : OnlyAt m k P s' := by
  obtain ⟨⟨side, hissued⟩, hP⟩ := hs
  refine ⟨⟨side, hissued.mono h.seqNum_le⟩, fun hfew a i oo' ho hid => ?_⟩
  rcases h.slots_old hfree ho with ⟨oo, ho, hid', hst⟩ | ⟨hseq, side', priceData, hnew⟩
  · rw [hst]
    exact hP (Nat.lt_of_le_of_lt h.seqNum_le hfew) a i oo ho (hid'.symm.trans hid)
  · exact absurd (hid.symm.trans hnew) (hissued.ne_next_of_lt (hseq ▸ hfew) side' priceData)

end Tracked

end Clearing

/-! ## Runs -/

namespace Exchange

/-- An open-order slot of an account. -/
def slotOf (s : Exchange) (a : Pubkey) (i : Nat) : Option PerpOpenOrder :=
  (s.accounts a).bind fun account => account.perpOpenOrders[i]?

/-- The number of orders a market has seen. -/
def seqNumOf (s : Exchange) (m : PerpMarketIndex) : Nat :=
  (s.markets m).elim 0 fun market => market.perpMarket.seqNum

/-- All resting orders of a market, with their side. -/
def restingOf (s : Exchange) (m : PerpMarketIndex) : Multiset (Side × BookSideOrderTree × LeafNode) :=
  (s.bookOf m).bids.leaves.map (Prod.mk .bid) + (s.bookOf m).asks.leaves.map (Prod.mk .ask)

variable {s : Exchange} {m : PerpMarketIndex}

theorem active_clearing {a : Pubkey} {i : Nat} {oo : PerpOpenOrder} :
    Active m (s.clearing m) a i oo ↔ s.slotOf a i = some oo ∧ oo.market = m := by
  show ((s.accounts a).elim [] perpOpenOrders)[i]? = some oo ∧ _ ↔ _
  rw [slotOf]
  cases s.accounts a with
  | none => simp
  | some account => exact Iff.rfl

theorem mem_restingOf {side : Side} {x : BookSideOrderTree × LeafNode} :
    (side, x) ∈ s.restingOf m ↔ x ∈ (s.clearing m).leaves side := by
  rw [clearing_leaves, restingOf, mem_add, mem_map, mem_map]
  cases side with
  | bid => simp [bookside]
  | ask => simp [bookside]

theorem Fresh.tracked (h : s.Fresh) (hfree : m ≠ FREE_ORDER_SLOT) : (s.clearing m).Tracked m := by
  have hactive : ∀ a i oo, ¬ Active m (s.clearing m) a i oo := by
    intro a i oo ho
    obtain ⟨hoo, hm⟩ := active_clearing.mp ho
    obtain ⟨account, ha, hoo⟩ := Option.bind_eq_some_iff.mp hoo
    exact hfree (hm.symm.trans (h.slots a account ha oo (List.mem_of_getElem? hoo)))
  refine ⟨?_, ?_, ?_, fun a i oo ho => absurd ho (hactive a i oo),
    fun a i oo _ _ _ ho => absurd ho (hactive a i oo), ?_⟩
  · rw [Clearing.keys, h.leaves, h.leaves]
    exact nodup_zero
  · rw [h.events]
    exact fun e he => absurd he List.not_mem_nil
  · rw [h.events]
    exact fun e he => absurd he List.not_mem_nil
  · intro side x hx
    rw [h.leaves] at hx
    exact absurd hx (notMem_zero x)

/-- Orders of an ordinary market are tracked after every run. -/
theorem run_tracked (hs : s.Fresh) (calls : List Call) (hfree : m ≠ FREE_ORDER_SLOT) :
    (run exec s calls).Sound ∧
      ((run exec s calls).seqNumOf m < 2 ^ 63 → ((run exec s calls).clearing m).Tracked m) := by
  have hkeep := run_keeps (m := m)
    (J := fun c => c.Keyed ∧ (c.seqNum < 2 ^ 63 → c.Tracked m))
    (fun _ _ hc hstep => hstep.keyed_tracked hfree hc)
    hs.sound ⟨hs.sound.keyed m, fun _ => hs.tracked hfree⟩
    calls fun _ _ => Or.inr (Or.inl hfree)
  exact ⟨hkeep.1, hkeep.2.2⟩

/-- The number of orders never decreases. -/
theorem seqNumOf_le (hs : s.Sound) (calls : List Call) (hfree : m ≠ FREE_ORDER_SLOT) :
    s.seqNumOf m ≤ (run exec s calls).seqNumOf m :=
  (run_keeps (m := m) (J := fun c => s.seqNumOf m ≤ c.seqNum)
    (fun _ _ hc hstep => Nat.le_trans hc hstep.seqNum_le) hs (Nat.le_refl _)
    calls fun _ _ => Or.inr (Or.inl hfree)).2

end Exchange

/-! ## The checks of a cancel -/

/-- Removing an order can only overflow. -/
theorem BookSide.faults_removeByKey {F : Fault MangoError → Prop} (hF : F (.panic .overflow))
    {b : BookSide} (hwf : b.WellFormed) (c : BookSideOrderTree) (k : Key) :
    Faults F (b.removeByKey c k) := by
  obtain ⟨tree, free, hl⟩ := hwf
  have hout := removeByKey_outcome hl c k
  intro e he
  rw [he] at hout
  cases hout
  exact hF

/-- What a cancel can fail with when the slot it is for is the only one with its id. -/
theorem Orderbook.raises_cancelOrderBySlot {market : Market} {accounts : Accounts}
    {m : PerpMarketIndex} {account : MangoAccount} {pk : Pubkey} (hwf : market.book.WellFormed)
    (hpk : accounts pk = some account) (hs : (Exchange.clearingOf m market accounts).Tracked m)
    (slot : Nat) :
    Raises (fun e => e ≠ .requireEqViolated ∧ e ≠ .requireKeysEqViolated)
      (market.book.cancelOrderBySlot account pk slot m) := by
  refine Faults.raises (F := fun f => f ≠ .error .requireEqViolated ∧
    f ≠ .error .requireKeysEqViolated) ?_ (by simp)
  refine .bind_of (account.faults_perpOrderByRawIndex slot (by decide)) fun oo hoo => ?_
  refine .bind_of (Faults.require_iff.mpr fun _ => by decide) fun _ hactive => ?_
  have hslots := Exchange.slots_of_account m market hpk
  have ho : Active m (Exchange.clearingOf m market accounts) pk slot oo := by
    refine ⟨?_, of_require hactive⟩
    rw [hslots]
    exact perpOrderByRawIndex_eq_ok.mp hoo
  refine .bind_of (BookSide.faults_removeByKey (by decide) (hwf oo.sideAndTree.side).1 _ _)
    fun r hremove => ?_
  obtain ⟨leaf, b⟩ := r
  refine .bind ?_ fun quantity => .bind (account.faults_removePerpOrder ⟨by decide, by decide,
    by decide⟩ slot quantity (by decide) (by decide) (by decide)) fun _ => .ok _
  cases leaf with
  | none => exact .ite (fun _ => Faults.fail_iff.mpr (by decide)) fun _ => .ok _
  | some leaf =>
    -- the leaf that was removed is the order of this slot
    have hown : leaf.owner = pk ∧ leaf.ownerSlot = slot := by
      rcases BookSide.removeByKey_spec (hwf oo.sideAndTree.side).1 hremove with
        ⟨hnone, -, -⟩ | ⟨o, rest, hsome, hkey, hleaf, -⟩
      · cases hnone
      · obtain rfl := Option.some.inj hsome
        obtain ⟨oo', ho', hid, -⟩ := hs.held oo.sideAndTree.side
          (oo.sideAndTree.orderTree, leaf)
          (Eq.subst (motive := fun ls => _ ∈ ls) hleaf.symm (mem_cons_self _ _))
        exact hs.unique _ _ _ _ _ _ ho' ho (hid.trans hkey)
    refine .bind (Faults.require_iff.mpr fun h => ?_) fun _ =>
      .bind (Faults.require_iff.mpr fun h => ?_) fun _ => .ok _
    · exact absurd hown.2 (of_decide_eq_false h)
    · exact absurd hown.1 (of_decide_eq_false h)

/-! ## What an event does to slots -/

/-- An account processes its part of an event of market `m`, as maker or owner. -/
def AnyEvent.Releases (m : PerpMarketIndex) (account account' : MangoAccount) : AnyEvent → Prop
  | .fill f => ∃ market market' nowTs interval, market.perpMarketIndex = m ∧
      account.executePerpMaker market f nowTs interval = .ok (account', market')
  | .out o => account.executePerpOutEvent m o.side o.ownerSlot o.quantity o.orderId = .ok account'
  | .liquidate => False

theorem AnyEvent.Releases.slotUpdate {m : PerpMarketIndex} {account account' : MangoAccount}
    {e : AnyEvent} (h : e.Releases m account account') {r : OrderRef} (hr : e.ref = some r) :
    SlotUpdate m r.slot r.id r.out account.perpOpenOrders account'.perpOpenOrders := by
  cases e with
  | fill f =>
    obtain rfl := Option.some.inj hr
    obtain ⟨market, market', nowTs, interval, rfl, h⟩ := h
    exact (executePerpMaker_spec h).2.1
  | out o =>
    obtain rfl := Option.some.inj hr
    exact (executePerpOutEvent_spec h).2.1
  | liquidate => cases hr

/-- An event with an order id changes only the slot that has this id. -/
theorem MangoAccount.SlotUpdate.changed {m : PerpMarketIndex} {slot : Nat} {id : Key} {out : Bool}
    {orders orders' : List PerpOpenOrder} (h : SlotUpdate m slot id out orders orders')
    (hid : id ≠ 0) {i : Nat} {oo : PerpOpenOrder} (hoo : orders[i]? = some oo)
    (hne : orders'[i]? ≠ some oo) : i = slot ∧ oo.market = m ∧ oo.id = id := by
  have hset : ∀ {old new}, orders[slot]? = some old → old.market = m → (id = 0 ∨ old.id = id) →
      (orders.set slot new)[i]? ≠ some oo → i = slot ∧ oo.market = m ∧ oo.id = id := by
    intro old new hold hm hmatch hne
    by_cases hi : i = slot
    · subst hi
      obtain rfl := Option.some.inj (hold.symm.trans hoo)
      exact ⟨rfl, hm, hmatch.resolve_left hid⟩
    · rw [List.getElem?_set_ne (Ne.symm hi)] at hne
      exact absurd hoo hne
  cases h with
  | kept _ _ => exact absurd hoo hne
  | cleared _ hold hm hmatch => exact hset hold hm hmatch hne
  | reduced _ hold hm hmatch => exact hset hold hm hmatch hne

namespace Exchange

variable {s : Exchange}

/-- Resting orders of a tracked market are in different slots. -/
theorem nodup_slots {m : PerpMarketIndex} (h : (s.clearing m).Tracked m) :
    ((s.restingOf m).map fun x => (x.2.2.owner, x.2.2.ownerSlot)).Nodup := by
  have hkeys : ((s.restingOf m).map fun x => x.2.2.key).Nodup := by
    have hnodup := h.nodup
    rw [Clearing.keys, clearing_leaves, clearing_leaves, Multiset.map_add] at hnodup
    rw [restingOf, Multiset.map_add, Multiset.map_map, Multiset.map_map]
    exact hnodup
  refine Multiset.Nodup.map_on (fun x hx y hy hslot => ?_) hkeys.of_map
  obtain ⟨sx, x⟩ := x
  obtain ⟨sy, y⟩ := y
  obtain ⟨oo, ho, hid, -⟩ := h.held sx x (mem_restingOf.mp hx)
  obtain ⟨oo', ho', hid', -⟩ := h.held sy y (mem_restingOf.mp hy)
  obtain ⟨howner, hnum⟩ := Prod.mk.inj hslot
  rw [howner, hnum] at ho
  obtain rfl := Option.some.inj (ho.1.symm.trans ho'.1)
  exact Multiset.inj_on_of_nodup_map hkeys _ hx _ hy (hid.symm.trans hid')

/-- After every run in which no market has seen `2 ^ 63` orders, for all
    markets but the one whose index marks free slots:
    the slot of a resting order is in use for it and names its tree;
    no two resting orders share a slot;
    a cancel never finds the leaf of another slot;
    and an event changes only a slot with its order id, which after any
    further calls is in no slot that did not have this order already. -/
theorem openOrders_tracked (hs : s.Fresh) (calls later : List Call)
    (hfew : ∀ m, (run exec (run exec s calls) later).seqNumOf m < 2 ^ 63) :
    let s₁ := run exec s calls
    let s₂ := run exec s₁ later
    ∀ m, m ≠ FREE_ORDER_SLOT →
      (∀ side x, (side, x) ∈ s₁.restingOf m → ∃ oo, s₁.slotOf x.2.owner x.2.ownerSlot = some oo ∧
        oo.market = m ∧ oo.id = x.2.key ∧ oo.sideAndTree = .new side x.1) ∧
      ((s₁.restingOf m).map fun x => (x.2.2.owner, x.2.2.ownerSlot)).Nodup ∧
      (∀ m', m' ≠ FREE_ORDER_SLOT → m' ≠ m → ∀ x ∈ s₁.restingOf m, ∀ y ∈ s₁.restingOf m',
        (x.2.2.owner, x.2.2.ownerSlot) ≠ (y.2.2.owner, y.2.2.ownerSlot)) ∧
      (∀ market account pk slot, s₁.markets m = some market → s₁.accounts pk = some account →
        Raises (fun e => e ≠ .requireEqViolated ∧ e ≠ .requireKeysEqViolated)
          (market.book.cancelOrderBySlot account pk slot m)) ∧
      (∀ e ∈ s₁.eventsOf m, ∀ r ∈ e.ref,
        (∀ account account', e.Releases m account account' → ∀ i oo,
          account.perpOpenOrders[i]? = some oo → account'.perpOpenOrders[i]? ≠ some oo →
          i = r.slot ∧ oo.market = m ∧ oo.id = r.id) ∧
        (∀ a i oo, s₂.slotOf a i = some oo → oo.market = m → oo.id = r.id →
          ∃ oo₁, s₁.slotOf a i = some oo₁ ∧ oo₁.market = m ∧ oo₁.id = r.id ∧
            oo₁.sideAndTree = oo.sideAndTree)) := by
  intro s₁ s₂ m hfree
  have hsound : s₁.Sound := (run_tracked hs calls hfree).1
  have hfew₁ : ∀ m, m ≠ FREE_ORDER_SLOT → s₁.seqNumOf m < 2 ^ 63 := fun m hfree =>
    Nat.lt_of_le_of_lt (seqNumOf_le hsound later hfree) (hfew m)
  have htracked : ∀ m, m ≠ FREE_ORDER_SLOT → (s₁.clearing m).Tracked m := fun m hfree =>
    (run_tracked hs calls hfree).2 (hfew₁ m hfree)
  have ht := htracked m hfree
  have hheld : ∀ m, m ≠ FREE_ORDER_SLOT → ∀ side x, (side, x) ∈ s₁.restingOf m →
      ∃ oo, s₁.slotOf x.2.owner x.2.ownerSlot = some oo ∧ oo.market = m ∧ oo.id = x.2.key ∧
        oo.sideAndTree = .new side x.1 := by
    intro m hfree side x hx
    obtain ⟨oo, ho, hid, hst⟩ := (htracked m hfree).held side x (mem_restingOf.mp hx)
    obtain ⟨hslot, hm⟩ := active_clearing.mp ho
    exact ⟨oo, hslot, hm, hid, hst⟩
  refine ⟨hheld m hfree, nodup_slots ht, ?_, ?_, fun e he r hr => ?_⟩
  · rintro m' hfree' hne ⟨sx, x⟩ hx ⟨sy, y⟩ hy hslot
    obtain ⟨oo, hoo, hm, -⟩ := hheld m hfree sx x hx
    obtain ⟨oo', hoo', hm', -⟩ := hheld m' hfree' sy y hy
    obtain ⟨howner, hnum⟩ := Prod.mk.inj hslot
    rw [howner, hnum] at hoo
    obtain rfl := Option.some.inj (hoo.symm.trans hoo')
    exact hne (hm'.symm.trans hm)
  · intro market account pk slot hmarket hpk
    have hclearing := clearing_of_market hmarket
    exact raises_cancelOrderBySlot (hsound.book m market hmarket) hpk (hclearing ▸ ht) slot
  · obtain ⟨side, hissued⟩ := ht.events e he r hr
    refine ⟨fun account account' h i oo hoo hne => ?_, fun a i oo hoo hm hid => ?_⟩
    · exact (h.slotUpdate hr).changed (hissued.ne_zero (hfew₁ m hfree)) hoo hne
    · -- the id is taken, so no order that is posted later gets it
      have honly := run_keeps (m := m)
        (J := OnlyAt m r.id fun a i st =>
          ∃ oo₁, s₁.slotOf a i = some oo₁ ∧ oo₁.market = m ∧ oo₁.id = r.id ∧ oo₁.sideAndTree = st)
        (fun _ _ hc hstep => hstep.onlyAt hfree hc) hsound
        ⟨⟨side, hissued⟩, fun _ a i oo ho hid => by
          obtain ⟨hslot, hm⟩ := active_clearing.mp ho
          exact ⟨oo, hslot, hm, hid, rfl⟩⟩
        later fun _ _ => Or.inr (Or.inl hfree)
      exact honly.2.2 (hfew m) a i oo (active_clearing.mpr ⟨hoo, hm⟩) hid

/-- No market is created in a run. -/
theorem markets_run_of_none {m : PerpMarketIndex} (h : s.markets m = none) (calls : List Call) :
    (run exec s calls).markets m = none := by
  refine run_preserves (P := fun t : Exchange => t.markets m = none)
    (fun call t r t' ht hexec => ?_) calls h
  obtain ⟨market, market', accounts', hmarket, -, rfl⟩ := exec_ok hexec
  have hne : m ≠ call.market := by
    rintro rfl
    rw [ht] at hmarket
    cases hmarket
  rw [markets_store_of_ne hne]
  exact ht

/-- An ask that is partly filled, cancelled and replaced by another one in the
    same slot, while its fill event is on the queue. -/
def slotReused : List Call :=
  [⟨0, .limitAt20 1 .ask 4⟩,
    ⟨0, .limitAt20 2 .bid 2⟩,
    ⟨0, .cancelOrderBySlot 1 0⟩,
    ⟨0, .limitAt20 1 .ask 3⟩]

theorem slotReused_tracked :
    (((run exec (twoTraders 0) slotReused).restingOf 0).map
      fun x => (x.2.2.owner, x.2.2.ownerSlot)).Nodup :=
  (openOrders_tracked (twoTraders_fresh 0) slotReused [⟨0, .perpConsumeEvents [1, 2] 8 0 0⟩]
    (by
      intro m
      by_cases hm : m = 0
      · subst hm
        decide +kernel
      · have hnone : (twoTraders 0).markets m = none := by
          simp only [twoTraders, update_of_ne hm]
        rw [seqNumOf, markets_run_of_none (markets_run_of_none hnone _)]
        decide)
    0 (by decide)).2.1

/-- Two asks of one account. -/
def twoAsks : List Call :=
  [⟨FREE_ORDER_SLOT, .limitAt20 1 .ask 1⟩, ⟨FREE_ORDER_SLOT, .limitAt20 1 .ask 1⟩]

/-- In the market whose index marks free slots, every slot looks free. -/
theorem twoAsks_share_slot :
    (twoTraders FREE_ORDER_SLOT).Fresh ∧
    ¬ (((run exec (twoTraders FREE_ORDER_SLOT) twoAsks).restingOf FREE_ORDER_SLOT).map
      fun x => (x.2.2.owner, x.2.2.ownerSlot)).Nodup :=
  ⟨twoTraders_fresh _, by decide +kernel⟩

end Exchange

end MangoV4
