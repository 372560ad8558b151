/-
  MangoV4.Orderbook.Expiry

  The earliest expiries recorded in a book side, over whole runs.

  Every operation keeps both trees dated, so after any run each inner node has
  the minimal expiry of the orders below each of its children, the walk of
  `find_earliest_expiry` ends at an order that expires first, and
  `remove_one_expired` finds an expired order whenever there is one in either
  tree.  The exception is an order whose expiry exceeds 64 bits: inserting into
  an empty tree does not compute the expiry, so such an order can be alone in
  its tree, where the walk panics on it.
-/

import MangoV4.Orderbook.BookSideRun

namespace MangoV4

open Lib Lib.Exec Lib.CritBit List NodeTree OrderTreeNodes

namespace BookSide

variable {b b' : BookSide}

/-! ## Every operation keeps the trees dated -/

/-- The array holds two trees whose inner nodes record the right expiries. -/
def Dated (b : BookSide) : Prop :=
  ∃ tree free, Layout b tree free ∧ ∀ c, OptDated (tree c)

theorem dated_zeroed (orderTreeType : OrderTreeType) : (zeroed orderTreeType).Dated :=
  ⟨_, _, zeroed_layout orderTreeType, fun _ => trivial⟩

variable {tree : BookSideOrderTree → Option NodeTree} {c : BookSideOrderTree}
  {nodes : NodeHandle → AnyNode}

theorem exec_dated {op : Op} {r : Reply} (h : b.Dated) (hexec : exec op b = .ok (r, b')) :
    b'.Dated := by
  obtain ⟨tree, free, hlayout, hdated⟩ := h
  obtain ⟨tree', free', hlayout', hdated'⟩ := (exec_returned hlayout hexec).layout
  exact ⟨tree', free', hlayout', hdated' hdated⟩

theorem run_dated (orderTreeType : OrderTreeType) (ops : List Op) :
    (run exec (zeroed orderTreeType) ops).Dated :=
  run_preserves (P := Dated) (fun _ _ _ _ h hexec => exec_dated h hexec) ops
    (dated_zeroed orderTreeType)

/-! ## What the array records -/

/-- `n` is an inner node that can be reached from the node at `h`. -/
inductive InnerBelow (nodes : NodeHandle → AnyNode) : NodeHandle → InnerNode → Prop
  | here {h : NodeHandle} {n : InnerNode} (hslot : nodes h = .inner n) : InnerBelow nodes h n
  | child {h : NodeHandle} {m n : InnerNode} (hslot : nodes h = .inner m) (bit : Bool)
      (hbelow : InnerBelow nodes (m.children.get bit) n) : InnerBelow nodes h n

/-- The expiries of the orders below a node. -/
def expiriesBelow (nodes : NodeHandle → AnyNode) (h : NodeHandle) : Set Nat :=
  {e | ∃ o, LeafBelow nodes h o ∧ o.expiry = .ok e}

/-- Each inner node of the two trees records the earliest expiry of the orders
    below each of its children, all of which have one. -/
def ExpiriesRecorded (b : BookSide) : Prop :=
  ∀ c root n, (b.roots c).node = some root → InnerBelow b.nodes.nodes root n → ∀ bit,
    (∀ o, LeafBelow b.nodes.nodes (n.children.get bit) o → o.ExpiryFits) ∧
    IsLeast (expiriesBelow b.nodes.nodes (n.children.get bit)) (n.childEarliestExpiry.get bit)

theorem isLeast_expiriesBelow {s : NodeTree}
    (hheld : Held nodes s) (hfit : ExpiriesFit s) :
    IsLeast (expiriesBelow nodes (root s)) (minExpiry s) := by
  have hset : expiriesBelow nodes (root s) =
      {e | ∃ o ∈ orders s, o.expiry = .ok e} := by
    ext e
    exact exists_congr fun o => and_congr_left fun _ => leafBelow_iff hheld o
  rw [hset]
  exact isLeast_minExpiry hfit

/-- The record of an inner node, read off the array. -/
theorem recorded_of_dated {s : NodeTree}
    (hheld : NodeTree.Held nodes s) (hdated : NodeTree.Dated s) {n : InnerNode}
    (hbelow : InnerBelow nodes (NodeTree.root s) n) (bit : Bool) :
    (∀ o, LeafBelow nodes (n.children.get bit) o → o.ExpiryFits) ∧
    IsLeast (expiriesBelow nodes (n.children.get bit)) (n.childEarliestExpiry.get bit) := by
  induction s with
  | leaf x =>
    have hslot : nodes x.1 = .leaf x.2 := hheld
    cases hbelow with
    | here hs => exact absurd (hslot.symm.trans hs) (by simp)
    | child hs _ _ => exact absurd (hslot.symm.trans hs) (by simp)
  | inner i l r ihl ihr =>
    obtain ⟨hslot, hch, hl, hr⟩ := hheld
    obtain ⟨⟨hpair, hfitl, hfitr⟩, hdl, hdr⟩ := hdated
    cases hbelow with
    | here hs =>
      obtain rfl : i.2 = n := AnyNode.inner.inj (hslot.symm.trans hs)
      rw [hch, hpair]
      cases bit with
      | false =>
        exact ⟨fun o ho => hfitl o ((leafBelow_iff hl o).mp ho), isLeast_expiriesBelow hl hfitl⟩
      | true =>
        exact ⟨fun o ho => hfitr o ((leafBelow_iff hr o).mp ho), isLeast_expiriesBelow hr hfitr⟩
    | child hs side hb =>
      obtain rfl := AnyNode.inner.inj (hslot.symm.trans hs)
      rw [hch] at hb
      cases side with
      | false => exact ihl hl hdl hb
      | true => exact ihr hr hdr hb

theorem Dated.recorded (h : b.Dated) : b.ExpiriesRecorded := by
  obtain ⟨tree, free, hlayout, hdated⟩ := h
  intro c root n hroot hbelow bit
  have hheld := hlayout.held c
  have hd := hdated c
  cases hs : tree c with
  | none =>
    rw [hs] at hheld
    rw [hheld.node_none] at hroot
    cases hroot
  | some s =>
    rw [hs] at hheld hd
    rw [hheld.node_some] at hroot
    obtain rfl := Option.some.inj hroot
    exact recorded_of_dated hheld.2.2.1 hd hbelow bit

/-! ## Finding and removing what expires first -/

/-- The tree is a single order, and its expiry exceeds 64 bits. -/
def SingleUnfit (b : BookSide) (c : BookSideOrderTree) : Prop :=
  ∃ root o, (b.roots c).node = some root ∧ b.nodes.nodes root = .leaf o ∧ ¬ o.ExpiryFits

/-- `find_earliest_expiry` on an empty tree, on a single order without an
    expiry and on every other tree. -/
inductive FoundEarliest (b : BookSide) (c : BookSideOrderTree) :
    Exec (Option (NodeHandle × Nat)) → Prop
  | empty (hempty : ∀ o, ¬ IsLeafOf b c o) : FoundEarliest b c (.ok none)
  | overflow (hsingle : SingleUnfit b c) : FoundEarliest b c (panic .overflow)
  | found {h : NodeHandle} {o : LeafNode} {e : Nat} (hslot : b.nodes.nodes h = .leaf o)
      (hleaf : IsLeafOf b c o) (he : o.expiry = .ok e)
      (hleast : IsLeast {e | ∃ o, IsLeafOf b c o ∧ o.expiry = .ok e} e) :
      FoundEarliest b c (.ok (some (h, e)))

theorem singleUnfit_of_mem {free : List NodeHandle}
    (hlayout : Layout b tree free) (hdated : ∀ c, OptDated (tree c))
    {o : LeafNode} (ho : o ∈ optOrders (tree c)) (hbad : ¬ o.ExpiryFits) : SingleUnfit b c := by
  have hheld := hlayout.held c
  have hd := hdated c
  cases hs : tree c with
  | none =>
    rw [hs] at ho
    exact absurd ho not_mem_nil
  | some s =>
    rw [hs] at hheld hd ho
    obtain ⟨x, rfl, rfl⟩ := Dated.eq_leaf hd ho hbad
    exact ⟨x.1, x.2, hheld.node_some, hheld.2.2.1, hbad⟩

theorem Dated.findEarliestExpiry (h : b.Dated) (c : BookSideOrderTree) :
    FoundEarliest b c (b.nodes.findEarliestExpiry (b.roots c)) := by
  obtain ⟨tree, free, hlayout, hdated⟩ := h
  have hleaves := isLeafOf_iff hlayout c
  have hheld := hlayout.held c
  have harena := hlayout.arena_of c
  have hd := hdated c
  have hsingle := fun o => singleUnfit_of_mem hlayout hdated (c := c) (o := o)
  cases hs : tree c with
  | none =>
    rw [hs] at hheld hleaves
    rw [OrderTreeNodes.findEarliestExpiry, hheld.node_none]
    exact .empty fun o ho => absurd ((hleaves o).mp ho) not_mem_nil
  | some s =>
    rw [hs] at hheld harena hd hleaves hsingle
    rw [findEarliestExpiry_eq harena hheld]
    have hmem := expiryLeaf_mem s
    have horder : (expiryLeaf s).2 ∈ orders s := mem_map_of_mem hmem
    rcases expiry_cases (expiryLeaf s).2 with ⟨e, he⟩ | ⟨he, hbad⟩
    swap
    · rw [he]
      exact .overflow (hsingle _ horder hbad)
    rw [he, ok_bind]
    refine .found (hheld.2.2.1.leaf hmem).1 ((hleaves _).mpr horder) he
      ⟨⟨_, (hleaves _).mpr horder, he⟩, ?_⟩
    rintro e' ⟨o, ho, he'⟩
    obtain ⟨-, rfl⟩ := expiry_eq_ok_iff.mp he
    obtain ⟨-, rfl⟩ := expiry_eq_ok_iff.mp he'
    rw [expiryLeaf_expiresAt hd]
    exact minExpiry_le ((hleaves o).mp ho)

/-- `remove_one_expired` at `nowTs`: it panics on a single order without an
    expiry, it keeps the book side if no order has expired, and it removes an
    expired order. -/
inductive Expired (b : BookSide) (nowTs : Nat) : Exec (Option LeafNode × BookSide) → Prop
  | overflow (hsingle : ∃ c, SingleUnfit b c) : Expired b nowTs (panic .overflow)
  | kept (hnone : ∀ c o e, IsLeafOf b c o → o.expiry = .ok e → nowTs ≤ e) :
      Expired b nowTs (.ok (none, b))
  | removed {c : BookSideOrderTree} {o : LeafNode} {b' : BookSide} {e : Nat}
      (hleaf : IsLeafOf b c o) (he : o.expiry = .ok e) (hlt : e < nowTs)
      (hgone : ∀ c' o', IsLeafOf b' c' o' ↔ IsLeafOf b c' o' ∧ (c', o') ≠ (c, o)) :
      Expired b nowTs (.ok (some o, b'))

theorem Dated.removeOneExpired (h : b.Dated) (c : BookSideOrderTree) (nowTs : Nat) :
    Expired b nowTs (b.removeOneExpired c nowTs) := by
  obtain ⟨tree, free, hlayout, hdated⟩ := h
  have hout := removeOneExpired_outcome hlayout c nowTs
  generalize b.removeOneExpired c nowTs = r at hout
  cases hout with
  | overflow hbad =>
    obtain ⟨c', o, ho, hbad⟩ := hbad
    exact .overflow ⟨c', singleUnfit_of_mem hlayout hdated ho hbad⟩
  | kept hnone =>
    refine .kept fun c' o e ho he => ?_
    obtain ⟨-, rfl⟩ := expiry_eq_ok_iff.mp he
    exact hnone c' (hdated c') o ((isLeafOf_iff hlayout c' o).mp ho)
  | @removed c' o b' s' _ hlayout' _ hperm hexpired _ =>
    obtain ⟨e, hlt, he⟩ := hexpired
    have hmem : o ∈ optOrders (tree c') := hperm.mem_iff.mpr (mem_cons_self ..)
    refine .removed ((isLeafOf_iff hlayout c' o).mpr hmem) he hlt fun c₁ o₁ => ?_
    rw [isLeafOf_iff hlayout', isLeafOf_iff hlayout]
    by_cases hc : c₁ = c'
    · subst hc
      have hnodup := hperm.nodup_iff.mp (hlayout.held c₁).keys_nodup.of_map
      rw [Function.update_self, hperm.mem_iff, mem_cons]
      constructor
      · intro ho₁
        refine ⟨Or.inr ho₁, fun heq => ?_⟩
        obtain rfl : o₁ = o := congrArg Prod.snd heq
        exact (nodup_cons.mp hnodup).1 ho₁
      · rintro ⟨ho₁, hne⟩
        exact ho₁.resolve_left fun heq => hne (by rw [heq])
    · rw [Function.update_of_ne hc]
      exact ⟨fun ho₁ => ⟨ho₁, fun heq => hc (congrArg Prod.fst heq)⟩, fun ho₁ => ho₁.1⟩

/-- After every run the inner nodes record the earliest expiries below their
    children.  Where no tree is a single order without an expiry,
    `find_earliest_expiry` finds an order of the tree that expires first, and
    `remove_one_expired` takes out an expired order iff there is one. -/
theorem run_expiries (orderTreeType : OrderTreeType) (ops : List Op) :
    (run exec (zeroed orderTreeType) ops).ExpiriesRecorded ∧
    (∀ c, ¬ SingleUnfit (run exec (zeroed orderTreeType) ops) c →
      (∃ o, IsLeafOf (run exec (zeroed orderTreeType) ops) c o) →
      ∃ h o e, (run exec (zeroed orderTreeType) ops).nodes.findEarliestExpiry
          ((run exec (zeroed orderTreeType) ops).roots c) = .ok (some (h, e)) ∧
        (run exec (zeroed orderTreeType) ops).nodes.nodes h = .leaf o ∧
        IsLeafOf (run exec (zeroed orderTreeType) ops) c o ∧ o.expiry = .ok e ∧
        IsLeast {e | ∃ o, IsLeafOf (run exec (zeroed orderTreeType) ops) c o ∧
          o.expiry = .ok e} e) ∧
    ∀ c nowTs, (∀ c', ¬ SingleUnfit (run exec (zeroed orderTreeType) ops) c') →
      ∃ r b', (run exec (zeroed orderTreeType) ops).removeOneExpired c nowTs = .ok (r, b') ∧
        (r.isSome ↔ ∃ c' o e, IsLeafOf (run exec (zeroed orderTreeType) ops) c' o ∧
          o.expiry = .ok e ∧ e < nowTs) ∧
        ∀ o, r = some o → ∃ c', IsLeafOf (run exec (zeroed orderTreeType) ops) c' o ∧
          ∀ c₁ o₁, IsLeafOf b' c₁ o₁ ↔
            IsLeafOf (run exec (zeroed orderTreeType) ops) c₁ o₁ ∧ (c₁, o₁) ≠ (c', o) := by
  have h := run_dated orderTreeType ops
  generalize run exec (zeroed orderTreeType) ops = b at h ⊢
  refine ⟨h.recorded, ?_, ?_⟩
  · rintro c hfit ⟨o, ho⟩
    have hfound := h.findEarliestExpiry c
    generalize b.nodes.findEarliestExpiry (b.roots c) = r at hfound
    cases hfound with
    | empty hempty => exact absurd ho (hempty o)
    | overflow hsingle => exact absurd hsingle hfit
    | found hslot hleaf he hleast => exact ⟨_, _, _, rfl, hslot, hleaf, he, hleast⟩
  · intro c nowTs hfit
    have hexpired := h.removeOneExpired c nowTs
    generalize b.removeOneExpired c nowTs = r at hexpired
    cases hexpired with
    | overflow hsingle =>
      obtain ⟨c', hsingle⟩ := hsingle
      exact absurd hsingle (hfit c')
    | kept hnone =>
      refine ⟨none, b, rfl, ⟨nofun, ?_⟩, nofun⟩
      rintro ⟨c', o, e, ho, he, hlt⟩
      exact absurd (hnone c' o e ho he) (Nat.not_le.mpr hlt)
    | removed hleaf he hlt hgone =>
      refine ⟨_, _, rfl, ⟨fun _ => ⟨_, _, _, hleaf, he, hlt⟩, fun _ => rfl⟩, ?_⟩
      rintro o ⟨⟩
      exact ⟨_, hleaf, hgone⟩

/-- An ask placed at the given time. -/
def expiringLeaf (timestamp timeInForce : Nat) : LeafNode where
  ownerSlot := 0
  orderType := .limit
  timeInForce
  key := 1
  owner := 0
  quantity := 1
  timestamp
  pegLimit := -1
  clientOrderId := 0

/-- An order that expires at 2 is taken out at 3. -/
theorem expiring_removed :
    (∀ c, ¬ SingleUnfit (run exec (zeroed .asks) [.insertLeaf .fixed (expiringLeaf 1 1)]) c) ∧
    ∃ o b', (run exec (zeroed .asks) [.insertLeaf .fixed (expiringLeaf 1 1)]).removeOneExpired
      .oraclePegged 3 = .ok (some o, b') := by
  have hfit : ∀ c,
      ¬ SingleUnfit (run exec (zeroed .asks) [.insertLeaf .fixed (expiringLeaf 1 1)]) c := by
    rintro c ⟨root, o, hroot, hslot, hbad⟩
    cases c with
    | fixed =>
      obtain rfl : 0 = root := Option.some.inj hroot
      obtain rfl : expiringLeaf 1 1 = o := AnyNode.leaf.inj hslot
      exact hbad (by decide)
    | oraclePegged => cases hroot
  refine ⟨hfit, ?_⟩
  obtain ⟨r, b', hrun, hiff, -⟩ :=
    (run_expiries .asks [.insertLeaf .fixed (expiringLeaf 1 1)]).2.2 .oraclePegged 3 hfit
  have hsome : r.isSome := hiff.mpr ⟨.fixed, expiringLeaf 1 1, 2, ⟨0, rfl, .leaf rfl⟩, rfl, by decide⟩
  obtain ⟨o, rfl⟩ := Option.isSome_iff_exists.mp hsome
  exact ⟨o, b', hrun⟩

/-- An order that was placed at the end of time and does not expire within it
    is alone in the pegged tree.  `remove_one_expired` panics on it and leaves
    the expired order of the fixed tree. -/
theorem remove_one_expired_misses :
    ¬ ∀ (orderTreeType : OrderTreeType) (ops : List Op) (c : BookSideOrderTree) (nowTs : Nat),
      (∃ c' o e, IsLeafOf (run exec (zeroed orderTreeType) ops) c' o ∧ o.expiry = .ok e ∧
        e < nowTs) →
      ∃ o b', (run exec (zeroed orderTreeType) ops).removeOneExpired c nowTs =
        .ok (some o, b') := by
  intro h
  obtain ⟨o, b', hrun⟩ := h .asks [.insertLeaf .fixed (expiringLeaf 1 1),
    .insertLeaf .oraclePegged (expiringLeaf (2 ^ 64 - 1) 1)] .oraclePegged 3
    ⟨.fixed, expiringLeaf 1 1, 2, ⟨0, rfl, .leaf rfl⟩, rfl, by decide⟩
  have hpanic : (run exec (zeroed .asks) [.insertLeaf .fixed (expiringLeaf 1 1),
      .insertLeaf .oraclePegged (expiringLeaf (2 ^ 64 - 1) 1)]).removeOneExpired .oraclePegged 3 =
      panic .overflow := rfl
  cases hrun

end BookSide

end MangoV4
