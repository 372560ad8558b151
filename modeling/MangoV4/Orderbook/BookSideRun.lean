/-
  MangoV4.Orderbook.BookSideRun

  Runs of operations on a book side, from an account of zeros.

  A run keeps the layout of the two trees and the free list, and its
  operations can only panic in two ways (`run_wellFormed`).  Seen from
  outside, each root is a finite map from keys to orders (`run_refines_maps`);
  what is in a root is read off the array alone (`IsLeafOf`), without the
  trees of the layout.
-/

import MangoV4.Orderbook.BookSide
import MangoV4.Lib.Run
import MangoV4.Lib.KeyedList

namespace MangoV4

open Lib Lib.Exec Lib.CritBit List Function OrderTreeIter NodeTree

namespace BookSide

/-- The operations that change a book side. -/
inductive Op where
  | insertLeaf (component : BookSideOrderTree) (newLeaf : LeafNode)
  | removeByKey (component : BookSideOrderTree) (searchKey : Key)
  | removeWorst (nowTs : Nat) (oraclePriceLots : Int)
  | removeOneExpired (component : BookSideOrderTree) (nowTs : Nat)

/-- What an operation returns to its caller. -/
inductive Reply where
  | inserted (r : Except MangoError (NodeHandle × Option LeafNode))
  | removed (r : Option LeafNode)
  | removedWorst (r : Option (LeafNode × Int))

def exec : Op → BookSide → Exec (Reply × BookSide)
  | .insertLeaf component newLeaf, b => do
    let (r, b) ← b.insertLeaf component newLeaf
    return (.inserted r, b)
  | .removeByKey component searchKey, b => do
    let (r, b) ← b.removeByKey component searchKey
    return (.removed r, b)
  | .removeWorst nowTs oraclePriceLots, b => do
    let (r, b) ← b.removeWorst nowTs oraclePriceLots
    return (.removedWorst r, b)
  | .removeOneExpired component nowTs, b => do
    let (r, b) ← b.removeOneExpired component nowTs
    return (.removed r, b)

/-! ## The orders of a root -/

/-- `o` is a leaf that can be reached from the node at `h`. -/
inductive LeafBelow (nodes : NodeHandle → AnyNode) : NodeHandle → LeafNode → Prop
  | leaf {h : NodeHandle} {o : LeafNode} (hslot : nodes h = .leaf o) : LeafBelow nodes h o
  | child {h : NodeHandle} {n : InnerNode} {o : LeafNode} (hslot : nodes h = .inner n)
      (bit : Bool) (hbelow : LeafBelow nodes (n.children.get bit) o) : LeafBelow nodes h o

/-- `o` is one of the orders of a component. -/
def IsLeafOf (b : BookSide) (c : BookSideOrderTree) (o : LeafNode) : Prop :=
  ∃ h, (b.roots c).node = some h ∧ LeafBelow b.nodes.nodes h o

theorem leafBelow_iff {nodes : NodeHandle → AnyNode} {s : NodeTree} (h : Held nodes s)
    (o : LeafNode) : LeafBelow nodes (root s) o ↔ o ∈ orders s := by
  induction s with
  | leaf x =>
    have hslot : nodes x.1 = .leaf x.2 := h
    constructor
    · intro hbelow
      cases hbelow with
      | leaf hs =>
        have heq := hslot.symm.trans hs
        injection heq with heq
        exact mem_singleton.mpr heq.symm
      | child hs bit hb => exact absurd (hslot.symm.trans hs) (by simp)
    · intro hmem
      obtain rfl : o = x.2 := mem_singleton.mp hmem
      exact .leaf hslot
  | inner i l r ihl ihr =>
    obtain ⟨hslot, hch, hl, hr⟩ := h
    have horders : orders (.inner i l r) = orders l ++ orders r :=
      map_append ..
    rw [horders, mem_append, ← ihl hl, ← ihr hr]
    constructor
    · intro hbelow
      cases hbelow with
      | leaf hs => exact absurd (hslot.symm.trans hs) (by simp)
      | child hs bit hb =>
        have heq := hslot.symm.trans hs
        injection heq with heq
        rw [← heq, hch] at hb
        cases bit with
        | false => exact Or.inl hb
        | true => exact Or.inr hb
    · rintro (hbelow | hbelow)
      · exact .child hslot false (by rw [hch]; exact hbelow)
      · exact .child hslot true (by rw [hch]; exact hbelow)

/-- The orders read off the array are those of the layout. -/
theorem isLeafOf_iff {b : BookSide} {tree : BookSideOrderTree → Option NodeTree}
    {free : List NodeHandle} (h : Layout b tree free) (c : BookSideOrderTree) (o : LeafNode) :
    IsLeafOf b c o ↔ o ∈ optOrders (tree c) := by
  have hheld := h.held c
  unfold IsLeafOf
  cases hs : tree c with
  | none =>
    rw [hs] at hheld
    rw [hheld.node_none]
    simp [optOrders]
  | some s =>
    rw [hs] at hheld
    rw [hheld.node_some]
    simp only [Option.some.injEq, exists_eq_left']
    exact leafBelow_iff hheld.2.2.1 o

/-! ## Each root is a finite map -/

abbrev OrderMap := Finmap fun _ : Key => LeafNode

/-- One map for each component. -/
abbrev OrderMaps := BookSideOrderTree → OrderMap

/-- The maps have exactly the orders of the book side, each under its key. -/
def Represents (b : BookSide) (m : OrderMaps) : Prop :=
  ∀ c k o, (m c).lookup k = some o ↔ IsLeafOf b c o ∧ o.key = k

/-- What an operation with a given reply does to the maps. -/
inductive MapStep (m : OrderMaps) : Op → Reply → OrderMaps → Prop
  /-- the key maps to the new leaf; the leaf it mapped to before is returned -/
  | inserted {c : BookSideOrderTree} {leaf : LeafNode} {x : NodeHandle} :
      MapStep m (.insertLeaf c leaf) (.inserted (.ok (x, (m c).lookup leaf.key)))
        (Function.update m c ((m c).insert leaf.key leaf))
  /-- only a new key can be rejected; nothing changes -/
  | rejected {c : BookSideOrderTree} {leaf : LeafNode} {e : MangoError}
      (hnew : (m c).lookup leaf.key = none) :
      MapStep m (.insertLeaf c leaf) (.inserted (.error e)) m
  | absent {c : BookSideOrderTree} {k : Key} (hk : (m c).lookup k = none) :
      MapStep m (.removeByKey c k) (.removed none) m
  | removed {c : BookSideOrderTree} {k : Key} {o : LeafNode} (hk : (m c).lookup k = some o) :
      MapStep m (.removeByKey c k) (.removed (some o)) (Function.update m c ((m c).erase k))
  | nothingExpired {c : BookSideOrderTree} {nowTs : Nat} :
      MapStep m (.removeOneExpired c nowTs) (.removed none) m
  | expired {c c' : BookSideOrderTree} {nowTs : Nat} {o : LeafNode}
      (ho : (m c').lookup o.key = some o) :
      MapStep m (.removeOneExpired c nowTs) (.removed (some o))
        (Function.update m c' ((m c').erase o.key))
  | noWorst {nowTs : Nat} {oraclePriceLots : Int} (hempty : ∀ c, m c = ∅) :
      MapStep m (.removeWorst nowTs oraclePriceLots) (.removedWorst none) m
  | worst {nowTs : Nat} {oraclePriceLots price : Int} {c : BookSideOrderTree} {o : LeafNode}
      (ho : (m c).lookup o.key = some o) :
      MapStep m (.removeWorst nowTs oraclePriceLots) (.removedWorst (some (o, price)))
        (Function.update m c ((m c).erase o.key))

variable {b b' : BookSide} {tree : BookSideOrderTree → Option NodeTree} {free free' : List NodeHandle}
  {m : OrderMaps} {c : BookSideOrderTree} {op : Op} {r : Reply}

theorem represents_iff (h : Layout b tree free) (m : OrderMaps) :
    Represents b m ↔ ∀ c, MapOf LeafNode.key (optOrders (tree c)) (m c) := by
  unfold Represents MapOf
  simp only [isLeafOf_iff h]

theorem exists_represents (h : b.WellFormed) : ∃ m, Represents b m := by
  obtain ⟨tree, free, h⟩ := h
  choose m hm using fun c => MapOf.exists_of_nodup (h.held c).keys_nodup
  exact ⟨m, (represents_iff h m).mpr hm⟩

/-- The maps after the tree of one component has changed. -/
theorem represents_update {s' : Option NodeTree} {mc : OrderMap} (h : Layout b tree free) (hm : Represents b m)
    (h' : Layout b' (update tree c s') free')
    (hmc : MapOf LeafNode.key (optOrders s') mc) : Represents b' (update m c mc) := by
  rw [represents_iff h']
  intro c'
  by_cases hc : c' = c
  · subst hc
    simpa using hmc
  · simpa [hc] using (represents_iff h m).mp hm c'

/-- Removing one order of a component erases its key. -/
theorem represents_erase {s' : Option NodeTree} {o : LeafNode} (h : Layout b tree free) (hm : Represents b m)
    (h' : Layout b' (update tree c s') free')
    (hperm : (optOrders (tree c)).Perm (o :: optOrders s')) :
    (m c).lookup o.key = some o ∧ Represents b' (update m c ((m c).erase o.key)) := by
  have hmap := ((represents_iff h m).mp hm c).perm hperm
  have hnodup : ((o :: optOrders s').map LeafNode.key).Nodup :=
    (hperm.map LeafNode.key).nodup_iff.mp (h.held c).keys_nodup
  exact ⟨hmap.lookup_eq_some (mem_cons_self ..), represents_update h hm h' (hmap.erase hnodup)⟩

/-- Inserting an order inserts it into the map. -/
theorem represents_insert {s' : NodeTree} {leaf : LeafNode} {old : Option LeafNode} (h : Layout b tree free)
    (hm : Represents b m) (h' : Layout b' (update tree c (some s')) free')
    (hins : Inserted (optOrders (tree c)) leaf old (orders s')) :
    old = (m c).lookup leaf.key ∧
      Represents b' (update m c ((m c).insert leaf.key leaf)) := by
  have hmap := (represents_iff h m).mp hm c
  rcases hins with ⟨rfl, hnew, hperm⟩ | ⟨o, others, rfl, hkey, hperm, hperm'⟩
  · refine ⟨(hmap.lookup_eq_none hnew).symm, represents_update h hm h' ?_⟩
    exact (hmap.insert hnew).perm hperm.symm
  · have hmap' := hmap.perm hperm
    have hnodup : ((o :: others).map LeafNode.key).Nodup :=
      (hperm.map LeafNode.key).nodup_iff.mp (h.held c).keys_nodup
    refine ⟨?_, represents_update h hm h' ?_⟩
    · rw [← hkey]
      exact (hmap'.lookup_eq_some (mem_cons_self ..)).symm
    · exact (hmap'.replace hnodup hkey).perm hperm'.symm

/-! ## What an operation does -/

/-- An order involved in the operation has an expiry time above 64 bits. -/
def ExpiryOverflows (op : Op) (b : BookSide) : Prop :=
  ∃ o, ¬ o.ExpiryFits ∧ ((∃ c, op = .insertLeaf c o) ∨ ∃ c, IsLeafOf b c o)

/-- `remove_worst` picks a fixed order with price data above `i64::MAX`. -/
def PicksUnreadablePrice (op : Op) (b : BookSide) : Prop :=
  ∃ nowTs oraclePriceLots f o, op = .removeWorst nowTs oraclePriceLots ∧
    b.nodes.findWorst (b.roots .fixed) = .ok (some f) ∧
    b.nodes.findWorst (b.roots .oraclePegged) = .ok o ∧
    f.2.ExpiryFits ∧ ¬ f.2.PriceFits ∧ picksFixed b.side oraclePriceLots true f.2 o = true

/-- What an operation on the two trees that returns has done: there are two
    trees again, dated if they were, and the maps have changed as its reply says. -/
structure Returned (b : BookSide) (tree : BookSideOrderTree → Option NodeTree) (op : Op) (r : Reply)
    (b' : BookSide) : Prop where
  layout : ∃ tree' free', Layout b' tree' free' ∧
    ((∀ c, OptDated (tree c)) → ∀ c, OptDated (tree' c))
  type_eq : b'.nodes.orderTreeType = b.nodes.orderTreeType
  maps : ∀ m, Represents b m → ∃ m', Represents b' m' ∧ MapStep m op r m'

/-- Nothing is changed. -/
theorem Returned.same (h : Layout b tree free) (hstep : ∀ m, Represents b m → MapStep m op r m) :
    Returned b tree op r b :=
  ⟨⟨tree, free, h, id⟩, rfl, fun m hm => ⟨m, hm, hstep m hm⟩⟩

theorem optDated_update {s : Option NodeTree} (h : ∀ c, OptDated (tree c)) (hs : OptDated s) :
    ∀ c', OptDated (update tree c s c') :=
  (forall_update_iff tree fun _ s => OptDated s).mpr ⟨hs, fun c' _ => h c'⟩

/-- One order is removed. -/
theorem Returned.erased {s' : Option NodeTree} {o : LeafNode} (h : Layout b tree free)
    (h' : Layout b' (update tree c s') free')
    (htype : b'.nodes.orderTreeType = b.nodes.orderTreeType)
    (hperm : (optOrders (tree c)).Perm (o :: optOrders s'))
    (hdated : OptDated (tree c) → OptDated s') (hstep : ∀ m : OrderMaps, (m c).lookup o.key = some o →
      MapStep m op r (update m c ((m c).erase o.key))) : Returned b tree op r b' := by
  refine ⟨⟨_, _, h', fun hall => optDated_update hall (hdated (hall c))⟩, htype, fun m hm => ?_⟩
  obtain ⟨hlookup, hrep⟩ := represents_erase h hm h' hperm
  exact ⟨_, hrep, hstep m hlookup⟩

theorem expiryOverflows_of_mem {o : LeafNode} (h : Layout b tree free) (ho : o ∈ optOrders (tree c))
    (hbad : ¬ o.ExpiryFits) : ExpiryOverflows op b :=
  ⟨o, hbad, .inr ⟨c, (isLeafOf_iff h c o).mpr ho⟩⟩

/-- An operation on a well-formed book side returns, or ends in one of two panics. -/
theorem exec_cases (h : Layout b tree free) (op : Op) :
    (∃ r b', exec op b = .ok (r, b') ∧ Returned b tree op r b') ∨
    (exec op b = panic .overflow ∧ ExpiryOverflows op b) ∨
    (exec op b = panic .assertion ∧ PicksUnreadablePrice op b) := by
  cases op with
  | insertLeaf c leaf =>
    have hout := insertLeaf_outcome h c leaf
    simp only [exec]
    generalize b.insertLeaf c leaf = r at hout ⊢
    cases hout with
    | overflow hbad =>
      obtain ⟨o, ho, hbad⟩ := hbad
      refine .inr (.inl ⟨rfl, ?_⟩)
      rcases mem_cons.mp ho with rfl | ho
      · exact ⟨o, hbad, .inl ⟨c, rfl⟩⟩
      · exact expiryOverflows_of_mem h ho hbad
    | noSpace hlayout htype _ hnew =>
      refine .inl ⟨_, _, rfl, ⟨_, _, hlayout, id⟩, htype, fun m hm => ?_⟩
      have hmap := (represents_iff h m).mp hm
      exact ⟨m, (represents_iff hlayout m).mpr hmap, .rejected ((hmap c).lookup_eq_none hnew)⟩
    | @done _ _ _ s' _ hlayout htype hins hdated =>
      refine .inl ⟨_, _, rfl, ⟨_, _, hlayout, fun hall => ?_⟩, htype, fun m hm => ?_⟩
      · exact optDated_update (s := some s') hall (hdated (hall c))
      · obtain ⟨hold, hrep⟩ := represents_insert h hm hlayout hins
        rw [hold]
        exact ⟨_, hrep, .inserted⟩
  | removeByKey c k =>
    have hout := removeByKey_outcome h c k
    simp only [exec]
    generalize b.removeByKey c k = r at hout ⊢
    cases hout with
    | overflow hbad =>
      obtain ⟨o, ho, hbad⟩ := hbad
      exact .inr (.inl ⟨rfl, expiryOverflows_of_mem h ho hbad⟩)
    | absent hk =>
      exact .inl ⟨_, _, rfl, .same h fun m hm =>
        .absent (((represents_iff h m).mp hm c).lookup_eq_none hk)⟩
    | removed hlayout htype hkey hperm hdated =>
      subst hkey
      exact .inl ⟨_, _, rfl, .erased h hlayout htype hperm hdated fun _ => .removed⟩
  | removeWorst nowTs oracle =>
    have hout := removeWorst_outcome h nowTs oracle
    simp only [exec]
    generalize b.removeWorst nowTs oracle = r at hout ⊢
    cases hout with
    | overflow hbad =>
      obtain ⟨c, o, ho, hbad⟩ := hbad
      exact .inr (.inl ⟨rfl, expiryOverflows_of_mem h ho hbad⟩)
    | price hx hfits hbad hpick =>
      refine .inr (.inr ⟨rfl, nowTs, oracle, _, _, rfl, ?_, findWorst_eq h _, hfits, hbad,
        hpick⟩)
      rw [findWorst_eq h, hx]
    | empty hempty =>
      refine .inl ⟨_, _, rfl, .same h fun m hm => .noWorst fun c => ?_⟩
      have hnil := (represents_iff h m).mp hm c
      rw [hempty c] at hnil
      exact hnil.unique MapOf.nil
    | removed _ _ hlayout htype hperm hdated =>
      exact .inl ⟨_, _, rfl, .erased h hlayout htype hperm hdated fun _ => .worst⟩
  | removeOneExpired c nowTs =>
    have hout := removeOneExpired_outcome h c nowTs
    simp only [exec]
    generalize b.removeOneExpired c nowTs = r at hout ⊢
    cases hout with
    | overflow hbad =>
      obtain ⟨c, o, ho, hbad⟩ := hbad
      exact .inr (.inl ⟨rfl, expiryOverflows_of_mem h ho hbad⟩)
    | kept => exact .inl ⟨_, _, rfl, .same h fun _ _ => .nothingExpired⟩
    | removed hlayout htype hperm _ hdated =>
      exact .inl ⟨_, _, rfl, .erased h hlayout htype hperm hdated fun _ => .expired⟩

theorem exec_returned (h : Layout b tree free) (hexec : exec op b = .ok (r, b')) :
    Returned b tree op r b' := by
  rcases exec_cases h op with ⟨r₁, b₁, hrun, hreturned⟩ | ⟨hrun, -⟩ | ⟨hrun, -⟩
  · obtain ⟨rfl, rfl⟩ := ok_inj₂ (hrun.symm.trans hexec)
    exact hreturned
  · cases hrun.symm.trans hexec
  · cases hrun.symm.trans hexec

/-! ## Runs keep the layout -/

/-- Picking an order with an unreadable price does panic. -/
theorem exec_of_picksUnreadablePrice (h : PicksUnreadablePrice op b) :
    exec op b = panic .assertion := by
  obtain ⟨nowTs, oracle, f, o, rfl, hf, ho, hfits, hbad, hpick⟩ := h
  have hresult : fixedToResult f nowTs = panic .assertion := by
    rcases fixedToResult_cases f nowTs with ⟨hnot, -⟩ | ⟨-, -, hrun⟩ | ⟨-, hprice, -⟩
    · exact absurd hfits hnot
    · exact hrun
    · exact absurd hprice hbad
  have hrank : rankOrders b.side (some f) o true nowTs oracle = panic .assertion := by
    rw [rankOrders_eq]
    cases o with
    | none =>
      simp only [hresult]
      rfl
    | some o =>
      simp only [hpick, if_true, hresult]
      rfl
  simp only [exec, removeWorst, hf, ho, ok_bind, hrank]
  rfl

theorem wellFormed_zeroed (orderTreeType : OrderTreeType) : (zeroed orderTreeType).WellFormed :=
  ⟨_, _, zeroed_layout orderTreeType⟩

theorem run_keeps_wellFormed (orderTreeType : OrderTreeType) (ops : List Op) :
    (run exec (zeroed orderTreeType) ops).WellFormed ∧
      (run exec (zeroed orderTreeType) ops).nodes.orderTreeType = orderTreeType := by
  refine run_preserves (P := fun b : BookSide => b.WellFormed ∧ b.nodes.orderTreeType = orderTreeType) ?_
    ops ⟨wellFormed_zeroed orderTreeType, rfl⟩
  rintro op b r b' ⟨⟨tree, free, h⟩, htype⟩ hexec
  have hreturned := exec_returned h hexec
  obtain ⟨tree', free', h', -⟩ := hreturned.layout
  exact ⟨⟨tree', free', h'⟩, hreturned.type_eq.trans htype⟩

/-- After every run the two trees and the free list are well formed, and the
    next operation returns or panics in one of two ways: an expiry time
    overflows, or `remove_worst` reads a price above `i64::MAX`. -/
theorem run_wellFormed (orderTreeType : OrderTreeType) (ops : List Op) :
    (run exec (zeroed orderTreeType) ops).WellFormed ∧
    ∀ op, (∀ f, exec op (run exec (zeroed orderTreeType) ops) = .error f →
        (f = .panic .overflow ∧ ExpiryOverflows op (run exec (zeroed orderTreeType) ops)) ∨
        f = .panic .assertion) ∧
      (exec op (run exec (zeroed orderTreeType) ops) = panic .assertion ↔
        PicksUnreadablePrice op (run exec (zeroed orderTreeType) ops)) := by
  have hwf := (run_keeps_wellFormed orderTreeType ops).1
  refine ⟨hwf, fun op => ?_⟩
  generalize run exec (zeroed orderTreeType) ops = b at hwf ⊢
  obtain ⟨tree, free, h⟩ := hwf
  refine ⟨?_, ?_, exec_of_picksUnreadablePrice⟩
  · intro f hf
    rcases exec_cases h op with ⟨r, b', hrun, -⟩ | ⟨hrun, hover⟩ | ⟨hrun, -⟩
    · rw [hrun] at hf
      cases hf
    · rw [hrun] at hf
      cases hf
      exact Or.inl ⟨rfl, hover⟩
    · rw [hrun] at hf
      cases hf
      exact Or.inr rfl
  · intro hpanic
    rcases exec_cases h op with ⟨r, b', hrun, -⟩ | ⟨hrun, -⟩ | ⟨-, hpick⟩
    · rw [hrun] at hpanic
      cases hpanic
    · rw [hrun] at hpanic
      cases hpanic
    · exact hpick

/-- An ask of the fixed tree with the highest price data. -/
def unreadableLeaf : LeafNode where
  ownerSlot := 0
  orderType := .limit
  timeInForce := 0
  key := BitVec.ofNat 128 (2 ^ 127)
  owner := 0
  quantity := 1
  timestamp := 0
  pegLimit := -1
  clientOrderId := 0

theorem removeWorst_unreadable_panics :
    exec (.removeWorst 0 1)
      (run exec (zeroed .asks) [.insertLeaf .fixed unreadableLeaf]) = panic .assertion := rfl

/-! ## Runs refine the maps -/

/-- All leaves that an `OrderTreeIter` over one component yields. -/
def iterComponent (b : BookSide) (c : BookSideOrderTree) : Exec (List (NodeHandle × LeafNode)) := do
  let it ← OrderTreeIter.new b.nodes (b.roots c)
  it.collect b.nodes MAX_ORDERTREE_NODES

/-- The leaves of a component in the order of iteration. -/
def cells (b : BookSide) (tree : BookSideOrderTree → Option NodeTree) (c : BookSideOrderTree) :
    List LeafCell :=
  OrderTreeIter.rootInOrder (decide (b.nodes.orderTreeType = .bids)) (tree c)

theorem iterComponent_eq (h : Layout b tree free) (c : BookSideOrderTree) :
    b.iterComponent c = .ok (b.cells tree c) := by
  obtain ⟨it, hnew, hleft, hit⟩ := new_eq (h.arena_of c) (h.held c)
  have hlen := length_rootInOrder_lt (h.arena_of c) it.left
  unfold iterComponent cells
  rw [hnew, ok_bind, ← hleft]
  exact collect_eq _ _ it hit hlen

theorem cells_perm (b : BookSide) (tree : BookSideOrderTree → Option NodeTree)
    (c : BookSideOrderTree) : ((b.cells tree c).map Prod.snd).Perm (optOrders (tree c)) := by
  rw [optOrders_eq]
  exact (rootInOrder_perm _ (tree c)).map Prod.snd

theorem mem_cells (h : Layout b tree free) (c : BookSideOrderTree) (o : LeafNode) :
    o ∈ (b.cells tree c).map Prod.snd ↔ IsLeafOf b c o := by
  rw [(cells_perm b tree c).mem_iff, isLeafOf_iff h]

theorem sorted_cells (h : Layout b tree free) (c : BookSideOrderTree) :
    (b.cells tree c).Pairwise fun x y =>
      KeyOrder b.nodes.orderTreeType x.2.key y.2.key :=
  rootInOrder_pairwise (h.held c) _

/-- After every run, each root is a finite map: the iterator yields its
    entries, and an operation that returns does to the maps what its reply
    says.  An operation that does not return panics on an expiry time above 64
    bits or, in `remove_worst`, on a price above `i64::MAX`. -/
theorem run_refines_maps (orderTreeType : OrderTreeType) (ops : List Op) :
    ∃ m, Represents (run exec (zeroed orderTreeType) ops) m ∧
      (∀ c, ∃ cells, (run exec (zeroed orderTreeType) ops).iterComponent c = .ok cells ∧
        (∀ o, o ∈ cells.map Prod.snd ↔ (m c).lookup o.key = some o) ∧
        cells.Pairwise (fun x y => OrderTreeIter.KeyOrder orderTreeType x.2.key y.2.key)) ∧
      ∀ op, match exec op (run exec (zeroed orderTreeType) ops) with
        | .ok (r, b') => ∃ m', Represents b' m' ∧ MapStep m op r m'
        | .error _ => ExpiryOverflows op (run exec (zeroed orderTreeType) ops) ∨
            PicksUnreadablePrice op (run exec (zeroed orderTreeType) ops) := by
  obtain ⟨hwf, htype⟩ := run_keeps_wellFormed orderTreeType ops
  generalize run exec (zeroed orderTreeType) ops = b at hwf htype ⊢
  obtain ⟨m, hm⟩ := exists_represents hwf
  obtain ⟨tree, free, h⟩ := hwf
  refine ⟨m, hm, ?_, ?_⟩
  · intro c
    refine ⟨b.cells tree c, iterComponent_eq h c, ?_, htype ▸ sorted_cells h c⟩
    intro o
    rw [mem_cells h c o, hm c o.key o]
    simp
  · intro op
    rcases exec_cases h op with ⟨r, b', hrun, hreturned⟩ | ⟨hrun, hover⟩ | ⟨hrun, hpick⟩
    · rw [hrun]
      exact hreturned.maps m hm
    · rw [hrun]
      exact Or.inl hover
    · rw [hrun]
      exact Or.inr hpick

end BookSide

end MangoV4
