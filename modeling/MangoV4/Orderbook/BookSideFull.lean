/-
  MangoV4.Orderbook.BookSideFull

  Space on a book side: what `is_full` says about the slots that are left, and
  when `insert_leaf` finds none.

  The two trees of a side share 1024 slots; a tree with `n` leaves takes
  `2 * n - 1` of them.  A new leaf needs two slots, or one if its tree is empty.
  `remove_worst` frees two slots, or one if the tree gets empty.  So after the
  worst order has been dropped from a full side there is room for a new leaf,
  unless the dropped order was alone in the other tree
  (`insertLeaf_rejects_iff_crowded`).
-/

import MangoV4.Orderbook.NewOrder

namespace MangoV4

open Lib Lib.Exec List Function BookSide

/-! ## Slots in use -/

namespace OrderTreeNodes

/-- Storing a node does not lengthen the free list. -/
theorem insert_freeListLen {t t' : OrderTreeNodes} {val : AnyNode}
    {r : Except MangoError NodeHandle} (h : t.insert val = .ok (r, t')) :
    t'.freeListLen ≤ t.freeListLen := by
  unfold insert at h
  split at h
  · cases h
  · split at h
    · split at h
      · obtain ⟨-, rfl⟩ := ok_inj₂ h
        exact Nat.le_refl _
      · obtain ⟨-, rfl⟩ := ok_inj₂ h
        exact Nat.le_refl _
    · obtain ⟨slot, -, h⟩ := of_bind h
      cases slot with
      | freeNode next =>
        obtain ⟨_, -, h⟩ := of_bind h
        obtain ⟨-, rfl⟩ := ok_inj₂ h
        exact Nat.sub_le ..
      | lastFreeNode next =>
        obtain ⟨_, -, h⟩ := of_bind h
        obtain ⟨-, rfl⟩ := ok_inj₂ h
        exact Nat.sub_le ..
      | _ => cases h

theorem updateParentEarliestExpiry_freeListLen (stack : Stack) :
    ∀ {t t' : OrderTreeNodes} {outdatedExpiry newExpiry : Nat},
      t.updateParentEarliestExpiry stack outdatedExpiry newExpiry = .ok t' →
      t'.freeListLen = t.freeListLen := by
  induction stack with
  | nil =>
    intro t t' o n h
    obtain rfl := ok_inj h
    rfl
  | cons x stack ih =>
    intro t t' o n h
    obtain ⟨_, -, h⟩ := of_bind h
    obtain ⟨_, -, h⟩ := of_bind h
    obtain ⟨_, -, h⟩ := of_bind h
    split at h
    · obtain rfl := ok_inj h
      rfl
    · exact (ih h).trans rfl

/-- Neither does an insertion that succeeds. -/
theorem insertLeaf_freeListLen {t t' : OrderTreeNodes} {root root' : OrderTreeRoot}
    {leaf : LeafNode} {r : NodeHandle × Option LeafNode}
    (h : t.insertLeaf root leaf = .ok (.ok r, t', root')) : t'.freeListLen ≤ t.freeListLen := by
  unfold insertLeaf at h
  split at h
  · obtain ⟨⟨handle, t₁⟩, hinsert, h⟩ := of_bind h
    cases handle with
    | error e => cases h
    | ok handle =>
      obtain ⟨-, rfl, -⟩ := ok_inj₃ h
      exact insert_freeListLen hinsert
  · obtain ⟨spot, -, h⟩ := of_bind h
    cases spot with
    | clobber stack parentHandle oldParent =>
      obtain ⟨t₁, hset, h⟩ := of_bind h
      obtain ⟨_, -, h⟩ := of_bind h
      obtain ⟨_, -, h⟩ := of_bind h
      obtain ⟨t₂, hupdate, h⟩ := of_bind h
      obtain ⟨-, rfl, -⟩ := ok_inj₃ h
      obtain ⟨_, -, hset⟩ := of_bind hset
      obtain ⟨_, -, hset⟩ := of_bind hset
      obtain rfl := ok_inj hset
      exact Nat.le_of_eq ((updateParentEarliestExpiry_freeListLen stack hupdate).trans rfl)
    | split stack parentHandle parentContents sharedPrefixLen =>
      obtain ⟨_, -, h⟩ := of_bind h
      obtain ⟨⟨handle, t₁⟩, hinsert₁, h⟩ := of_bind h
      cases handle with
      | error e => cases h
      | ok handle =>
        obtain ⟨⟨handle₂, t₂⟩, hinsert₂, h⟩ := of_bind h
        cases handle₂ with
        | error e =>
          obtain ⟨_, -, h⟩ := of_bind h
          obtain ⟨_, -, h⟩ := of_bind h
          cases h
        | ok handle₂ =>
          obtain ⟨_, -, h⟩ := of_bind h
          obtain ⟨_, -, h⟩ := of_bind h
          obtain ⟨_, -, h⟩ := of_bind h
          obtain ⟨_, -, h⟩ := of_bind h
          obtain ⟨t₃, hupdate, h⟩ := of_bind h
          obtain ⟨_, -, h⟩ := of_bind h
          obtain ⟨-, rfl, -⟩ := ok_inj₃ h
          have h₁ := insert_freeListLen hinsert₁
          have h₂ := insert_freeListLen hinsert₂
          have h₃ : t₃.freeListLen = t₂.freeListLen := by
            split at hupdate
            · exact (updateParentEarliestExpiry_freeListLen stack hupdate).trans rfl
            · obtain rfl := ok_inj hupdate
              rfl
          omega

end OrderTreeNodes

/-- A tree with `n` leaves has `n - 1` inner nodes. -/
theorem RootHeld.length_optHandles {nodes : NodeHandle → AnyNode} {root : OrderTreeRoot}
    {s : Option NodeTree} (h : RootHeld nodes root s) :
    (optHandles s).length = 2 * root.leafCount - 1 := by
  have hcount := h.leafCount_eq
  cases s with
  | none =>
    rw [hcount]
    rfl
  | some s =>
    have hhandles := NodeTree.length_handles s
    have horders : (optOrders (some s)).length = s.leaves.length := length_map ..
    show (NodeTree.handles s).length = _
    omega

theorem RootHeld.slotsNeeded_eq {nodes : NodeHandle → AnyNode} {root : OrderTreeRoot}
    {s : Option NodeTree} (h : RootHeld nodes root s) :
    OrderTreeNodes.slotsNeeded s = if root.leafCount = 0 then 1 else 2 := by
  have hlen := h.length_optHandles
  cases s with
  | none =>
    have hzero : root.leafCount = 0 := h
    rw [if_pos hzero]
    rfl
  | some s =>
    have hpos := NodeTree.length_handles_pos s
    have hne : root.leafCount ≠ 0 := by
      intro hzero
      rw [hzero] at hlen
      exact absurd hlen (Nat.ne_of_gt hpos)
    rw [if_neg hne]
    rfl

namespace BookSide

/-- Leaves of one tree, as its root counts them. -/
def leafCount (b : BookSide) (c : BookSideOrderTree) : Nat := (b.roots c).leafCount

/-- Slots taken by the two trees. -/
def slotsUsed (b : BookSide) : Nat :=
  (2 * b.leafCount .fixed - 1) + (2 * b.leafCount .oraclePegged - 1)

theorem slotsUsed_of (b : BookSide) (c : BookSideOrderTree) :
    b.slotsUsed = (2 * b.leafCount c - 1) + (2 * b.leafCount c.other - 1) := by
  cases c with
  | fixed => rfl
  | oraclePegged => exact Nat.add_comm ..

section Slots

variable {b : BookSide} {tree : BookSideOrderTree → Option NodeTree} {free : List NodeHandle}

theorem Layout.leafCount_eq (h : Layout b tree free) (c : BookSideOrderTree) :
    b.leafCount c = (optOrders (tree c)).length :=
  (h.held c).leafCount_eq

/-- The slots below the bump index are in use or on the free list. -/
theorem Layout.slotsUsed_add (h : Layout b tree free) :
    b.slotsUsed + b.nodes.freeListLen = b.nodes.bumpIndex := by
  have hadd := h.arena.length_add
  rw [length_append, (h.held _).length_optHandles, (h.held _).length_optHandles] at hadd
  rw [h.arena.len]
  exact hadd

theorem WellFormed.slotsUsed_le (h : b.WellFormed) : b.slotsUsed ≤ MAX_ORDERTREE_NODES := by
  obtain ⟨tree, free, h⟩ := h
  have hadd := h.slotsUsed_add
  have hbump := h.arena.bump_le
  omega

/-- A side that is not full has two slots left. -/
theorem WellFormed.slotsUsed_of_not_full (h : b.WellFormed) (hfull : b.isFull = false) :
    b.slotsUsed + 2 ≤ MAX_ORDERTREE_NODES := by
  obtain ⟨tree, free, h⟩ := h
  have hadd := h.slotsUsed_add
  have hbump := h.arena.bump_le
  have hnot := of_decide_eq_false hfull
  omega

/-- A full side has at most two slots left. -/
theorem WellFormed.slotsUsed_of_full (h : b.WellFormed) (hfull : b.isFull = true) :
    MAX_ORDERTREE_NODES ≤ b.slotsUsed + 2 := by
  obtain ⟨tree, free, h⟩ := h
  have hadd := h.slotsUsed_add
  have hyes := of_decide_eq_true hfull
  omega

end Slots

/-! ## When an insertion is rejected -/

/-- `insert_leaf` returns an error. -/
def Rejects (b : BookSide) (c : BookSideOrderTree) (leaf : LeafNode) : Prop :=
  ∃ e b', b.insertLeaf c leaf = .ok (.error e, b')

/-- `insert_leaf` returns `Ok`. -/
def Accepts (b : BookSide) (c : BookSideOrderTree) (leaf : LeafNode) : Prop :=
  ∃ r b', b.insertLeaf c leaf = .ok (.ok r, b')

/-- No order of the tree has the leaf's key. -/
def FreshFor (b : BookSide) (c : BookSideOrderTree) (leaf : LeafNode) : Prop :=
  ∀ o, IsLeafOf b c o → o.key ≠ leaf.key

/-- The expiry times that an insertion into the tree computes fit. -/
def ExpiriesFit (b : BookSide) (c : BookSideOrderTree) (leaf : LeafNode) : Prop :=
  leaf.ExpiryFits ∧ ∀ o, IsLeafOf b c o → o.ExpiryFits

theorem freshFor_iff {b : BookSide} {tree : BookSideOrderTree → Option NodeTree}
    {free : List NodeHandle} (h : Layout b tree free) (c : BookSideOrderTree) (leaf : LeafNode) :
    FreshFor b c leaf ↔ leaf.key ∉ (optOrders (tree c)).map LeafNode.key := by
  unfold FreshFor
  simp only [isLeafOf_iff h, mem_map, not_exists, not_and]

/-- Rejection means a new key and too few slots, and nothing else. -/
theorem rejects_iff {b : BookSide} (hwf : b.WellFormed) (c : BookSideOrderTree)
    (leaf : LeafNode) :
    b.Rejects c leaf ↔ b.FreshFor c leaf ∧
      MAX_ORDERTREE_NODES < b.slotsUsed + if b.leafCount c = 0 then 1 else 2 := by
  obtain ⟨tree, free, h⟩ := hwf
  have hout := insertLeaf_outcome h c leaf
  have hused : b.slotsUsed = (optHandles (tree c)).length + (optHandles (tree c.other)).length := by
    rw [slotsUsed_of b c, (h.held c).length_optHandles, (h.held c.other).length_optHandles]
    rfl
  rw [freshFor_iff h, hused, leafCount, ← (h.held c).slotsNeeded_eq]
  unfold Rejects
  generalize b.insertLeaf c leaf = r at hout ⊢
  cases hout with
  | overflow _ hroom =>
    refine ⟨?_, ?_⟩
    · rintro ⟨e, b', hr⟩
      cases hr
    · rintro ⟨hnew, hfull⟩
      rcases hroom with hold | hroom
      · exact absurd hold hnew
      · omega
  | noSpace _ _ hfull hnew => exact ⟨fun _ => ⟨hnew, hfull⟩, fun _ => ⟨_, _, rfl⟩⟩
  | @done x old b' s' free' hlayout _ hins =>
    refine ⟨?_, ?_⟩
    · rintro ⟨e, b'', hr⟩
      cases hr
    · rintro ⟨hnew, hfull⟩
      rcases hins with ⟨-, -, hperm⟩ | ⟨o, others, -, hkey, hperm, -⟩
      · -- the side after the insertion would not fit into the array
        exfalso
        have hle := WellFormed.slotsUsed_le ⟨_, _, hlayout⟩
        have hcount : b'.leafCount c = b.leafCount c + 1 := by
          rw [hlayout.leafCount_eq, h.leafCount_eq, update_self]
          exact hperm.length_eq
        have hother : b'.leafCount c.other = b.leafCount c.other := by
          rw [hlayout.leafCount_eq, h.leafCount_eq, update_of_ne (Layout.roots_ne c)]
        rw [slotsUsed_of b' c, hcount, hother] at hle
        rw [slotsUsed_of b c] at hused
        rw [← hused, (h.held c).slotsNeeded_eq, ← leafCount] at hfull
        split at hfull <;> omega
      · exact absurd (hkey ▸ mem_map_of_mem (hperm.mem_iff.mpr (mem_cons_self ..))) hnew

/-- Without an overflow an insertion is accepted or rejected. -/
theorem accepts_iff {b : BookSide} (hwf : b.WellFormed) {c : BookSideOrderTree}
    {leaf : LeafNode} (hfits : b.ExpiriesFit c leaf) : b.Accepts c leaf ↔ ¬ b.Rejects c leaf := by
  obtain ⟨tree, free, h⟩ := hwf
  have hout := insertLeaf_outcome h c leaf
  unfold Accepts Rejects
  generalize b.insertLeaf c leaf = r at hout ⊢
  cases hout with
  | overflow hbad _ =>
    obtain ⟨o, ho, hbad⟩ := hbad
    rcases mem_cons.mp ho with rfl | ho
    · exact absurd hfits.1 hbad
    · exact absurd (hfits.2 o ((isLeafOf_iff h c o).mpr ho)) hbad
  | noSpace _ _ _ _ =>
    refine ⟨?_, fun hnot => absurd ⟨_, _, rfl⟩ hnot⟩
    rintro ⟨r, b', hr⟩
    cases hr
  | done _ _ _ =>
    refine ⟨?_, fun _ => ⟨_, _, rfl⟩⟩
    rintro - ⟨e, b', hr⟩
    cases hr

/-- `insert_leaf` returns an error exactly if `p` holds, and `Ok` otherwise. -/
def RejectsExactly (b : BookSide) (c : BookSideOrderTree) (leaf : LeafNode) (p : Prop) : Prop :=
  (b.Rejects c leaf ↔ p) ∧ (b.ExpiriesFit c leaf → (b.Accepts c leaf ↔ ¬ p))

theorem rejectsExactly {b : BookSide} (hwf : b.WellFormed) {c : BookSideOrderTree}
    {leaf : LeafNode} {p : Prop}
    (hp : MAX_ORDERTREE_NODES < b.slotsUsed + (if b.leafCount c = 0 then 1 else 2) ↔ p) :
    b.RejectsExactly c leaf (b.FreshFor c leaf ∧ p) := by
  have hrejects := rejects_iff hwf c leaf
  rw [hp] at hrejects
  refine ⟨hrejects, fun hfits => ?_⟩
  rw [accepts_iff hwf hfits, hrejects]

/-! ## After room has been made -/

/-- `remove_worst` takes one leaf from one of the trees, `c` or the other one. -/
theorem removeWorst_leafCount {b b' : BookSide} (hwf : b.WellFormed) {nowTs : Nat}
    {oracle : Int} {r : LeafNode × Int}
    (h : b.removeWorst nowTs oracle = .ok (some r, b')) (c : BookSideOrderTree) :
    b'.WellFormed ∧
      ((b.leafCount c = b'.leafCount c + 1 ∧ b'.leafCount c.other = b.leafCount c.other) ∨
        (b'.leafCount c = b.leafCount c ∧ b.leafCount c.other = b'.leafCount c.other + 1)) := by
  obtain ⟨tree, free, hl⟩ := hwf
  have hout := removeWorst_outcome hl nowTs oracle
  rw [h] at hout
  generalize hr : (Except.ok (some r, b') : Exec _) = out at hout
  cases hout with
  | overflow _ => cases hr
  | price _ _ _ _ => cases hr
  | empty _ => cases hr
  | @removed c₁ x b₁ s' free' _ _ hlayout _ hperm =>
    obtain ⟨-, rfl⟩ := ok_inj₂ hr
    have hone : b.leafCount c₁ = b'.leafCount c₁ + 1 := by
      rw [hl.leafCount_eq, hlayout.leafCount_eq, update_self]
      exact hperm.length_eq
    have hsame : ∀ c', c' ≠ c₁ → b'.leafCount c' = b.leafCount c' := by
      intro c' hne
      rw [hl.leafCount_eq, hlayout.leafCount_eq, update_of_ne hne]
    refine ⟨⟨_, _, hlayout⟩, ?_⟩
    by_cases hc : c = c₁
    · subst hc
      exact Or.inl ⟨hone, hsame _ (Layout.roots_ne c)⟩
    · obtain rfl : c₁ = c.other := by
        cases c <;> cases c₁ <;> first | rfl | exact absurd rfl hc
      exact Or.inr ⟨hsame c hc, hone⟩

/-- The tree has 512 leaves, which take all slots but one, and the other tree is empty. -/
def Crowded (b : BookSide) (c : BookSideOrderTree) : Prop :=
  b.leafCount c = 512 ∧ b.leafCount c.other = 0

/-- The side has two slots left. -/
theorem rejectsExactly_of_room {b : BookSide} (hwf : b.WellFormed) (hfull : b.isFull = false)
    (c : BookSideOrderTree) (leaf : LeafNode) :
    b.RejectsExactly c leaf (b.FreshFor c leaf ∧ b.Crowded c) := by
  have hle := hwf.slotsUsed_of_not_full hfull
  refine rejectsExactly hwf ⟨fun hlt => ?_, fun hcrowded => ?_⟩
  · split at hlt <;> omega
  · have hused := slotsUsed_of b c
    rw [hcrowded.1, hcrowded.2] at hused
    simp only [MAX_ORDERTREE_NODES] at hle
    omega

/-- The side was full, and its worst order has been dropped. -/
theorem rejectsExactly_of_dropped {b b' : BookSide} (hwf : b.WellFormed)
    (hfull : b.isFull = true) {nowTs : Nat} {oracle : Int} {r : LeafNode × Int}
    (h : b.removeWorst nowTs oracle = .ok (some r, b')) (c : BookSideOrderTree)
    (leaf : LeafNode) : b'.RejectsExactly c leaf (b'.FreshFor c leaf ∧ b'.Crowded c) := by
  obtain ⟨hwf', hcounts⟩ := removeWorst_leafCount hwf h c
  have hle := hwf.slotsUsed_le
  have hge := hwf.slotsUsed_of_full hfull
  refine rejectsExactly hwf' ?_
  rw [slotsUsed_of b c] at hle hge
  rw [slotsUsed_of b' c]
  simp only [Crowded, MAX_ORDERTREE_NODES] at hle hge ⊢
  -- a leaf dropped from the tree of the new leaf leaves room for that one
  split <;> omega

/-- Making room ends with a side that is not full, or with the worst order
    dropped from a full one. -/
theorem makeRoom_cases {b b' : BookSide} (hwf : b.WellFormed) {side : Side}
    {target : BookSideOrderTree} {priceLots oracle : Int} {nowTs : Nat}
    {q q' : EventQueue}
    (h : makeRoom b side target priceLots nowTs oracle q = .ok (b', q')) :
    (b'.WellFormed ∧ b'.isFull = false) ∨
    ∃ (b₁ : BookSide) (r : LeafNode × Int), b₁.WellFormed ∧ b₁.isFull = true ∧
      b₁.removeWorst nowTs oracle = .ok (some r, b') := by
  obtain ⟨⟨expired, b₁⟩, hexpired, h⟩ := of_bind h
  obtain ⟨q₁, -, h⟩ := of_bind h
  have hwf₁ : b₁.WellFormed := by
    rcases removeOneExpired_spec hwf hexpired with ⟨-, rfl⟩ | ⟨_, _, _, _, _, hb₁⟩
    · exact hwf
    · exact hb₁.wf
  split at h
  · rename_i hfull
    obtain ⟨⟨worst, b₂⟩, hworst, h⟩ := of_bind h
    obtain ⟨r, hunwrap, h⟩ := of_bind h
    obtain ⟨_, -, h⟩ := of_bind h
    obtain ⟨q₂, -, h⟩ := of_bind h
    obtain ⟨rfl, -⟩ := ok_inj₂ h
    rw [unwrap_eq_ok.mp hunwrap] at hworst
    exact Or.inr ⟨b₁, r, hwf₁, hfull, hworst⟩
  · rename_i hfull
    obtain ⟨rfl, -⟩ := ok_inj₂ h
    exact Or.inl ⟨hwf₁, Bool.eq_false_iff.mpr hfull⟩

theorem insertLeaf_freeListLen {b b' : BookSide} {c : BookSideOrderTree} {leaf : LeafNode}
    {r : NodeHandle × Option LeafNode} (h : b.insertLeaf c leaf = .ok (.ok r, b')) :
    b'.nodes.freeListLen ≤ b.nodes.freeListLen := by
  obtain ⟨⟨r, nodes, root⟩, hinsert, h⟩ := of_bind h
  obtain ⟨rfl, rfl⟩ := ok_inj₂ h
  exact OrderTreeNodes.insertLeaf_freeListLen hinsert

/-- The error of a rejected insertion. -/
theorem insertLeaf_error {b b' : BookSide} (hwf : b.WellFormed) {c : BookSideOrderTree}
    {leaf : LeafNode} {e : MangoError} (h : b.insertLeaf c leaf = .ok (.error e, b')) :
    e = .someError := by
  obtain ⟨tree, free, hl⟩ := hwf
  have hout := insertLeaf_outcome hl c leaf
  rw [h] at hout
  cases hout with
  | noSpace _ _ _ _ => rfl

/-- The roots count the orders of the side. -/
theorem WellFormed.leafCount_eq {b : BookSide} (hwf : b.WellFormed) (c : BookSideOrderTree) :
    b.leafCount c = b.leaves.countP fun x => x.1 = c := by
  obtain ⟨tree, free, h⟩ := hwf
  rw [h.leafCount_eq, leaves_eq h, tagBoth, Multiset.countP_add, Multiset.countP_map,
    Multiset.countP_map]
  cases c with
  | fixed => simp
  | oraclePegged => simp

/-- Orders without an expiry time are not dropped. -/
theorem removeOneExpired_eq_none {b : BookSide} (hwf : b.WellFormed) (c : BookSideOrderTree)
    {nowTs : Nat} (hnow : nowTs < 2 ^ 64) (hnone : ∀ x ∈ b.leaves, x.2.timeInForce = 0) :
    b.removeOneExpired c nowTs = .ok (none, b) := by
  obtain ⟨tree, free, h⟩ := hwf
  have hnone : ∀ c, ∀ o ∈ optOrders (tree c), o.timeInForce = 0 :=
    fun c o ho => hnone (c, o) ((mem_leaves h c o).mpr ho)
  have hout := removeOneExpired_outcome h c nowTs
  generalize b.removeOneExpired c nowTs = r at hout ⊢
  cases hout with
  | overflow hbad =>
    obtain ⟨c, o, ho, hbad⟩ := hbad
    exact absurd (Or.inl (hnone c o ho)) hbad
  | kept => rfl
  | removed _ _ hperm hexpired =>
    obtain ⟨e, he, hexpiry⟩ := hexpired
    have htif := hnone _ _ (hperm.mem_iff.mpr (mem_cons_self ..))
    rw [LeafNode.expiry, if_pos htif] at hexpiry
    obtain rfl := ok_inj hexpiry
    simp only [U64_MAX] at he
    omega

/-- A side with room and without expiring orders is left as it is. -/
theorem makeRoom_eq {b : BookSide} (hwf : b.WellFormed) (side : Side) (c : BookSideOrderTree)
    (priceLots oracle : Int) {nowTs : Nat} (q : EventQueue) (hnow : nowTs < 2 ^ 64)
    (hnone : ∀ x ∈ b.leaves, x.2.timeInForce = 0) (hfull : b.isFull = false) :
    makeRoom b side c priceLots nowTs oracle q = .ok (b, q) := by
  simp only [makeRoom, removeOneExpired_eq_none hwf c hnow hnone, ok_bind, hfull]
  rfl

end BookSide

/-! ## A side where a better order is rejected -/

/-- An ask at 20, or one pegged 10 above the oracle price. -/
def crowdOrder : BookSideOrderTree → Order
  | .fixed => .plain .ask ⟨20, by decide⟩ 1 100
  | .oraclePegged => { Order.plain .ask ⟨20, by decide⟩ 1 100 with
      params := .oraclePegged ⟨10, by decide⟩ .limit ⟨-1, by decide⟩ }

/-- Its price while the oracle price is 20. -/
def crowdPrice : BookSideOrderTree → Int
  | .fixed => 20
  | .oraclePegged => 30

def crowdData : BookSideOrderTree → BitVec 64
  | .fixed => 20
  | .oraclePegged => oraclePeggedPriceData 10

def crowdKey (c : BookSideOrderTree) (seqNum : Nat) : Key :=
  newNodeKey .ask (crowdData c) (BitVec.ofNat 64 seqNum)

theorem crowdKey_inj {c c' : BookSideOrderTree} {n n' : Nat} (hn : n < 2 ^ 64)
    (hn' : n' < 2 ^ 64) (h : crowdKey c n = crowdKey c' n') : c = c' ∧ n = n' := by
  obtain ⟨hdata, hseq⟩ := newNodeKey_inj h
  refine ⟨?_, ?_⟩
  · cases c <;> cases c' <;> first | rfl | exact absurd hdata (by decide)
  · have hnat := congrArg BitVec.toNat hseq
    rwa [BitVec.toNat_ofNat, BitVec.toNat_ofNat, Nat.mod_eq_of_lt hn, Nat.mod_eq_of_lt hn'] at hnat

/-- The market after `n` orders. -/
def marketAfter (n : Nat) : PerpMarket := { PerpMarket.plain 0 with seqNum := n }

/-- A book without bids. -/
def askBook (asks : BookSide) : Orderbook := ⟨.zeroed .bids, asks⟩

/-- Places an order at time 0, for an account of its own. -/
def placeAsk (c : BookSideOrderTree) (book : Orderbook) (market : PerpMarket) (q : EventQueue) :
    Exec (Option Key × Orderbook × PerpMarket × EventQueue × MangoAccount) :=
  book.newOrder (crowdOrder c) market q (.ofSmall 20) (.plain 0)
    (BitVec.ofNat 256 market.seqNum) 0 10

def placeAsks : List BookSideOrderTree → Orderbook → PerpMarket → EventQueue →
    Exec (Orderbook × PerpMarket × EventQueue)
  | [], book, market, q => .ok (book, market, q)
  | c :: cs, book, market, q => do
    let (_, book, market, q, _) ← placeAsk c book market q
    placeAsks cs book market q

theorem placeAsks_cons {c : BookSideOrderTree} (cs : List BookSideOrderTree)
    {book book' : Orderbook} {market market' : PerpMarket} {q q' : EventQueue}
    {posted : Option Key} {account : MangoAccount}
    (h : placeAsk c book market q = .ok (posted, book', market', q', account)) :
    placeAsks (c :: cs) book market q = placeAsks cs book' market' q' := by
  rw [placeAsks, h]
  rfl

/-- The leaf of the order placed after `n` others. -/
def crowdLeaf (c : BookSideOrderTree) (n : Nat) : LeafNode :=
  newLeaf (crowdOrder c) 0 (crowdKey c (n + 1)) (BitVec.ofNat 256 n) 1 0

theorem crowdOrder_post (c : BookSideOrderTree) (b : BookSide) (n : Nat) (q : EventQueue)
    (accountPk : Pubkey) (orderId : Key) :
    (askBook b).postRemainder (crowdOrder c) (marketAfter n) (.start (crowdOrder c) 10 q)
        (.ofSmall 20) 20 (crowdPrice c) orderId (.plain 0) accountPk 0 = (do
      let (b, q) ← makeRoom b .ask c (crowdPrice c) 0 20 q
      let (b, account) ← postLeaf b c (crowdOrder c) 0 (.plain 0) accountPk orderId 1 0
      return (some orderId, askBook b, q, account)) := by
  cases c <;> rfl

/-- There are no bids to match. -/
theorem placeAsk_rest (c : BookSideOrderTree) (b : BookSide) {n : Nat} (q : EventQueue)
    (hn : n + 1 < 2 ^ 64) :
    placeAsk c (askBook b) (marketAfter n) q = (do
      let (posted, book, q, account) ← (askBook b).postRemainder (crowdOrder c)
        (marketAfter (n + 1)) (.start (crowdOrder c) 10 q) (.ofSmall 20) 20 (crowdPrice c)
        (crowdKey c (n + 1)) (.plain 0) (BitVec.ofNat 256 n) 0
      return (posted, book, marketAfter (n + 1), q, account)) := by
  have hlot : (marketAfter n).nativePriceToLot (.ofSmall 20) = .ok 20 := rfl
  have hprice : (crowdOrder c).price 0 20 (askBook b) = .ok (crowdPrice c, crowdData c) := by
    cases c <;> rfl
  have hid : (marketAfter n).genOrderId (crowdOrder c).side (crowdData c) =
      .ok (crowdKey c (n + 1), marketAfter (n + 1)) := by
    have hside : (crowdOrder c).side = .ask := by cases c <;> rfl
    rw [hside, PerpMarket.genOrderId, show (marketAfter n).seqNum = n from rfl,
      checkU64_eq_ok.mpr ⟨hn, rfl⟩]
    rfl
  unfold placeAsk Orderbook.newOrder
  rw [hlot, ok_bind, hprice, ok_bind]
  simp only [hid, ok_bind]
  cases c <;> rfl

/-- All of the order is posted. -/
theorem placeAsk_eq (c : BookSideOrderTree) (b : BookSide) {n : Nat} (q : EventQueue)
    (hn : n + 1 < 2 ^ 64) :
    placeAsk c (askBook b) (marketAfter n) q = (do
      let (b, q) ← makeRoom b .ask c (crowdPrice c) 0 20 q
      let (b, account) ← postLeaf b c (crowdOrder c) 0 (.plain 0) (BitVec.ofNat 256 n)
        (crowdKey c (n + 1)) 1 0
      return (some (crowdKey c (n + 1)), askBook b, marketAfter (n + 1), q, account)) := by
  have hpost := crowdOrder_post c b (n + 1) q (BitVec.ofNat 256 n) (crowdKey c (n + 1))
  rw [placeAsk_rest c b q hn, hpost, bind_assoc]
  congr 1
  funext r
  exact bind_assoc ..

/-- An order that has room is posted. -/
theorem placeAsk_of_room {c : BookSideOrderTree} {b : BookSide} {n : Nat} (q : EventQueue)
    (hn : n + 1 < 2 ^ 64) (hwf : b.WellFormed) (hnone : ∀ x ∈ b.leaves, x.2.timeInForce = 0)
    (hfull : b.isFull = false) (hfresh : ∀ x ∈ b.leaves, x.2.key ≠ crowdKey c (n + 1)) :
    ∃ b' account, placeAsk c (askBook b) (marketAfter n) q =
        .ok (some (crowdKey c (n + 1)), askBook b', marketAfter (n + 1), q, account) ∧
      b.Becomes b' ((c, crowdLeaf c n) ::ₘ b.leaves) ∧
      b'.nodes.freeListLen ≤ b.nodes.freeListLen := by
  have hroom := makeRoom_eq hwf .ask c (crowdPrice c) 20 q (show 0 < 2 ^ 64 by decide) hnone
    hfull
  have hfits : b.ExpiriesFit c (crowdLeaf c n) := by
    refine ⟨Or.inl ?_, fun o ho => Or.inl (hnone (c, o) ((hwf.isLeafOf_iff c o).mp ho))⟩
    cases c <;> rfl
  have hrejects := (rejectsExactly_of_room hwf hfull c (crowdLeaf c n)).2 hfits
  have hnot : ¬ b.Crowded c := by
    rintro ⟨h1, h2⟩
    have hle := hwf.slotsUsed_of_not_full hfull
    rw [slotsUsed_of b c, h1, h2, MAX_ORDERTREE_NODES] at hle
    omega
  obtain ⟨r, b', hinsert⟩ := hrejects.mpr fun h => hnot h.2
  obtain ⟨account, hadd⟩ : ∃ account, (MangoAccount.plain 0).addPerpOrder 0 (crowdOrder c).side c
      (crowdLeaf c n) = .ok account := by
    cases c <;> exact ⟨_, rfl⟩
  refine ⟨b', account, ?_, ?_, insertLeaf_freeListLen hinsert⟩
  · have hpost : postLeaf b c (crowdOrder c) 0 (.plain 0) (BitVec.ofNat 256 n)
        (crowdKey c (n + 1)) 1 0 = .ok (b', account) := by
      show (b.insertLeaf c (crowdLeaf c n) >>= fun _ => _) = _
      rw [hinsert, ok_bind]
      show ((MangoAccount.plain 0).addPerpOrder 0 _ c (crowdLeaf c n) >>= fun _ => _) = _
      rw [hadd]
      rfl
    rw [placeAsk_eq c b q hn, hroom, ok_bind]
    simp only [hpost, ok_bind]
    rfl
  · refine (insertLeaf_spec hwf hinsert).2 ?_
    exact fun o ho => hfresh (c, o) ho

/-- A side with one pegged ask and `k` fixed ones, placed in this order. -/
structure Crowd (k : Nat) (b : BookSide) : Prop where
  wf : b.WellFormed
  type_eq : b.nodes.orderTreeType = .asks
  free : b.nodes.freeListLen = 0
  leaves : b.leaves = (.oraclePegged, crowdLeaf .oraclePegged 0) ::ₘ
    (Multiset.range k).map fun i => (.fixed, crowdLeaf .fixed (i + 1))

namespace Crowd

variable {k : Nat} {b : BookSide}

theorem mem (h : Crowd k b) {x : BookSideOrderTree × LeafNode} (hx : x ∈ b.leaves) :
    x = (.oraclePegged, crowdLeaf .oraclePegged 0) ∨
      ∃ i < k, x = (.fixed, crowdLeaf .fixed (i + 1)) := by
  rw [h.leaves, Multiset.mem_cons, Multiset.mem_map] at hx
  rcases hx with rfl | ⟨i, hi, rfl⟩
  · exact Or.inl rfl
  · exact Or.inr ⟨i, Multiset.mem_range.mp hi, rfl⟩

theorem timeInForce (h : Crowd k b) : ∀ x ∈ b.leaves, x.2.timeInForce = 0 := by
  intro x hx
  rcases h.mem hx with rfl | ⟨i, -, rfl⟩
  · rfl
  · rfl

theorem leafCount (h : Crowd k b) :
    b.leafCount .fixed = k ∧ b.leafCount .oraclePegged = 1 := by
  rw [h.wf.leafCount_eq, h.wf.leafCount_eq, h.leaves]
  simp [Multiset.countP_map]

theorem isFull_eq (h : Crowd k b) : b.isFull = decide (512 ≤ k) := by
  obtain ⟨tree, free, hl⟩ := h.wf
  have hadd := hl.slotsUsed_add
  rw [h.free, slotsUsed, h.leafCount.1, h.leafCount.2] at hadd
  show decide (b.nodes.freeListLen ≤ 1 ∧ MAX_ORDERTREE_NODES - 1 ≤ b.nodes.bumpIndex) = _
  rw [h.free, ← hadd, MAX_ORDERTREE_NODES]
  apply decide_eq_decide.mpr
  omega

/-- The key of the next fixed ask is new. -/
theorem fresh (h : Crowd k b) (hk : k ≤ 512) :
    ∀ x ∈ b.leaves, x.2.key ≠ crowdKey .fixed (k + 2) := by
  intro x hx hkey
  rcases h.mem hx with rfl | ⟨i, hi, rfl⟩
  · obtain ⟨hc, -⟩ := crowdKey_inj (by omega) (by omega) hkey
    cases hc
  · obtain ⟨-, hseq⟩ := crowdKey_inj (by omega) (by omega) hkey
    omega

/-- One more fixed ask, as long as there is room. -/
theorem step (h : Crowd k b) (hk : k < 512) (q : EventQueue) :
    ∃ b' account, placeAsk .fixed (askBook b) (marketAfter (k + 1)) q =
        .ok (some (crowdKey .fixed (k + 2)), askBook b', marketAfter (k + 2), q, account) ∧
      Crowd (k + 1) b' := by
  have hfull : b.isFull = false := h.isFull_eq.trans (decide_eq_false (by omega))
  obtain ⟨b', account, hrun, hb, hfree⟩ :=
    placeAsk_of_room q (by omega) h.wf h.timeInForce hfull (h.fresh (Nat.le_of_lt hk))
  refine ⟨b', account, hrun, hb.wf, hb.type_eq.trans h.type_eq, ?_, ?_⟩
  · have hzero := h.free
    omega
  · rw [hb.leaves_eq, h.leaves, Multiset.range_succ, Multiset.map_cons, Multiset.cons_swap]

theorem run (q : EventQueue) : ∀ (m : Nat) {k : Nat} {b : BookSide}, Crowd k b → k + m ≤ 512 →
    ∃ b', placeAsks (replicate m .fixed) (askBook b) (marketAfter (k + 1)) q =
        .ok (askBook b', marketAfter (k + m + 1), q) ∧ Crowd (k + m) b' := by
  intro m
  induction m with
  | zero =>
    intro k b h _
    exact ⟨b, rfl, h⟩
  | succ m ih =>
    intro k b h hle
    obtain ⟨b₁, account, hplace, h₁⟩ := h.step (by omega) q
    obtain ⟨b', hrest, h'⟩ := ih h₁ (by omega)
    have heq : k + 1 + m = k + (m + 1) := by omega
    rw [heq] at hrest h'
    refine ⟨b', ?_, h'⟩
    rw [replicate_succ, placeAsks_cons _ hplace]
    exact hrest

/-- The pegged ask comes first. -/
theorem start (q : EventQueue) :
    ∃ b account, placeAsk .oraclePegged (askBook (.zeroed .asks)) (marketAfter 0) q =
        .ok (some (crowdKey .oraclePegged 1), askBook b, marketAfter 1, q, account) ∧
      Crowd 0 b := by
  have hempty := leaves_zeroed .asks
  obtain ⟨b, account, hrun, hb, hfree⟩ := placeAsk_of_room (c := .oraclePegged) (n := 0) q
    (by decide) (wellFormed_zeroed .asks) (by simp [hempty]) rfl (by simp [hempty])
  refine ⟨b, account, hrun, hb.wf, hb.type_eq, Nat.le_zero.mp hfree, ?_⟩
  rw [hb.leaves_eq, hempty]
  rfl

/-- An ask at 20 matches before the pegged ask at 30. -/
theorem fixedFirst_eq (i : Nat) :
    fixedFirst .ask 20 (crowdLeaf .fixed i) (crowdLeaf .oraclePegged 0) = true := by
  have hprice : (oraclePeggedPrice 20 (crowdLeaf .oraclePegged 0) .ask).2 = 30 := by decide
  apply decide_eq_true
  show newNodeKey .ask 20 (BitVec.ofNat 64 (i + 1)) < fixedPriceKey _ _
  rw [hprice, BitVec.lt_def, fixedPriceKey_toNat, newNodeKey, toNat_join]
  have h20 : (20 : BitVec 64).toNat = 20 := rfl
  have h30 : (BitVec.ofInt 64 30).toNat = 30 := rfl
  omega

/-- The pegged ask is the worst one, at a price of 30. -/
theorem removeWorst_eq (h : Crowd k b) :
    ∃ b', b.removeWorst 0 20 = .ok (some (crowdLeaf .oraclePegged 0, 30), b') ∧
      b'.leafCount .oraclePegged = 0 := by
  obtain ⟨tree, free, hl⟩ := h.wf
  have hmem : ∀ {c o}, o ∈ optOrders (tree c) → (c, o) ∈ b.leaves :=
    fun ho => (mem_leaves hl _ _).mpr ho
  have hpegged : ∀ {o}, o ∈ optOrders (tree .oraclePegged) → o = crowdLeaf .oraclePegged 0 := by
    intro o ho
    rcases h.mem (hmem ho) with heq | ⟨i, -, heq⟩
    · exact (Prod.mk.inj heq).2
    · cases (Prod.mk.inj heq).1
  have hfixed : ∀ {o}, o ∈ optOrders (tree .fixed) → ∃ i, o = crowdLeaf .fixed (i + 1) := by
    intro o ho
    rcases h.mem (hmem ho) with heq | ⟨i, -, heq⟩
    · cases (Prod.mk.inj heq).1
    · exact ⟨i, (Prod.mk.inj heq).2⟩
  obtain ⟨y, hy⟩ : ∃ y, (tree .oraclePegged).map b.worstLeaf = some y := by
    have hthere : (.oraclePegged, crowdLeaf .oraclePegged 0) ∈ b.leaves := by
      rw [h.leaves]
      exact Multiset.mem_cons_self ..
    rw [mem_leaves hl] at hthere
    cases hs : tree .oraclePegged with
    | none =>
      rw [hs] at hthere
      cases hthere
    | some s => exact ⟨_, rfl⟩
  have hside : b.side = .ask := by
    unfold side
    rw [h.type_eq]
    rfl
  have hout := removeWorst_outcome hl 0 20
  generalize b.removeWorst 0 20 = r at hout ⊢
  -- a fixed ask cannot be picked while the pegged one is there
  have hnot : ∀ x : LeafCell, x.2 ∈ optOrders (tree .fixed) →
      picksFixed b.side 20 true x.2 ((tree .oraclePegged).map b.worstLeaf) = false := by
    intro x hx
    obtain ⟨i, hi⟩ := hfixed hx
    rw [hy, hside, picksFixed, hi, hpegged (worstLeaf_mem hy), fixedFirst_eq]
    rfl
  cases hout with
  | overflow hbad =>
    obtain ⟨c, o, ho, hbad⟩ := hbad
    exact absurd (Or.inl (h.timeInForce _ (hmem ho))) hbad
  | price hx _ _ hpick =>
    rw [hnot _ (worstLeaf_mem hx)] at hpick
    cases hpick
  | empty hempty =>
    rw [hempty] at hy
    cases hy
  | @removed c x b' s' free' hx hpick hlayout _ hperm =>
    cases c with
    | fixed =>
      have hpick : picksFixed _ _ _ _ _ = true := hpick
      rw [hnot _ (worstLeaf_mem hx)] at hpick
      cases hpick
    | oraclePegged =>
      refine ⟨b', ?_, ?_⟩
      · have hprice : (oraclePeggedPrice 20 (crowdLeaf .oraclePegged 0) .ask).2 = 30 := by
          decide
        show Except.ok (some (x.2, (oraclePeggedPrice 20 x.2 b.side).2), b') = _
        rw [hpegged (worstLeaf_mem hx), hside, hprice]
      · have hone := h.leafCount.2
        have hlen := hperm.length_eq
        rw [hl.leafCount_eq] at hone
        rw [hlayout.leafCount_eq, update_self]
        rw [length_cons] at hlen
        omega

end Crowd

end MangoV4
