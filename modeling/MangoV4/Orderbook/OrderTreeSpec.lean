/-
  MangoV4.Orderbook.OrderTreeSpec

  What `insert_leaf` and `remove_by_key` do to a root in an array that holds
  well-formed trees.

  Both are stated with a frame: besides the tree of the root at hand, the
  array holds the slots `rest` of everything else, which the operation leaves
  alone (`TreeStep`).  The orders of the tree change as those of a finite map
  would (`Inserted`, a permutation for the removal).
-/

import MangoV4.Orderbook.OrderTreeExpiry

namespace MangoV4

open Lib Lib.Exec Lib.CritBit NodeTree List

/-! ## Roots -/

def optHandles : Option NodeTree → List NodeHandle
  | none => []
  | some s => handles s

def optLeaves : Option NodeTree → List LeafCell
  | none => []
  | some s => s.leaves

def optOrders : Option NodeTree → List LeafNode
  | none => []
  | some s => orders s

theorem optOrders_eq (s : Option NodeTree) : optOrders s = (optLeaves s).map Prod.snd := by
  cases s <;> rfl

/-- The root points at the tree, which is well formed, and counts its leaves. -/
def RootHeld (nodes : NodeHandle → AnyNode) (root : OrderTreeRoot) : Option NodeTree → Prop
  | none => root.leafCount = 0
  | some s => root.maybeNode = NodeTree.root s ∧ root.leafCount = s.leaves.length ∧
      Held nodes s ∧ s.WF nodeKeys

variable {nodes : NodeHandle → AnyNode} {root : OrderTreeRoot}

theorem RootHeld.congr {nodes' : NodeHandle → AnyNode}
    {s : Option NodeTree} (h : RootHeld nodes root s)
    (hsame : ∀ x ∈ optHandles s, nodes' x = nodes x) : RootHeld nodes' root s := by
  cases s with
  | none => exact h
  | some s =>
    obtain ⟨hroot, hcount, hheld, hwf⟩ := h
    exact ⟨hroot, hcount, hheld.congr hsame, hwf⟩

theorem RootHeld.node_none (h : RootHeld nodes root none) : root.node = none := if_pos h

theorem RootHeld.node_some {s : NodeTree}
    (h : RootHeld nodes root (some s)) : root.node = some (NodeTree.root s) := by
  obtain ⟨hroot, hcount, -, -⟩ := h
  have hpos := s.length_leaves_pos
  unfold OrderTreeRoot.node
  rw [if_neg (by omega), hroot]

theorem RootHeld.leafCount_eq {s : Option NodeTree} (h : RootHeld nodes root s) :
    root.leafCount = (optOrders s).length := by
  cases s with
  | none => exact h
  | some s =>
    rw [h.2.1]
    simp [optOrders, orders]

/-- No two orders of a root have the same key. -/
theorem RootHeld.keys_nodup {s : Option NodeTree} (h : RootHeld nodes root s) :
    ((optOrders s).map LeafNode.key).Nodup := by
  cases s with
  | none => exact nodup_nil
  | some s =>
    have hnodup := h.2.2.2.keys_nodup
    rwa [keys_eq] at hnodup

/-- A step on one root: the new tree is in the array, the slots of everything
    else have not changed. -/
structure TreeStep (t : OrderTreeNodes) (rest : List NodeHandle) (t' : OrderTreeNodes)
    (root' : OrderTreeRoot) (s' : Option NodeTree) : Prop where
  arena : ∃ free', Arena t' (optHandles s' ++ rest) free'
  held : RootHeld t'.nodes root' s'
  frame : ∀ x ∈ rest, t'.nodes x = t.nodes x
  type_eq : t'.orderTreeType = t.orderTreeType

/-- `orders'` is `orders` with `leaf` put under its key; `old` is the order
    that was there before. -/
def Inserted (orders : List LeafNode) (leaf : LeafNode) (old : Option LeafNode)
    (orders' : List LeafNode) : Prop :=
  (old = none ∧ leaf.key ∉ orders.map LeafNode.key ∧ orders'.Perm (leaf :: orders)) ∨
  (∃ o others, old = some o ∧ o.key = leaf.key ∧ orders.Perm (o :: others) ∧
    orders'.Perm (leaf :: others))

theorem Arena.congr {t t' : OrderTreeNodes} {owned free : List NodeHandle}
    (h : Arena t owned free) (hlen : t'.freeListLen = t.freeListLen)
    (hhead : t'.freeListHead = t.freeListHead) (hbump : t'.bumpIndex = t.bumpIndex)
    (hnodes : ∀ x ∈ free, t'.nodes x = t.nodes x) : Arena t' owned free where
  chain := h.chain.congr hnodes
  len := hlen.trans h.len
  head := fun x hx => hhead.trans (h.head x hx)
  perm := hbump ▸ h.perm
  bump_le := hbump ▸ h.bump_le

/-- The slots of a plugged tree, hole first. -/
theorem Arena.of_plug {t : OrderTreeNodes} {c : List NodeFrame} {s : NodeTree}
    {rest free : List NodeHandle} (h : Arena t (handles (plug c s) ++ rest) free) :
    Arena t (handles s ++ (ctxHandles c ++ rest)) free := by
  refine h.of_perm ?_
  rw [← append_assoc]
  exact (handles_plug_perm c s).append_right rest

namespace OrderTreeNodes

/-! ## Ending an operation with an expiry update -/

variable {t : OrderTreeNodes} {c : List NodeFrame} {rest free : List NodeHandle}
  {root : OrderTreeRoot} {leaf : LeafNode} {e e' n : Nat} {sub : NodeTree}

/-- The array holds the tree `plug c' s`, with the root and the leaves of `plug c s`;
    the slots outside it have not changed. -/
structure Replugged (t : OrderTreeNodes) (rest : List NodeHandle) (c c' : List NodeFrame)
    (s : NodeTree) (t' : OrderTreeNodes) : Prop where
  arena : ∃ free', Arena t' (handles (plug c' s) ++ rest) free'
  held : Held t'.nodes (plug c' s)
  wf : (plug c' s).WF nodeKeys
  root_eq : NodeTree.root (plug c' s) = NodeTree.root (plug c s)
  leaves : (plug c' s).leaves.Perm (plug c s).leaves
  frame : ∀ x ∈ rest, t'.nodes x = t.nodes x
  type_eq : t'.orderTreeType = t.orderTreeType

theorem Replugged.treeStep {t₀ t' : OrderTreeNodes} {c' : List NodeFrame} {s : NodeTree}
    (h : Replugged t rest c c' s t') (hroot : root.maybeNode = NodeTree.root (plug c s))
    (hcount : root.leafCount = (plug c s).leaves.length)
    (hframe : ∀ x ∈ rest, t.nodes x = t₀.nodes x) (htype : t.orderTreeType = t₀.orderTreeType) :
    TreeStep t₀ rest t' root (some (plug c' s)) where
  arena := h.arena
  held := ⟨hroot.trans h.root_eq.symm, hcount.trans h.leaves.length_eq.symm, h.held, h.wf⟩
  frame := fun x hx => (h.frame x hx).trans (hframe x hx)
  type_eq := h.type_eq.trans htype

theorem Replugged.orders_perm {t' : OrderTreeNodes} {c' : List NodeFrame} {s : NodeTree}
    (h : Replugged t rest c c' s t') : (orders (plug c' s)).Perm (orders s ++ ctxOrders c) :=
  (h.leaves.map Prod.snd).trans (orders_plug_perm c s)

/-- After the hole of a context has been rewritten, updating the expiries of
    the context leaves a tree with the rewritten hole. -/
theorem updateExpiry_step {s : NodeTree} (o n : Nat)
    (ha : Arena t (handles s ++ (ctxHandles c ++ rest)) free)
    (hctx : CtxHeld t.nodes (NodeTree.root s) c) (hs : Held t.nodes s)
    (hwf : (plug c s).WF nodeKeys) :
    ∃ t', t.updateParentEarliestExpiry (stackOf c) o n = .ok t' ∧
      Replugged t rest c (updateExpiry c o n) s t' := by
  have hnd := nodup_append.mp ha.nodup
  obtain ⟨hnds, hndcr, hdisj⟩ := nodup_append.mp hnd.1
  obtain ⟨hndc, -, hdisjr⟩ := nodup_append.mp hndcr
  have hlt : ∀ x ∈ ctxHandles c, x < MAX_ORDERTREE_NODES := by
    intro x hx
    exact ha.lt_of_mem_owned (by simp [hx])
  obtain ⟨nodes', hrun, hctx', hsame⟩ :=
    updateParentEarliestExpiry_spec c t (NodeTree.root s) o n hctx hndc hlt
  have hsame_of : ∀ x ∈ handles s, nodes' x = t.nodes x := by
    intro x hx
    exact hsame x fun hxc => hdisj x hx x (mem_append_left _ hxc) rfl
  have hforall := updateExpiry_same c o n
  have hleaves := ctxLeaves_congr hforall
  refine ⟨_, hrun, ⟨free, ?_⟩, ?_, plug_WF_congr hforall hwf, ?_, ?_, ?_, rfl⟩
  · have ha' : Arena { t with nodes := nodes' } (handles s ++ (ctxHandles c ++ rest))
        free := by
      refine ha.congr rfl rfl rfl fun x hx => hsame x fun hxc => ?_
      exact ha.not_mem_free (by simp [hxc]) hx
    refine ha'.of_perm ?_
    rw [← append_assoc]
    have hp := handles_plug_perm (updateExpiry c o n) s
    rw [ctxHandles_updateExpiry] at hp
    exact hp.symm.append_right rest
  · exact (held_plug_iff _ s).mpr ⟨hctx', hs.congr hsame_of⟩
  · rw [root_plug, root_plug, ctxRoot_updateExpiry]
  · have hp := leaves_plug_perm (updateExpiry c o n) s
    rw [hleaves] at hp
    exact hp.trans (leaves_plug_perm c s).symm
  · intro x hx
    exact hsame x fun hxc => hdisjr x hxc x hx rfl

/-! ## Inserting a leaf -/

/-- Slots that a new key takes: one for its leaf and, unless the tree is
    empty, one for the inner node above it. -/
def slotsNeeded : Option NodeTree → Nat
  | none => 1
  | some _ => 2

/-- What `insert_leaf` does to the root with tree `s`. -/
inductive InsertOutcome (t : OrderTreeNodes) (root : OrderTreeRoot) (s : Option NodeTree)
    (rest : List NodeHandle) (leaf : LeafNode) :
    Exec (Except MangoError (NodeHandle × Option LeafNode) × OrderTreeNodes × OrderTreeRoot) → Prop
  /-- an expiry time does not fit into 64 bits; seen once there is a slot for
      the leaf -/
  | overflow (hbad : ∃ o ∈ leaf :: optOrders s, ¬ o.ExpiryFits)
      (hroom : leaf.key ∈ (optOrders s).map LeafNode.key ∨
        (optHandles s ++ rest).length + slotsNeeded s ≤ MAX_ORDERTREE_NODES) :
      InsertOutcome t root s rest leaf (panic .overflow)
  /-- a new key, and too few slots for it -/
  | noSpace {t' : OrderTreeNodes} (hstep : TreeStep t rest t' root s)
      (hfull : MAX_ORDERTREE_NODES < (optHandles s ++ rest).length + slotsNeeded s)
      (hnew : leaf.key ∉ (optOrders s).map LeafNode.key) :
      InsertOutcome t root s rest leaf (.ok (.error .someError, t', root))
  | done {x : NodeHandle} {old : Option LeafNode} {t' : OrderTreeNodes} {root' : OrderTreeRoot}
      {u : NodeTree} (hstep : TreeStep t rest t' root' (some u))
      (hins : Inserted (optOrders s) leaf old (orders u))
      (hdated : OptDated s → Dated u) :
      InsertOutcome t root s rest leaf (.ok (.ok (x, old), t', root'))

theorem insertLeaf_empty
    (ha : Arena t rest free) (hheld : RootHeld t.nodes root none) (leaf : LeafNode) :
    InsertOutcome t root none rest leaf (t.insertLeaf root leaf) := by
  unfold insertLeaf
  rw [hheld.node_none]
  rcases insert_spec ha (.leaf leaf) rfl with
    ⟨hfull, hrun⟩ | ⟨x, t', free', hrun, ha', hslot, hsame, htype⟩
  · simp only [hrun, ok_bind, pure_eq_ok]
    refine .noSpace ⟨⟨free, ha⟩, hheld, fun _ _ => rfl, rfl⟩ ?_ (by simp [optOrders])
    show MAX_ORDERTREE_NODES < rest.length + 1
    omega
  · simp only [hrun, ok_bind, pure_eq_ok]
    refine .done (u := .leaf (x, leaf)) ⟨⟨free', ha'⟩, ⟨rfl, rfl, hslot, trivial⟩, hsame, htype⟩ ?_
      fun _ => trivial
    exact Or.inl ⟨rfl, by simp [optOrders], Perm.refl _⟩

/-- Another order in the place of a leaf, and its expiry in the place of the old one. -/
theorem dated_updateExpiry_leaf {x : LeafCell}
    (h : Dated (plug c (.leaf x))) (he : x.2.expiry = .ok e) (he' : leaf.expiry = .ok e') :
    Dated (plug (updateExpiry c e e') (.leaf (x.1, leaf))) := by
  obtain ⟨-, rfl⟩ := expiry_eq_ok_iff.mp he
  obtain ⟨hfits, rfl⟩ := expiry_eq_ok_iff.mp he'
  obtain ⟨hctx, -, -⟩ := (dated_plug_iff c (.leaf x)).mp h
  have hctx' : CtxDated leaf.expiresAt (updateExpiry c x.2.expiresAt leaf.expiresAt) :=
    updateExpiry_dated hctx (Or.inl rfl)
  exact (dated_plug_iff _ _).mpr ⟨hctx', fun _ => expiriesFit_leaf.mpr hfits, trivial⟩

/-- Overwriting the leaf in the hole of a context. -/
theorem clobberLeaf_outcome {x : LeafCell}
    (ha : Arena t (handles (plug c (.leaf x)) ++ rest) free)
    (hheld : RootHeld t.nodes root (some (plug c (.leaf x)))) (hkey : x.2.key = leaf.key) :
    InsertOutcome t root (some (plug c (.leaf x))) rest leaf
      (t.clobberLeaf root leaf (stackOf c) x.1 x.2) := by
  obtain ⟨hroot, hcount, hplug, hwf⟩ := hheld
  obtain ⟨hctx, hslot⟩ := (held_plug_iff c (.leaf x)).mp hplug
  have hslot : t.nodes x.1 = .leaf x.2 := hslot
  have hperm := orders_plug_perm c (.leaf x)
  have ha' : Arena t (x.1 :: (ctxHandles c ++ rest)) free := ha.of_plug
  have hlt : x.1 < MAX_ORDERTREE_NODES := ha'.lt_of_mem_owned (mem_cons_self ..)
  have hxnot : x.1 ∉ ctxHandles c ++ rest := (nodup_cons.mp (nodup_append.mp ha'.nodup).1).1
  have hxmem : x.2 ∈ orders (plug c (.leaf x)) :=
    hperm.mem_iff.mpr (mem_append_left _ (mem_singleton.mpr rfl))
  have hold : leaf.key ∈ (orders (plug c (.leaf x))).map LeafNode.key := hkey ▸ mem_map_of_mem hxmem
  unfold clobberLeaf
  rw [setNode_eq _ hlt (by rw [hslot]; rfl), ok_bind]
  rcases expiry_cases x.2 with ⟨e, he⟩ | ⟨he, hbad⟩
  swap
  · rw [he]
    exact .overflow ⟨x.2, mem_cons_of_mem _ hxmem, hbad⟩ (Or.inl hold)
  rcases expiry_cases leaf with ⟨e', he'⟩ | ⟨he', hbad⟩
  swap
  · rw [he, ok_bind, he']
    exact .overflow ⟨leaf, mem_cons_self .., hbad⟩ (Or.inl hold)
  rw [he, ok_bind, he', ok_bind]
  -- the new leaf has the old key, so it fits where the old one was
  have hwf' : (plug c (.leaf (x.1, leaf))).WF nodeKeys := by
    refine plug_WF_of_keys hwf trivial ?_
    intro k hk
    obtain rfl : k = leaf.key := by simpa [Tree.keys, Tree.leaves, nodeKeys] using hk
    refine ((plug_WF_iff nodeKeys c (.leaf x)).mp hwf).2.2 leaf.key ?_
    simp [Tree.keys, Tree.leaves, nodeKeys, hkey]
  have hsame : ∀ y, y ∈ _ → (t.setSlot x.1 (.leaf leaf)).nodes y = t.nodes y :=
    update_outside _ hxnot
  have hctx' : CtxHeld (t.setSlot x.1 (.leaf leaf)).nodes x.1 c :=
    hctx.congr fun y hy => hsame y (mem_append_left _ hy)
  have hslot' : (t.setSlot x.1 (.leaf leaf)).nodes x.1 = .leaf leaf := Function.update_self ..
  obtain ⟨t', hrun, hre⟩ := updateExpiry_step (s := .leaf (x.1, leaf)) e e'
    (ha'.setSlot (mem_cons_self ..) (.leaf leaf)) hctx' hslot' hwf'
  rw [hrun, ok_bind, pure_eq_ok]
  refine .done (hre.treeStep ?_ ?_ (fun y hy => hsame y (mem_append_right _ hy)) rfl)
    (Or.inr ⟨x.2, ctxOrders c, rfl, hkey, hperm, hre.orders_perm⟩)
    fun hdated => dated_updateExpiry_leaf hdated he he'
  · rw [hroot, root_plug, root_plug]
    rfl
  · rw [hcount, length_leaves_plug, length_leaves_plug]
    rfl

theorem contents_earliestExpiry_cases (s : NodeTree) :
    (∃ e, (contents s).earliestExpiry = .ok e) ∨
    ((contents s).earliestExpiry = panic .overflow ∧ ∃ o ∈ orders s, ¬ o.ExpiryFits) := by
  cases s with
  | leaf x =>
    rcases expiry_cases x.2 with he | ⟨he, hbad⟩
    · exact Or.inl he
    · exact Or.inr ⟨he, x.2, mem_singleton.mpr rfl, hbad⟩
  | inner i l r => exact Or.inl ⟨_, rfl⟩

/-- The inner node that `insert_leaf` puts above the new leaf at `x` and the
    old subtree, moved to `y`. -/
def splitNode (leaf : LeafNode) (n : Nat) (x y : NodeHandle) (e e' : Nat) : InnerNode :=
  let bit := leaf.key.getMsbD n
  { InnerNode.new n leaf.key with
    children := ((InnerNode.new n leaf.key).children.set bit x).set (!bit) y
    childEarliestExpiry :=
      ((InnerNode.new n leaf.key).childEarliestExpiry.set bit e).set (!bit) e' }

/-- The frame around the new leaf: the inner node in the subtree's old slot,
    with the moved subtree as the other child. -/
def splitFrame (leaf : LeafNode) (n : Nat) (x y : NodeHandle) (e e' : Nat) (sub : NodeTree) :
    NodeFrame :=
  ⟨(NodeTree.root sub, splitNode leaf n x y e e'), leaf.key.getMsbD n, moveRoot y sub⟩

theorem splitFrame_held {nodes nodes' : NodeHandle → AnyNode}
    {x y : NodeHandle} (hsub : Held nodes sub)
    (hroot : nodes' (NodeTree.root sub) = .inner (splitNode leaf n x y e e'))
    (hy : nodes' y = contents sub)
    (hbelow : ∀ z ∈ below sub, nodes' z = nodes z) :
    FrameHeld nodes' x (splitFrame leaf n x y e e' sub) where
  slot := hroot
  taken := by
    have h := Two.get_set_not ((InnerNode.new n leaf.key).children.set (leaf.key.getMsbD n) x)
      (!leaf.key.getMsbD n) y
    rw [Bool.not_not, Two.get_set_self] at h
    exact h
  other := by
    rw [splitFrame, root_moveRoot]
    exact Two.get_set_self ..
  sib := hsub.moveRoot hy hbelow

theorem splitFrame_handles_perm (leaf : LeafNode) (n : Nat) (x y : NodeHandle) (e e' : Nat)
    (sub : NodeTree) :
    (handles ((splitFrame leaf n x y e e' sub).plug (.leaf (x, leaf)))).Perm
      (y :: x :: handles sub) := by
  refine (Frame.handles_plug_perm _ _).trans ?_
  show (x :: root sub :: handles (moveRoot y sub)).Perm _
  rw [handles_eq sub, handles_eq (moveRoot y sub), root_moveRoot, below_moveRoot]
  refine Perm.trans ?_ (Perm.swap ..)
  exact Perm.cons _ (Perm.swap ..)

theorem splitFrame_plug_WF (x y : NodeHandle) (e e' : Nat) (hwf : (plug c sub).WF nodeKeys)
    (hadm : Admits nodeKeys c leaf.key) (hsplit : Splits nodeKeys sub leaf.key n) :
    (plug (splitFrame leaf n x y e e' sub :: c) (.leaf (x, leaf))).WF nodeKeys := by
  have hkeys := keys_moveRoot y sub
  obtain ⟨-, hsub, hall⟩ := (plug_WF_iff nodeKeys c sub).mp hwf
  have hmoved : (plug c (moveRoot y sub)).WF nodeKeys := by
    refine plug_WF_of_keys hwf (moveRoot_WF hsub) ?_
    rw [hkeys]
    exact hall
  have hsplit' : Splits nodeKeys (moveRoot y sub) leaf.key n := by
    refine ⟨hsplit.1, ?_⟩
    rw [hkeys]
    exact hsplit.2
  exact plug_split_WF nodeKeys (i := (root sub, splitNode leaf n x y e e'))
    (x := (x, leaf)) hmoved hadm rfl hsplit'

/-- The new inner node records the expiries of the new leaf and of the moved
    subtree; above it something changes only if the new leaf expires first. -/
theorem splitFrame_plug_dated
    (x y : NodeHandle) (h : Dated (plug c sub)) (he : leaf.expiry = .ok e)
    (he' : (contents sub).earliestExpiry = .ok e') :
    Dated (plug (if e < e' then updateExpiry c e' e else c)
      ((splitFrame leaf n x y e e' sub).plug (.leaf (x, leaf)))) := by
  obtain ⟨hctx, -, hsub⟩ := (dated_plug_iff c sub).mp h
  obtain ⟨hfit, rfl⟩ := hsub.earliestExpiry_eq he'
  obtain ⟨hfits, rfl⟩ := expiry_eq_ok_iff.mp he
  have hleaf : ExpiriesFit (.leaf (x, leaf)) := expiriesFit_leaf.mpr hfits
  have hsib : ExpiriesFit (moveRoot y sub) := expiriesFit_moveRoot.mpr hfit
  have hframe : FrameDated leaf.expiresAt
      (splitFrame leaf n x y leaf.expiresAt (minExpiry sub) sub) := by
    refine ⟨?_, ?_, hsib, dated_moveRoot.mpr hsub⟩
    · have hget := Two.get_set_not ((InnerNode.new n leaf.key).childEarliestExpiry.set
        (leaf.key.getMsbD n) leaf.expiresAt) (!leaf.key.getMsbD n) (minExpiry sub)
      rw [Bool.not_not, Two.get_set_self] at hget
      exact hget
    · refine (Two.get_set_self ..).trans ?_
      exact (minExpiry_moveRoot y sub).symm
  refine (dated_plug_iff _ _).mpr ⟨?_, fun _ => ?_, ?_⟩
  · rw [Frame.minExpiry_plug]
    show CtxDated (min leaf.expiresAt (minExpiry (moveRoot y sub))) _
    rw [minExpiry_moveRoot]
    split
    · rename_i hlt
      rw [Nat.min_eq_left (Nat.le_of_lt hlt)]
      exact updateExpiry_dated hctx (Or.inl rfl)
    · rename_i hnot
      rw [Nat.min_eq_right (Nat.le_of_not_lt hnot)]
      exact hctx
  · exact (Frame.expiriesFit_plug_iff _ _).mpr ⟨hleaf, hsib⟩
  · exact (Frame.dated_plug_iff _ _).mpr ⟨hframe, hleaf, trivial⟩

/-- Updating the expiries only if `p`: the tree is there either way. -/
theorem updateExpiry_if_step {s : NodeTree} (p : Prop) [Decidable p] (o n : Nat)
    (ha : Arena t (handles s ++ (ctxHandles c ++ rest)) free)
    (hctx : CtxHeld t.nodes (NodeTree.root s) c) (hs : Held t.nodes s)
    (hwf : (plug c s).WF nodeKeys) :
    ∃ t', (if p then t.updateParentEarliestExpiry (stackOf c) o n else .ok t) = .ok t' ∧
      Replugged t rest c (if p then updateExpiry c o n else c) s t' := by
  by_cases hp : p
  · simp only [if_pos hp]
    exact updateExpiry_step o n ha hctx hs hwf
  · simp only [if_neg hp]
    refine ⟨t, rfl, ⟨free, ha.of_perm ?_⟩, (held_plug_iff c s).mpr ⟨hctx, hs⟩, hwf, rfl,
      Perm.refl _, fun _ _ => rfl, rfl⟩
    rw [← append_assoc]
    exact (handles_plug_perm c s).symm.append_right rest

/-- Linking the two new slots `x` (the leaf) and `y` (the moved node). -/
theorem linkNewParent_outcome {t₂ : OrderTreeNodes} {x y : NodeHandle}
    (ha : Arena t₂ (y :: x :: (handles sub ++ (ctxHandles c ++ rest))) free)
    (hheld : RootHeld t.nodes root (some (plug c sub)))
    (hadm : Admits nodeKeys c leaf.key) (hsplit : Splits nodeKeys sub leaf.key n)
    (hx : t₂.nodes x = .leaf leaf) (hy : t₂.nodes y = contents sub)
    (hsame : ∀ z ∈ handles sub ++ (ctxHandles c ++ rest), t₂.nodes z = t.nodes z)
    (htype : t₂.orderTreeType = t.orderTreeType) :
    InsertOutcome t root (some (plug c sub)) rest leaf
      (t₂.linkNewParent root leaf (stackOf c) (NodeTree.root sub) (contents sub) n
        (leaf.key.getMsbD n) x y) := by
  obtain ⟨hroot, hcount, hplug, hwf⟩ := hheld
  obtain ⟨hctx, hsub⟩ := (held_plug_iff c sub).mp hplug
  have hrmem := root_mem_handles sub
  have hlt : NodeTree.root sub < MAX_ORDERTREE_NODES := ha.lt_of_mem_owned (by simp [hrmem])
  have hcontents : t₂.nodes (NodeTree.root sub) = contents sub := by
    rw [hsame _ (by simp [hrmem]), hsub.contents_eq]
  have hnode := node_eq hlt hcontents (contents_isNode sub)
  have horders := orders_plug_perm c sub
  -- the slots of the subtree, the context and the rest are pairwise apart
  obtain ⟨hnd, -, -⟩ := nodup_append.mp ha.nodup
  simp only [nodup_cons, mem_cons, not_or] at hnd
  obtain ⟨⟨hyx, hymem⟩, hxmem, hnd⟩ := hnd
  obtain ⟨hndsub, -, hdisj⟩ := nodup_append.mp hnd
  rw [handles_eq, nodup_cons] at hndsub
  have hne : ∀ z ∈ ctxHandles c ++ rest, z ≠ NodeTree.root sub :=
    fun z hz heq => hdisj _ hrmem z hz heq.symm
  have hroom : (handles (plug c sub) ++ rest).length + 2 ≤ MAX_ORDERTREE_NODES := by
    have hle := ha.length_owned_le
    have hlen := (handles_plug_perm c sub).length_eq
    simp only [length_cons, length_append] at hle hlen ⊢
    omega
  unfold linkNewParent
  rw [hnode, ok_bind, unwrap_some, ok_bind]
  rcases expiry_cases leaf with ⟨e, he⟩ | ⟨he, hbad⟩
  swap
  · rw [he]
    exact .overflow ⟨leaf, mem_cons_self .., hbad⟩ (Or.inr hroom)
  rcases contents_earliestExpiry_cases sub with ⟨e', he'⟩ | ⟨he', o, ho, hbad⟩
  swap
  · rw [he, ok_bind, he']
    exact .overflow ⟨o, mem_cons_of_mem _
      (horders.mem_iff.mpr (mem_append_left _ ho)), hbad⟩ (Or.inr hroom)
  rw [he, ok_bind, he', ok_bind]
  show InsertOutcome t root (some (plug c sub)) rest leaf (do
    let t' ← (if e < e' then (t₂.setSlot (NodeTree.root sub) (.inner (splitNode leaf n x y e e')))
        |>.updateParentEarliestExpiry (stackOf c) e' e
      else .ok (t₂.setSlot (NodeTree.root sub) (.inner (splitNode leaf n x y e e')))
      : Exec OrderTreeNodes)
    let leafCount ← checkU32 (root.leafCount + 1)
    return (.ok (x, none), t', { root with leafCount := leafCount }))
  -- the array with the new inner node in place
  have htype₃ : (t₂.setSlot (NodeTree.root sub)
      (.inner (splitNode leaf n x y e e'))).orderTreeType = t.orderTreeType := htype
  generalize ht₃ : t₂.setSlot (NodeTree.root sub) (.inner (splitNode leaf n x y e e')) = t₃ at htype₃ ⊢
  have hset : ∀ z, z ≠ NodeTree.root sub → t₃.nodes z = t₂.nodes z := fun z hz => by
    rw [← ht₃]
    exact Function.update_of_ne hz _ _
  have hframe : FrameHeld t₃.nodes x (splitFrame leaf n x y e e' sub) := by
    refine splitFrame_held hsub (ht₃ ▸ Function.update_self ..) ?_ ?_
    · rw [hset y (fun heq => hymem (by simp [heq, hrmem])), hy]
    · intro z hz
      have hzmem : z ∈ handles sub := by
        rw [handles_eq]
        exact mem_cons_of_mem _ hz
      rw [hset z (fun heq => hndsub.1 (heq ▸ hz)), hsame z (mem_append_left _ hzmem)]
  have hleaf : Held t₃.nodes (.leaf (x, leaf)) := by
    show t₃.nodes x = .leaf leaf
    rw [hset x (fun heq => hxmem (by simp [heq, hrmem])), hx]
  have hctx' : CtxHeld t₃.nodes (NodeTree.root sub) c := by
    refine hctx.congr fun z hz => ?_
    rw [hset z (hne z (mem_append_left _ hz)), hsame z (by simp [hz])]
  have harena : Arena t₃ (handles ((splitFrame leaf n x y e e' sub).plug (.leaf (x, leaf))) ++
      (ctxHandles c ++ rest)) free := by
    rw [← ht₃]
    refine (ha.setSlot (by simp [hrmem]) _).of_perm ?_
    exact (splitFrame_handles_perm leaf n x y e e' sub).symm.append_right _
  obtain ⟨t', hrun, hre⟩ :=
    updateExpiry_if_step (e < e') e' e harena (by rw [Frame.root_plug]; exact hctx')
      ((Frame.held_plug_iff _ _).mpr ⟨hframe, hleaf⟩) (splitFrame_plug_WF x y e e' hwf hadm hsplit)
  have hlen : root.leafCount + 1 =
      (plug c ((splitFrame leaf n x y e e' sub).plug (.leaf (x, leaf)))).leaves.length := by
    rw [hcount, length_leaves_plug, length_leaves_plug,
      ((splitFrame leaf n x y e e' sub).leaves_plug_perm _).length_eq]
    simp only [splitFrame, Tree.leaves, length_append, length_singleton,
      length_leaves_moveRoot]
    omega
  have hcount32 : root.leafCount + 1 < 2 ^ 32 := by
    have hhandles := length_handles (plug c sub)
    simp only [length_append, MAX_ORDERTREE_NODES] at hroom
    omega
  rw [hrun, ok_bind, checkU32_eq_ok.mpr ⟨hcount32, rfl⟩, ok_bind, pure_eq_ok]
  refine .done (hre.treeStep ?_ hlen ?_ htype₃) ?_
    fun hdated => splitFrame_plug_dated x y hdated he he'
  · rw [hroot, root_plug, root_plug, Frame.root_plug]
    rfl
  · intro z hz
    rw [hset z (hne z (mem_append_right _ hz)), hsame z (by simp [hz])]
  · refine Or.inl ⟨rfl, ?_, ?_⟩
    · have hnot := not_mem_keys_of_splits nodeKeys hwf hadm hsplit
      rwa [keys_eq] at hnot
    · have hp := (hre.leaves.map Prod.snd).trans
        (orders_plug_perm (splitFrame leaf n x y e e' sub :: c) (.leaf (x, leaf)))
      refine hp.trans (Perm.cons leaf ?_)
      have hmoved : ctxOrders (splitFrame leaf n x y e e' sub :: c) =
          orders sub ++ ctxOrders c := by
        rw [← orders_moveRoot y sub]
        simp [ctxOrders, splitFrame, orders]
      show (ctxOrders (splitFrame leaf n x y e e' sub :: c)).Perm (orders (plug c sub))
      rw [hmoved]
      exact horders.symm

/-- A new key: two more slots, or the array as it was. -/
theorem splitParent_outcome (ha : Arena t (handles (plug c sub) ++ rest) free)
    (hheld : RootHeld t.nodes root (some (plug c sub)))
    (hadm : Admits nodeKeys c leaf.key) (hsplit : Splits nodeKeys sub leaf.key n) :
    InsertOutcome t root (some (plug c sub)) rest leaf
      (t.splitParent root leaf (stackOf c) (NodeTree.root sub) (contents sub) n) := by
  have hwf := hheld.2.2.2
  have hnew : leaf.key ∉ (orders (plug c sub)).map LeafNode.key := by
    have hnot := not_mem_keys_of_splits nodeKeys hwf hadm hsplit
    rwa [keys_eq] at hnot
  unfold splitParent
  rw [critBitMask_eq hsplit.1, ok_bind]
  simp only [BitVec.and_comm _ leaf.key, decide_mask_eq hsplit.1]
  rcases insert_spec ha (.leaf leaf) rfl with
    ⟨hfull, hrun⟩ | ⟨x, t₁, free₁, hrun, ha₁, hx₁, hsame₁, htype₁⟩
  · -- no slot for the leaf
    simp only [hrun, ok_bind, pure_eq_ok]
    refine .noSpace ⟨⟨free, ha⟩, hheld, fun _ _ => rfl, rfl⟩ ?_ hnew
    show MAX_ORDERTREE_NODES < (handles (plug c sub) ++ rest).length + 2
    omega
  simp only [hrun, ok_bind]
  rcases insert_spec ha₁ _ (contents_isNode sub) with
    ⟨hfull, hrun₂⟩ | ⟨y, t₂, free₂, hrun₂, ha₂, hy₂, hsame₂, htype₂⟩
  · -- no slot for the moved node: the leaf's slot is freed again
    simp only [hrun₂, ok_bind]
    obtain ⟨t₃, hrun₃, ha₃, hsame₃, htype₃⟩ := remove_spec ha₁ (by rw [hx₁]; rfl)
    have hsame₃ : ∀ z ∈ handles (plug c sub) ++ rest, t₃.nodes z = t.nodes z :=
      fun z hz => (hsame₃ z hz).trans (hsame₁ z hz)
    simp only [hrun₃, ok_bind, unwrap_some, pure_eq_ok]
    refine .noSpace ⟨⟨_, ha₃⟩, hheld.congr fun z hz => hsame₃ z (mem_append_left _ hz),
      fun z hz => hsame₃ z (mem_append_right _ hz), htype₃.trans htype₁⟩ ?_ hnew
    show MAX_ORDERTREE_NODES < (handles (plug c sub) ++ rest).length + 2
    rw [length_cons] at hfull
    omega
  simp only [hrun₂, ok_bind]
  -- both slots are there; list the slots of the hole first
  have hperm : (handles (plug c sub) ++ rest).Perm
      (handles sub ++ (ctxHandles c ++ rest)) := by
    rw [← append_assoc]
    exact (handles_plug_perm c sub).append_right rest
  have hkept : ∀ z ∈ handles sub ++ (ctxHandles c ++ rest), t₂.nodes z = t.nodes z := by
    intro z hz
    have hz' := hperm.mem_iff.mpr hz
    rw [hsame₂ z (mem_cons_of_mem _ hz'), hsame₁ z hz']
  exact linkNewParent_outcome (ha₂.of_perm (Perm.cons _ (Perm.cons _ hperm))) hheld
    hadm hsplit ((hsame₂ x (mem_cons_self ..)).trans hx₁) hy₂ hkept (htype₂.trans htype₁)

/-- `insert_leaf` keeps the array's trees and inserts into the one it is for. -/
theorem insertLeaf_outcome {s : Option NodeTree} (ha : Arena t (optHandles s ++ rest) free)
    (hheld : RootHeld t.nodes root s) (leaf : LeafNode) :
    InsertOutcome t root s rest leaf (t.insertLeaf root leaf) := by
  cases s with
  | none => exact insertLeaf_empty ha hheld leaf
  | some s =>
    have hlt : ∀ x ∈ handles s, x < MAX_ORDERTREE_NODES :=
      fun x hx => ha.lt_of_mem_owned (mem_append_left _ hx)
    have hfuel : (handles s).length ≤ MAX_ORDERTREE_NODES := by
      have hle := ha.length_owned_le
      simp only [optHandles, length_append] at hle
      omega
    obtain ⟨c, sub, hplug, hadm, hwalk⟩ := walkToInsert_spec (k := leaf.key) s
      MAX_ORDERTREE_NODES hfuel hheld.2.2.1 hlt [] hheld.2.2.2 (by simp [Admits])
    rw [plug_nil] at hplug
    subst hplug
    unfold insertLeaf
    rw [hheld.node_some]
    simp only
    rcases hwalk with ⟨x, rfl, hkey, hrun⟩ | ⟨n, hsplit, hrun⟩
    · rw [stackOf_nil] at hrun
      rw [hrun, ok_bind]
      exact clobberLeaf_outcome ha hheld hkey
    · rw [stackOf_nil] at hrun
      rw [hrun, ok_bind]
      exact splitParent_outcome ha hheld hadm hsplit

end OrderTreeNodes

end MangoV4
