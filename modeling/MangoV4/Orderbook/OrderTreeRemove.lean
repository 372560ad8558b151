/-
  MangoV4.Orderbook.OrderTreeRemove

  What `remove_by_key` and `remove_one_expired` do to a root in an array that
  holds well-formed trees, and which leaves the walks to the first, the last
  and the earliest expiring leaf find.
-/

import MangoV4.Orderbook.OrderTreeSpec

namespace MangoV4

open Lib Lib.Exec Lib.CritBit NodeTree List

namespace OrderTreeNodes

/-! ## Removing a key -/

/-- What `remove_by_key` does to the root with tree `s`. -/
inductive RemoveOutcome (t : OrderTreeNodes) (root : OrderTreeRoot) (s : Option NodeTree)
    (rest : List NodeHandle) (k : Key) :
    Exec (Option LeafNode × OrderTreeNodes × OrderTreeRoot) → Prop
  /-- an expiry time does not fit into 64 bits -/
  | overflow (hbad : ∃ o ∈ optOrders s, ¬ o.ExpiryFits) :
      RemoveOutcome t root s rest k (panic .overflow)
  | absent (hk : k ∉ (optOrders s).map LeafNode.key) :
      RemoveOutcome t root s rest k (.ok (none, t, root))
  | removed {o : LeafNode} {t' : OrderTreeNodes} {root' : OrderTreeRoot} {u : Option NodeTree}
      (hstep : TreeStep t rest t' root' u) (hkey : o.key = k)
      (hperm : (optOrders s).Perm (o :: optOrders u)) (hdated : OptDated s → OptDated u) :
      RemoveOutcome t root s rest k (.ok (some o, t', root'))

variable {t : OrderTreeNodes} {x : LeafCell} {rest free : List NodeHandle} {root : OrderTreeRoot}

/-- Freeing the only leaf of a root. -/
theorem remove_root_leaf (ha : Arena t (x.1 :: rest) free) (hslot : t.nodes x.1 = .leaf x.2) :
    ∃ t', t.remove x.1 = .ok (some (.leaf x.2, t')) ∧
      TreeStep t rest t' { maybeNode := 0, leafCount := 0 } none := by
  obtain ⟨t', hrun, ha', hsame, htype⟩ := remove_spec ha (by rw [hslot]; rfl)
  exact ⟨t', hslot ▸ hrun, ⟨⟨_, ha'⟩, rfl, hsame, htype⟩⟩

/-- The sibling of the removed leaf in the place of their parent.  If the sibling
    expires first, the frames above have recorded its expiry before. -/
theorem dated_updateExpiry_sib {f : NodeFrame} {c : List NodeFrame} {e e' : Nat}
    (h : Dated (plug (f :: c) (.leaf x)))
    (he : (contents f.sib).earliestExpiry = .ok e) (he' : x.2.expiry = .ok e') :
    Dated (plug (updateExpiry c e' e) (moveRoot f.i.1 f.sib)) := by
  obtain ⟨⟨hf, hctx⟩, -, -⟩ := (dated_plug_iff (f :: c) (.leaf x)).mp h
  obtain ⟨hfit, rfl⟩ := hf.sib.earliestExpiry_eq he
  obtain ⟨-, rfl⟩ := expiry_eq_ok_iff.mp he'
  have hctx : CtxDated (min x.2.expiresAt (minExpiry f.sib)) c := hctx
  refine (dated_plug_iff _ _).mpr ⟨?_, fun _ => expiriesFit_moveRoot.mpr hfit,
    dated_moveRoot.mpr hf.sib⟩
  rw [minExpiry_moveRoot]
  exact updateExpiry_dated hctx (min_choice ..)

/-- The sibling of the removed leaf moves up into the parent's slot. -/
theorem collapseParent_outcome {f : NodeFrame} {c : List NodeFrame}
    (ha : Arena t (handles (plug (f :: c) (.leaf x)) ++ rest) free)
    (hheld : RootHeld t.nodes root (some (plug (f :: c) (.leaf x)))) :
    RemoveOutcome t root (some (plug (f :: c) (.leaf x))) rest x.2.key
      (t.collapseParent root (stackOf (f :: c)) f.i.1 x.1 f.bit) := by
  obtain ⟨hroot, hcount, hplug, hwf⟩ := hheld
  obtain ⟨⟨hframe, hctx⟩, hslot⟩ := (held_plug_iff (f :: c) (.leaf x)).mp hplug
  have hslot : t.nodes x.1 = .leaf x.2 := hslot
  have horders := orders_plug_perm (f :: c) (.leaf x)
  have hmem : ∀ o ∈ orders f.sib, o ∈ orders (plug (f :: c) (.leaf x)) := by
    intro o ho
    refine horders.mem_iff.mpr (mem_append_right _ ?_)
    rw [ctxOrders, ctxLeaves_cons, map_append]
    exact mem_append_left _ ho
  -- the slots: leaf, parent, sibling, then the ones that stay
  have ha₀ : Arena t (NodeTree.root f.sib :: x.1 :: f.i.1 ::
      (below f.sib ++ (ctxHandles c ++ rest))) free := by
    refine ha.of_plug.of_perm ?_
    show (x.1 :: f.i.1 :: (handles f.sib ++ ctxHandles c ++ rest)).Perm _
    rw [handles_eq, append_assoc]
    exact (Perm.cons _ (Perm.swap ..)).trans (Perm.swap ..)
  obtain ⟨hnd, -, -⟩ := nodup_append.mp ha₀.nodup
  simp only [nodup_cons, mem_cons, not_or] at hnd
  obtain ⟨-, ⟨hxf, -⟩, hfkeep, -⟩ := hnd
  have hflt : f.i.1 < MAX_ORDERTREE_NODES := ha₀.lt_of_mem_owned (by simp)
  unfold collapseParent
  simp only [node_eq hflt hframe.slot rfl, AnyNode.children, ok_bind, unwrap_some, hframe.other]
  -- free the sibling's slot
  have hsib := hframe.sib.contents_eq
  obtain ⟨t₁, hrun₁, ha₁, hsame₁, htype₁⟩ :=
    remove_spec ha₀ (by rw [hsib]; exact contents_isNode _)
  rw [hsib] at hrun₁
  simp only [hrun₁, ok_bind, unwrap_some]
  rcases contents_earliestExpiry_cases f.sib with ⟨e, he⟩ | ⟨he, o, ho, hbad⟩
  swap
  · rw [he]
    exact .overflow ⟨o, hmem o ho, hbad⟩
  -- the parent's slot takes over its contents
  have hparent : t₁.nodes f.i.1 = .inner f.i.2 := by
    rw [hsame₁ _ (by simp), hframe.slot]
  rw [he, ok_bind, setNode_eq _ hflt (by rw [hparent]; rfl), ok_bind]
  have ha₂ := ha₁.setSlot (x := f.i.1) (by simp) (contents f.sib)
  have hpos := (plug (f :: c) (.leaf x)).length_leaves_pos
  rw [subUnsigned_eq_ok.mpr ⟨by omega, rfl⟩, ok_bind]
  -- free the leaf's slot
  have hleaf : (t₁.setSlot f.i.1 (contents f.sib)).nodes x.1 = .leaf x.2 := by
    rw [← hslot, ← hsame₁ _ (mem_cons_self ..)]
    exact Function.update_of_ne hxf _ _
  obtain ⟨t₃, hrun₃, ha₃, hsame₃, htype₃⟩ := remove_spec ha₂ (by rw [hleaf]; rfl)
  rw [hleaf] at hrun₃
  simp only [hrun₃, ok_bind, unwrap_some, AnyNode.asLeaf]
  rcases expiry_cases x.2 with ⟨e', he'⟩ | ⟨he', hbad⟩
  swap
  · rw [he']
    exact .overflow ⟨x.2, horders.mem_iff.mpr (mem_append_left _
      (mem_singleton.mpr rfl)), hbad⟩
  rw [he', ok_bind]
  -- what is left is the sibling, moved into the parent's slot
  have hkeep : ∀ z ∈ below f.sib ++ (ctxHandles c ++ rest), t₃.nodes z = t.nodes z := by
    intro z hz
    rw [hsame₃ z (mem_cons_of_mem _ hz), ← hsame₁ z (by simp [hz])]
    exact update_outside _ hfkeep z hz
  have hmoved : Held t₃.nodes (moveRoot f.i.1 f.sib) := by
    refine hframe.sib.moveRoot ?_ fun z hz => hkeep z (mem_append_left _ hz)
    rw [hsame₃ _ (mem_cons_self ..)]
    exact Function.update_self ..
  have hctx₃ : CtxHeld t₃.nodes f.i.1 c := hctx.congr fun z hz => hkeep z (by simp [hz])
  have harena : Arena t₃ (handles (moveRoot f.i.1 f.sib) ++
      (ctxHandles c ++ rest)) (x.1 :: NodeTree.root f.sib :: free) := by
    rw [handles_eq, root_moveRoot, below_moveRoot]
    exact ha₃
  have hwf' : (plug c (moveRoot f.i.1 f.sib)).WF nodeKeys := by
    have hsibwf := plug_sib_WF nodeKeys hwf
    obtain ⟨-, hs, hall⟩ := (plug_WF_iff nodeKeys c f.sib).mp hsibwf
    refine plug_WF_of_keys hsibwf (moveRoot_WF hs) ?_
    rw [keys_moveRoot]
    exact hall
  obtain ⟨t', hrun, hre⟩ := updateExpiry_step e' e harena (by rw [root_moveRoot]; exact hctx₃) hmoved hwf'
  have hrun : t₃.updateParentEarliestExpiry (stackOf (f :: c)).tail e' e = .ok t' := hrun
  rw [hrun, ok_bind, pure_eq_ok]
  refine .removed (hre.treeStep ?_ ?_ (fun z hz => hkeep z (by simp [hz]))
    (htype₃.trans htype₁)) rfl ?_ fun hdated => dated_updateExpiry_sib hdated he he'
  · show root.maybeNode = _
    rw [hroot, root_plug, root_plug, root_moveRoot]
    rfl
  · show root.leafCount - 1 = _
    rw [hcount, length_leaves_plug, length_leaves_plug, ctxLeaves_cons,
      length_leaves_moveRoot, length_append]
    simp only [Tree.leaves, length_singleton]
    omega
  · have hs'orders := hre.orders_perm
    rw [orders_moveRoot] at hs'orders
    refine horders.trans (Perm.cons x.2 ?_)
    show (ctxOrders (f :: c)).Perm _
    rw [ctxOrders, ctxLeaves_cons, map_append]
    exact hs'orders.symm

/-- The walk of `remove_by_key` and what follows it, below an inner root. -/
theorem removeByKey_inner (f : NodeFrame) (sub : NodeTree) {k : Key}
    (ha : Arena t (handles (f.plug sub) ++ rest) free)
    (hheld : RootHeld t.nodes root (some (f.plug sub))) (hbit : k.getMsbD f.i.2.prefixLen = f.bit) :
    RemoveOutcome t root (some (f.plug sub)) rest k (do
      match ← t.walkToLeaf k MAX_ORDERTREE_NODES [(f.i.1, f.bit)] f.i.1 (NodeTree.root sub)
          f.bit with
      | none => return (none, t, root)
      | some (stack, parentH, childH, critBit) =>
        t.collapseParent root stack parentH childH critBit) := by
  have hwf := hheld.2.2.2
  obtain ⟨-, hsub⟩ := (Frame.held_plug_iff f sub).mp hheld.2.2.1
  have hwfsub := ((f.plug_WF_iff nodeKeys sub).mp hwf).2.2.2.1
  have ha' : Arena t (handles sub ++ (ctxHandles [f] ++ rest)) free :=
    Arena.of_plug (c := [f]) ha
  have hlt : ∀ x ∈ handles sub, x < MAX_ORDERTREE_NODES :=
    fun x hx => ha'.lt_of_mem_owned (mem_append_left _ hx)
  have hfuel : (handles sub).length ≤ MAX_ORDERTREE_NODES := by
    have hle := ha'.length_owned_le
    rw [length_append] at hle
    omega
  obtain ⟨f', c', x, hplug, hpath, hrun⟩ := walkToLeaf_spec (k := k) sub
    MAX_ORDERTREE_NODES hfuel hsub hlt f [] hwfsub (by simpa [OnPath] using hbit)
  have hplug : plug (f' :: c') (.leaf x) = f.plug sub := hplug
  rw [stackOf_cons, stackOf_nil] at hrun
  rw [hrun, ok_bind, ← hplug]
  rw [← hplug] at ha hheld hwf
  by_cases hkey : x.2.key = k
  · rw [if_neg (not_not.mpr hkey), ← hkey]
    exact collapseParent_outcome ha hheld
  · rw [if_pos hkey]
    -- the leaf the walk ends at is the only one that could have the key
    refine .absent fun hk => ?_
    rw [optOrders, ← keys_eq] at hk
    obtain ⟨y, hy, hyk⟩ := mem_map.mp hk
    have hin := mem_hole_of_onPath nodeKeys hwf hpath hy hyk
    rw [Tree.leaves, mem_singleton] at hin
    exact hkey (hin ▸ hyk)

/-- `remove_by_key` keeps the array's trees and removes from the one it is for. -/
theorem removeByKey_outcome {s : Option NodeTree} (ha : Arena t (optHandles s ++ rest) free)
    (hheld : RootHeld t.nodes root s) (k : Key) :
    RemoveOutcome t root s rest k (t.removeByKey root k) := by
  unfold removeByKey
  cases s with
  | none =>
    rw [hheld.node_none]
    exact .absent (by simp [optOrders])
  | some s =>
    rw [hheld.node_some]
    have hlt : NodeTree.root s < MAX_ORDERTREE_NODES :=
      ha.lt_of_mem_owned (mem_append_left _ (root_mem_handles s))
    have hnode := node_eq hlt hheld.2.2.1.contents_eq (contents_isNode s)
    simp only [hnode, ok_bind, unwrap_some]
    cases s with
    | leaf x =>
      simp only [contents, NodeTree.root]
      by_cases hkey : x.2.key = k
      · have hone : root.leafCount = 1 := hheld.2.1
        obtain ⟨t', hrun, hstep⟩ := remove_root_leaf ha hheld.2.2.1
        rw [if_pos hkey, assert_eq_ok (u := ()).mpr (decide_eq_true hone)]
        simp only [ok_bind, hrun, unwrap_some, pure_eq_ok]
        exact .removed hstep hkey (Perm.refl _) fun _ => trivial
      · rw [if_neg hkey]
        refine .absent ?_
        simpa [optOrders, orders, Tree.leaves] using fun h => hkey h.symm
    | inner i l r =>
      have hw : i.2.prefixLen < 128 := hheld.2.2.2.1
      simp only [contents, NodeTree.root, walkDown_eq i.2 hw k, ok_bind]
      rw [hheld.2.2.1.2.1]
      cases hb : k.getMsbD i.2.prefixLen with
      | false => exact removeByKey_inner ⟨i, false, r⟩ l ha hheld hb
      | true => exact removeByKey_inner ⟨i, true, l⟩ r ha hheld hb

/-! ## First, last and earliest expiring leaf -/

/-- The leaf at one end of the tree. -/
def endLeaf (findMax : Bool) : NodeTree → LeafCell
  | .leaf x => x
  | .inner _ l r => if findMax then endLeaf findMax r else endLeaf findMax l

theorem endLeaf_eq (findMax : Bool) (s : NodeTree) :
    (if findMax then s.leaves.getLast? else s.leaves.head?) = some (endLeaf findMax s) := by
  induction s with
  | leaf x => cases findMax <;> rfl
  | inner i l r ihl ihr =>
    cases findMax with
    | false =>
      have ihl : l.leaves.head? = some (endLeaf false l) := ihl
      show (l.leaves ++ r.leaves).head? = some (endLeaf false l)
      rw [head?_append, ihl]
      rfl
    | true =>
      have ihr : r.leaves.getLast? = some (endLeaf true r) := ihr
      show (l.leaves ++ r.leaves).getLast? = some (endLeaf true r)
      rw [getLast?_append, ihr]
      rfl

theorem endLeaf_mem (findMax : Bool) (s : NodeTree) : endLeaf findMax s ∈ s.leaves := by
  have h := endLeaf_eq findMax s
  cases findMax with
  | false => exact mem_of_head? h
  | true => exact mem_of_getLast? h

theorem leafMinMaxFrom_eq (findMax : Bool) (s : NodeTree) (fuel : Nat)
    (hfuel : (handles s).length ≤ fuel) (hheld : Held t.nodes s)
    (hlt : ∀ x ∈ handles s, x < MAX_ORDERTREE_NODES) :
    t.leafMinMaxFrom findMax fuel (NodeTree.root s) = .ok (some (endLeaf findMax s)) := by
  refine walk_induction (fun fuel x hslot => ?_) (fun fuel i l r hslot hch ihl ihr => ?_)
    s fuel hfuel hheld hlt
  · simp [leafMinMaxFrom, NodeTree.root, hslot, endLeaf]
  · simp only [leafMinMaxFrom, NodeTree.root, hslot, ok_bind, hch, endLeaf]
    cases findMax with
    | false => exact ihl
    | true => exact ihr

/-- `min_leaf` and `max_leaf` find the ends of the tree. -/
theorem leafMinMax_eq {s : Option NodeTree} (ha : Arena t (optHandles s ++ rest) free)
    (hheld : RootHeld t.nodes root s) (findMax : Bool) :
    t.leafMinMax findMax root = .ok (s.map (endLeaf findMax)) := by
  unfold leafMinMax
  cases s with
  | none => rw [hheld.node_none]; rfl
  | some s =>
    rw [hheld.node_some]
    refine leafMinMaxFrom_eq findMax s _ ?_ hheld.2.2.1 ?_
    · have hle := ha.length_owned_le
      simp only [optHandles, length_append] at hle
      omega
    · exact fun x hx => ha.lt_of_mem_owned (mem_append_left _ hx)

/-- The leaf that following the recorded expiries leads to. -/
def expiryLeaf : NodeTree → LeafCell
  | .leaf x => x
  | .inner i l r =>
    if i.2.childEarliestExpiry.at1 < i.2.childEarliestExpiry.at0 then expiryLeaf r
    else expiryLeaf l

theorem expiryLeaf_mem (s : NodeTree) : expiryLeaf s ∈ s.leaves := by
  induction s with
  | leaf x => exact mem_singleton.mpr rfl
  | inner i l r ihl ihr =>
    rw [expiryLeaf, Tree.leaves, mem_append]
    split
    · exact Or.inr ihr
    · exact Or.inl ihl

/-- In a dated tree that leaf has the minimal expiry. -/
theorem expiryLeaf_expiresAt {s : NodeTree} (h : Dated s) :
    (expiryLeaf s).2.expiresAt = minExpiry s := by
  induction s with
  | leaf x => rfl
  | inner i l r ihl ihr =>
    obtain ⟨⟨hpair, -, -⟩, hl, hr⟩ := h
    rw [expiryLeaf, hpair, minExpiry]
    split
    · next hlt => rw [ihr hr, Nat.min_eq_right (Nat.le_of_lt hlt)]
    · next hnot => rw [ihl hl, Nat.min_eq_left (Nat.le_of_not_lt hnot)]

theorem findEarliestExpiryFrom_eq (s : NodeTree) (fuel : Nat)
    (hfuel : (handles s).length ≤ fuel) (hheld : Held t.nodes s)
    (hlt : ∀ x ∈ handles s, x < MAX_ORDERTREE_NODES) :
    t.findEarliestExpiryFrom fuel (NodeTree.root s) =
      (expiryLeaf s).2.expiry >>= fun e => .ok ((expiryLeaf s).1, e) := by
  refine walk_induction (fun fuel x hslot => ?_) (fun fuel i l r hslot hch ihl ihr => ?_)
    s fuel hfuel hheld hlt
  · simp [findEarliestExpiryFrom, NodeTree.root, hslot, expiryLeaf]
  · simp only [findEarliestExpiryFrom, NodeTree.root, hslot, ok_bind, unwrap_some, hch, expiryLeaf]
    by_cases hearlier : i.2.childEarliestExpiry.at1 < i.2.childEarliestExpiry.at0
    · rw [decide_eq_true hearlier, if_pos hearlier]
      exact ihr
    · rw [decide_eq_false hearlier, if_neg hearlier]
      exact ihl

/-- `find_earliest_expiry` ends at a leaf of the tree. -/
theorem findEarliestExpiry_eq {s : NodeTree} (ha : Arena t (handles s ++ rest) free)
    (hheld : RootHeld t.nodes root (some s)) :
    t.findEarliestExpiry root =
      (expiryLeaf s).2.expiry >>= fun e => .ok (some ((expiryLeaf s).1, e)) := by
  unfold findEarliestExpiry
  rw [hheld.node_some]
  simp only
  rw [findEarliestExpiryFrom_eq s _ _ hheld.2.2.1
    (fun x hx => ha.lt_of_mem_owned (mem_append_left _ hx))]
  · cases (expiryLeaf s).2.expiry <;> rfl
  · have hle := ha.length_owned_le
    rw [length_append] at hle
    omega

/-- What `remove_one_expired` does to the root with tree `s`. -/
inductive ExpireOutcome (t : OrderTreeNodes) (root : OrderTreeRoot) (s : Option NodeTree)
    (rest : List NodeHandle) (nowTs : Nat) :
    Exec (Option LeafNode × OrderTreeNodes × OrderTreeRoot) → Prop
  | overflow (hbad : ∃ o ∈ optOrders s, ¬ o.ExpiryFits) :
      ExpireOutcome t root s rest nowTs (panic .overflow)
  | kept (hnone : OptDated s → ∀ o ∈ optOrders s, nowTs ≤ o.expiresAt) :
      ExpireOutcome t root s rest nowTs (.ok (none, t, root))
  | removed {o : LeafNode} {t' : OrderTreeNodes} {root' : OrderTreeRoot} {s' : Option NodeTree}
      (hstep : TreeStep t rest t' root' s') (hperm : (optOrders s).Perm (o :: optOrders s'))
      (hexpired : ∃ e < nowTs, o.expiry = .ok e) (hdated : OptDated s → OptDated s') :
      ExpireOutcome t root s rest nowTs (.ok (some o, t', root'))

theorem removeOneExpired_outcome {s : Option NodeTree}
    (ha : Arena t (optHandles s ++ rest) free) (hheld : RootHeld t.nodes root s) (nowTs : Nat) :
    ExpireOutcome t root s rest nowTs (t.removeOneExpired root nowTs) := by
  unfold removeOneExpired
  cases s with
  | none =>
    unfold findEarliestExpiry
    rw [hheld.node_none]
    exact .kept fun _ o ho => absurd ho (not_mem_nil)
  | some s =>
    have hmem := expiryLeaf_mem s
    obtain ⟨hslot, hin⟩ := hheld.2.2.1.leaf hmem
    have hlt := ha.lt_of_mem_owned (mem_append_left _ hin)
    rw [findEarliestExpiry_eq ha hheld]
    rcases expiry_cases (expiryLeaf s).2 with ⟨e, he⟩ | ⟨he, hbad⟩
    swap
    · rw [he]
      exact .overflow ⟨(expiryLeaf s).2, mem_map_of_mem hmem, hbad⟩
    simp only [he, ok_bind]
    by_cases hexp : e < nowTs
    swap
    · rw [if_neg hexp]
      refine .kept fun hdated o ho => ?_
      obtain ⟨-, rfl⟩ := expiry_eq_ok_iff.mp he
      rw [expiryLeaf_expiresAt hdated] at hexp
      exact Nat.le_trans (Nat.le_of_not_lt hexp) (minExpiry_le ho)
    simp only [if_pos hexp, node_eq hlt hslot rfl, ok_bind, AnyNode.key]
    have hremove := removeByKey_outcome ha hheld (expiryLeaf s).2.key
    generalize t.removeByKey root (expiryLeaf s).2.key = r at hremove ⊢
    cases hremove with
    | overflow hbad => exact .overflow hbad
    | absent hk => exact absurd (mem_map_of_mem (mem_map_of_mem hmem)) hk
    | @removed o t' root' s' hstep hkey hperm hdated =>
      -- the removed order has the key of the leaf found, so it is that leaf
      obtain rfl : o = (expiryLeaf s).2 := by
        have ho : o ∈ optOrders (some s) := hperm.mem_iff.mpr (mem_cons_self ..)
        exact inj_on_of_nodup_map hheld.keys_nodup ho (mem_map_of_mem hmem) hkey
      exact .removed hstep hperm ⟨e, hexp, he⟩ hdated

end OrderTreeNodes

end MangoV4
