/-
  MangoV4.Orderbook.OrderTreeWalk

  What the parts of the order-tree code do to an array that represents a
  tree: the allocator (`insert`, `remove`), the walks down from a handle and
  the expiry update back up a stack.

  The walks are related to zippers: starting at the subtree `s` inside the
  context `c`, a walk stops at a subtree inside a longer context of the same
  tree, and its stack is the stack of that context.
-/

import MangoV4.Orderbook.OrderTreeShape

namespace MangoV4

open Lib Lib.Exec Lib.CritBit NodeTree List Function

namespace OrderTreeNodes

/-! ## Slots in use -/

variable {t : OrderTreeNodes} {x : NodeHandle} {k : Key}

theorem index_eq (hx : x < MAX_ORDERTREE_NODES) :
    t.index x = .ok (t.nodes x) := if_pos hx

theorem node_eq {n : AnyNode}
    (hx : x < MAX_ORDERTREE_NODES) (hn : t.nodes x = n) (hnode : n.isNode = true) :
    t.node x = .ok (some n) := by
  unfold node
  rw [index_eq hx, ok_bind, hn, hnode]
  rfl

theorem setNode_eq (n : AnyNode)
    (hx : x < MAX_ORDERTREE_NODES) (hnode : (t.nodes x).isNode = true) :
    t.setNode x n = .ok (t.setSlot x n) := by
  unfold setNode
  rw [node_eq hx rfl hnode]
  rfl

/-- Writing a slot outside a list leaves the slots of the list alone. -/
theorem update_outside {nodes : NodeHandle → AnyNode} {xs : List NodeHandle} (n : AnyNode)
    (hx : x ∉ xs) : ∀ y ∈ xs, update nodes x n y = nodes y :=
  fun y hy => update_of_ne (fun (heq : y = x) => hx (heq ▸ hy)) _ _

/-! ## The allocator -/

/-- Freeing an owned slot puts it at the front of the free list. -/
theorem remove_spec {owned free : List NodeHandle}
    (ha : Arena t (x :: owned) free) (hnode : (t.nodes x).isNode = true) :
    ∃ t', t.remove x = .ok (some (t.nodes x, t')) ∧ Arena t' owned (x :: free) ∧
      (∀ y ∈ owned, t'.nodes y = t.nodes y) ∧ t'.orderTreeType = t.orderTreeType := by
  have hx : x < MAX_ORDERTREE_NODES := ha.lt_of_mem_owned (mem_cons_self ..)
  have hsum := ha.length_add
  have hle := ha.bump_le
  have hlen32 : t.freeListLen + 1 < 2 ^ 32 := by
    rw [ha.len]
    simp only [MAX_ORDERTREE_NODES] at hle
    omega
  have hxfree : x ∉ free := ha.not_mem_free (mem_cons_self ..)
  refine ⟨{ t.setSlot x (if t.freeListLen = 0 then .lastFreeNode t.freeListHead
    else .freeNode t.freeListHead) with freeListLen := t.freeListLen + 1, freeListHead := x },
    ?_, ?_, update_outside _ (nodup_cons.mp (nodup_append.mp ha.nodup).1).1, rfl⟩
  · unfold remove
    rw [node_eq hx rfl hnode, ok_bind]
    simp only [checkU32_eq_ok.mpr ⟨hlen32, rfl⟩, ok_bind]
    rfl
  · refine ⟨?_, ?_, ?_, ?_, hle⟩
    · -- the freed slot points to the old head, or is tagged last
      have hrest : FreeChain (update t.nodes x (if t.freeListLen = 0 then
          AnyNode.lastFreeNode t.freeListHead else AnyNode.freeNode t.freeListHead)) free :=
        ha.chain.congr (update_outside _ hxfree)
      cases free with
      | nil =>
        have hzero : t.freeListLen = 0 := ha.len
        refine ⟨t.freeListHead, ?_⟩
        show update t.nodes x _ x = _
        rw [update_self, if_pos hzero]
      | cons y rest =>
        have hpos : t.freeListLen ≠ 0 := by
          rw [ha.len]
          simp
        have hhead : t.freeListHead = y := ha.head y (by simp)
        refine ⟨?_, hrest⟩
        show update t.nodes x _ x = _
        rw [update_self, if_neg hpos, hhead]
    · show t.freeListLen + 1 = (x :: free).length
      rw [ha.len, length_cons]
    · intro y hy
      simpa using hy
    · exact perm_middle.trans ha.perm

/-- Storing a node takes a slot that was not owned; it fails exactly when all
    slots are owned. -/
theorem insert_spec {owned free : List NodeHandle} (ha : Arena t owned free)
    (val : AnyNode) (hval : val.isNode = true) :
    (owned.length = MAX_ORDERTREE_NODES ∧ t.insert val = .ok (.error .someError, t)) ∨
    (∃ x t' free', t.insert val = .ok (.ok x, t') ∧ Arena t' (x :: owned) free' ∧
      t'.nodes x = val ∧ (∀ y ∈ owned, t'.nodes y = t.nodes y) ∧
      t'.orderTreeType = t.orderTreeType) := by
  have hsum := ha.length_add
  have hle := ha.bump_le
  cases free with
  | nil =>
    have hzero : t.freeListLen = 0 := ha.len
    have hbump : owned.length = t.bumpIndex := by simpa using hsum
    by_cases hroom : t.bumpIndex < MAX_ORDERTREE_NODES
    · have h32 : t.bumpIndex < 2 ^ 32 - 1 := by
        simp only [MAX_ORDERTREE_NODES] at hroom
        omega
      have hperm : owned.Perm (range t.bumpIndex) := by simpa using ha.perm
      have hnew : t.bumpIndex ∉ owned := by
        intro hmem
        have := mem_range.mp (hperm.mem_iff.mp hmem)
        omega
      refine Or.inr ⟨t.bumpIndex, { t.setSlot t.bumpIndex val with
        bumpIndex := t.bumpIndex + 1 }, [], ?_, ?_, update_self ..,
        update_outside _ hnew, rfl⟩
      · unfold insert
        rw [hval, if_neg (by simp), if_pos hzero, if_pos ⟨hroom, h32⟩]
        rfl
      · refine ⟨trivial, hzero, by simp, ?_, hroom⟩
        show (t.bumpIndex :: owned ++ []).Perm (range (t.bumpIndex + 1))
        rw [append_nil, range_succ]
        exact (Perm.cons _ hperm).trans (perm_append_singleton _ _).symm
    · refine Or.inl ⟨by omega, ?_⟩
      unfold insert
      rw [hval, if_neg (by simp), if_pos hzero, if_neg (fun h => hroom h.1)]
      rfl
  | cons x rest =>
    have hpos : t.freeListLen ≠ 0 := by
      rw [ha.len]
      simp
    have hhead : t.freeListHead = x := ha.head x (by simp)
    have hx : x < MAX_ORDERTREE_NODES := ha.lt_of_mem (by simp)
    have hxo : x ∉ owned := fun hmem => ha.not_mem_free hmem (by simp)
    have hperm : (x :: owned ++ rest).Perm (range t.bumpIndex) :=
      perm_middle.symm.trans ha.perm
    have hxrest : x ∉ rest := (nodup_cons.mp (nodup_append.mp ha.nodup).2.1).1
    have hlen' : t.freeListLen - 1 = rest.length := by
      rw [ha.len, length_cons]
      omega
    refine Or.inr ?_
    cases rest with
    | nil =>
      obtain ⟨next, hslot⟩ := ha.chain
      have hone : t.freeListLen = 1 := ha.len
      refine ⟨x, { t.setSlot x val with freeListHead := next, freeListLen := 1 - 1 }, [],
        ?_, ?_, update_self .., update_outside _ hxo, rfl⟩
      · unfold insert
        rw [hval, if_neg (by simp), if_neg hpos, hhead, index_eq hx, ok_bind, hslot]
        simp only [hone, decide_true]
        rfl
      · exact ⟨trivial, by simp, by simp, hperm, hle⟩
    | cons y rest =>
      obtain ⟨hslot, hchain⟩ := ha.chain
      have hmany : 1 < t.freeListLen := by
        rw [ha.len]
        simp
      refine ⟨x, { t.setSlot x val with
        freeListHead := y, freeListLen := t.freeListLen - 1 }, y :: rest,
        ?_, ?_, update_self .., update_outside _ hxo, rfl⟩
      · unfold insert
        rw [hval, if_neg (by simp), if_neg hpos, hhead, index_eq hx, ok_bind, hslot]
        simp only [hmany, decide_true]
        rfl
      · refine ⟨?_, hlen', by simp, hperm, hle⟩
        exact hchain.congr (update_outside _ hxrest)

/-! ## Walking down to an insert location -/

/-- Induction along a walk down a subtree: every round finds the node in its
    slot, and goes on with one of the children and the rest of the fuel. -/
@[elab_as_elim]
theorem walk_induction {P : Nat → NodeTree → Prop}
    (leaf : ∀ fuel x, t.node x.1 = .ok (some (.leaf x.2)) → P (fuel + 1) (.leaf x))
    (inner : ∀ fuel i l r, t.node i.1 = .ok (some (.inner i.2)) →
      i.2.children = ⟨root l, root r⟩ → P fuel l → P fuel r → P (fuel + 1) (.inner i l r))
    (s : NodeTree) : ∀ fuel, (handles s).length ≤ fuel → Held t.nodes s →
      (∀ x ∈ handles s, x < MAX_ORDERTREE_NODES) → P fuel s := by
  induction s with
  | leaf x =>
    intro fuel hfuel hheld hlt
    obtain ⟨fuel, rfl⟩ : ∃ m, fuel = m + 1 :=
      Nat.exists_eq_add_of_le' (Nat.le_trans (length_handles_pos (.leaf x)) hfuel)
    exact leaf fuel x (node_eq (hlt _ (by simp [handles])) hheld rfl)
  | inner i l r ihl ihr =>
    intro fuel hfuel hheld hlt
    obtain ⟨fuel, rfl⟩ : ∃ m, fuel = m + 1 :=
      Nat.exists_eq_add_of_le' (Nat.le_trans (length_handles_pos (.inner i l r)) hfuel)
    obtain ⟨hi, hch, hl, hr⟩ := hheld
    simp only [handles, List.length_cons, List.length_append] at hfuel
    refine inner fuel i l r (node_eq (hlt _ (by simp [handles])) hi rfl) hch ?_ ?_
    · exact ihl fuel (by omega) hl fun x hx => hlt x (by simp [handles, hx])
    · exact ihr fuel (by omega) hr fun x hx => hlt x (by simp [handles, hx])

/-- One descent step of `insert_leaf` keeps the new key on the path. -/
theorem admits_cons_of_le {i : InnerCell} (sib : NodeTree) {c : List NodeFrame}
    (hw : i.2.prefixLen < 128) (hle : i.2.prefixLen ≤ leadingZeros (i.2.key ^^^ k))
    (hadm : Admits nodeKeys c k) :
    Admits nodeKeys (⟨i, k.getMsbD i.2.prefixLen, sib⟩ :: c) k := by
  intro f hf
  rcases mem_cons.mp hf with rfl | hf
  · exact ⟨(le_leadingZeros_xor_iff (Nat.le_of_lt hw) _ _).mp hle, rfl⟩
  · exact hadm f hf

/-- The walk of `insert_leaf` ends at a leaf with the new key, or at a subtree
    all of whose keys part from the new key at one bit. -/
theorem walkToInsert_spec (s : NodeTree) (fuel : Nat) (hfuel : (handles s).length ≤ fuel)
    (hheld : Held t.nodes s) (hlt : ∀ x ∈ handles s, x < MAX_ORDERTREE_NODES) :
    ∀ c : List NodeFrame, s.WF nodeKeys → Admits nodeKeys c k →
      ∃ c' s', plug c' s' = plug c s ∧ Admits nodeKeys c' k ∧
        ((∃ x, s' = .leaf x ∧ x.2.key = k ∧
            t.walkToInsert k fuel (stackOf c) (root s) = .ok (.clobber (stackOf c') x.1 x.2)) ∨
          (∃ n, Splits nodeKeys s' k n ∧
            t.walkToInsert k fuel (stackOf c) (root s) =
              .ok (.split (stackOf c') (root s') (contents s') n))) := by
  refine walk_induction (fun fuel x hslot => ?_) (fun fuel i l r hslot hch ihl ihr => ?_)
    s fuel hfuel hheld hlt
  · intro c hwf hadm
    refine ⟨c, .leaf x, rfl, hadm, ?_⟩
    by_cases hkey : x.2.key = k
    · refine Or.inl ⟨x, rfl, hkey, ?_⟩
      simp [walkToInsert, root, hslot, AnyNode.key, hkey]
    · refine Or.inr ⟨_, splits_leaf nodeKeys hkey, ?_⟩
      simp [walkToInsert, root, contents, hslot, AnyNode.key, hkey, nodeKeys]
  · intro c hwf hadm
    have hw : i.2.prefixLen < 128 := hwf.1
    by_cases hle : i.2.prefixLen ≤ leadingZeros (i.2.key ^^^ k)
    · -- descend: the child's walk, with one more frame
      have hstep : t.walkToInsert k (fuel + 1) (stackOf c) (root (.inner i l r)) =
          t.walkToInsert k fuel ((i.1, k.getMsbD i.2.prefixLen) :: stackOf c)
            (i.2.children.get (k.getMsbD i.2.prefixLen)) := by
        simp [walkToInsert, root, hslot, AnyNode.key, hle, walkDown_eq i.2 hw k]
      rw [hstep, hch]
      cases hb : k.getMsbD i.2.prefixLen with
      | false =>
        have hadm' := admits_cons_of_le r hw hle hadm
        rw [hb] at hadm'
        exact ihl (⟨i, false, r⟩ :: c) hwf.2.2.2.1 hadm'
      | true =>
        have hadm' := admits_cons_of_le l hw hle hadm
        rw [hb] at hadm'
        exact ihr (⟨i, true, l⟩ :: c) hwf.2.2.2.2 hadm'
    · -- the new key leaves the node's prefix
      have hsplit := splits_inner nodeKeys (k := k) hwf (Nat.lt_of_not_le hle)
      refine ⟨c, .inner i l r, rfl, hadm, Or.inr ⟨_, hsplit, ?_⟩⟩
      simp [walkToInsert, root, contents, hslot, AnyNode.key, hle, nodeKeys]

/-! ## Walking down to a leaf -/

/-- The context describes the path that the bits of `k` take. -/
def OnPath (c : List NodeFrame) (k : Key) : Prop :=
  ∀ f ∈ c, k.getMsbD f.i.2.prefixLen = f.bit

/-- The walk of `remove_by_key` ends at the only leaf that can have the key. -/
theorem walkToLeaf_spec (s : NodeTree) (fuel : Nat) (hfuel : (handles s).length ≤ fuel)
    (hheld : Held t.nodes s) (hlt : ∀ x ∈ handles s, x < MAX_ORDERTREE_NODES) :
    ∀ (f : NodeFrame) (c : List NodeFrame), s.WF nodeKeys → OnPath (f :: c) k →
      ∃ f' c' x, plug (f' :: c') (.leaf x) = plug (f :: c) s ∧ OnPath (f' :: c') k ∧
        t.walkToLeaf k fuel (stackOf (f :: c)) f.i.1 (root s) f.bit =
          .ok (if x.2.key ≠ k then none
            else some (stackOf (f' :: c'), f'.i.1, x.1, f'.bit)) := by
  refine walk_induction (fun fuel x hslot => ?_) (fun fuel i l r hslot hch ihl ihr => ?_)
    s fuel hfuel hheld hlt
  · intro f c hwf hpath
    refine ⟨f, c, x, rfl, hpath, ?_⟩
    simp [walkToLeaf, root, hslot]
  · intro f c hwf hpath
    have hw : i.2.prefixLen < 128 := hwf.1
    have hstep : t.walkToLeaf k (fuel + 1) (stackOf (f :: c)) f.i.1
          (root (.inner i l r)) f.bit =
        t.walkToLeaf k fuel ((i.1, k.getMsbD i.2.prefixLen) :: stackOf (f :: c)) i.1
          (i.2.children.get (k.getMsbD i.2.prefixLen)) (k.getMsbD i.2.prefixLen) := by
      simp [walkToLeaf, root, hslot, walkDown_eq i.2 hw k]
    rw [hstep, hch]
    cases hb : k.getMsbD i.2.prefixLen with
    | false =>
      have hpath' : OnPath (⟨i, false, r⟩ :: f :: c) k := forall_mem_cons.mpr ⟨hb, hpath⟩
      exact ihl ⟨i, false, r⟩ (f :: c) hwf.2.2.2.1 hpath'
    | true =>
      have hpath' : OnPath (⟨i, true, l⟩ :: f :: c) k := forall_mem_cons.mpr ⟨hb, hpath⟩
      exact ihr ⟨i, true, l⟩ (f :: c) hwf.2.2.2.2 hpath'

/-! ## Updating expiries up the stack -/

/-- The frames after `update_parent_earliest_expiry`. -/
def updateExpiry : List NodeFrame → Nat → Nat → List NodeFrame
  | [], _, _ => []
  | f :: c, outdatedExpiry, newExpiry =>
    if f.i.2.childEarliestExpiry.get f.bit ≠ outdatedExpiry then f :: c
    else
      let parent' := { f.i.2 with
        childEarliestExpiry := f.i.2.childEarliestExpiry.set f.bit newExpiry }
      { f with i := (f.i.1, parent') } :: updateExpiry c f.i.2.earliestExpiry parent'.earliestExpiry

theorem updateExpiry_same (c : List NodeFrame) (o n : Nat) :
    Forall₂ (Frame.Same nodeKeys) c (updateExpiry c o n) := by
  induction c generalizing o n with
  | nil => exact Forall₂.nil
  | cons f c ih =>
    unfold updateExpiry
    split
    · exact Forall₂.cons (Frame.Same.refl f)
        (forall₂_same.mpr fun g _ => Frame.Same.refl g)
    · exact Forall₂.cons ⟨rfl, rfl, rfl, rfl⟩ (ih _ _)

theorem ctxHandles_updateExpiry (c : List NodeFrame) (o n : Nat) :
    ctxHandles (updateExpiry c o n) = ctxHandles c := by
  induction c generalizing o n with
  | nil => rfl
  | cons f c ih =>
    unfold updateExpiry
    split
    · rfl
    · simp [ih]

theorem ctxRoot_updateExpiry (c : List NodeFrame) (o n : Nat) (hole : NodeHandle) :
    ctxRoot hole (updateExpiry c o n) = ctxRoot hole c := by
  induction c generalizing o n hole with
  | nil => rfl
  | cons f c ih =>
    unfold updateExpiry
    split
    · rfl
    · simp only [ctxRoot, ih]

/-- The update rewrites the context's inner nodes and nothing else. -/
theorem updateParentEarliestExpiry_spec (c : List NodeFrame) :
    ∀ (t : OrderTreeNodes) (hole : NodeHandle) (o n : Nat), CtxHeld t.nodes hole c →
      (ctxHandles c).Nodup → (∀ x ∈ ctxHandles c, x < MAX_ORDERTREE_NODES) →
      ∃ nodes', t.updateParentEarliestExpiry (stackOf c) o n = .ok { t with nodes := nodes' } ∧
        CtxHeld nodes' hole (updateExpiry c o n) ∧ ∀ x ∉ ctxHandles c, nodes' x = t.nodes x := by
  induction c with
  | nil =>
    intro t hole o n _ _ _
    exact ⟨t.nodes, rfl, trivial, fun _ _ => rfl⟩
  | cons f c ih =>
    intro t hole o n hheld hnodup hlt
    have hslot : t.node f.i.1 = .ok (some (.inner f.i.2)) :=
      node_eq (hlt _ (by simp)) hheld.1.slot rfl
    by_cases hne : f.i.2.childEarliestExpiry.get f.bit ≠ o
    · refine ⟨t.nodes, ?_, ?_, fun _ _ => rfl⟩
      · simp [updateParentEarliestExpiry, hslot, AnyNode.asInner, hne]
      · rw [updateExpiry, if_pos hne]
        exact hheld
    · obtain ⟨hf, hc⟩ := hheld
      rw [ctxHandles_cons, nodup_cons, nodup_append] at hnodup
      obtain ⟨hnotin, -, hnodupc, hdisj⟩ := hnodup
      have hfc : f.i.1 ∉ ctxHandles c := fun hx => hnotin (mem_append_right _ hx)
      -- the parent's slot is rewritten first, the rest of the context is untouched by that
      let parent' : InnerNode := { f.i.2 with
        childEarliestExpiry := f.i.2.childEarliestExpiry.set f.bit n }
      have hc' : CtxHeld (t.setSlot f.i.1 (.inner parent')).nodes f.i.1 c :=
        hc.congr fun x hx =>
          update_of_ne (fun (heq : x = f.i.1) => hfc (heq ▸ hx)) _ _
      obtain ⟨nodes', hrun, hheld', hsame⟩ := ih (t.setSlot f.i.1 (.inner parent')) f.i.1
        f.i.2.earliestExpiry parent'.earliestExpiry hc' hnodupc
        (fun x hx => hlt x (by simp [hx]))
      refine ⟨nodes', ?_, ?_, ?_⟩
      · simp only [updateParentEarliestExpiry, stackOf_cons, hslot, ok_bind, unwrap_some,
          AnyNode.asInner, if_neg hne]
        exact hrun
      · rw [updateExpiry, if_neg hne]
        refine ⟨⟨?_, hf.taken, hf.other, ?_⟩, hheld'⟩
        · show nodes' f.i.1 = .inner parent'
          rw [hsame _ hfc]
          exact update_self ..
        · refine hf.sib.congr fun x hx => ?_
          rw [hsame x (fun hxc => hdisj x hx x hxc rfl)]
          exact update_of_ne
            (fun (heq : x = f.i.1) => hnotin (heq ▸ mem_append_left _ hx)) _ _
      · intro x hx
        simp only [ctxHandles_cons, mem_cons, mem_append, not_or] at hx
        rw [hsame x hx.2.2]
        exact update_of_ne hx.1 _ _

end OrderTreeNodes

end MangoV4
