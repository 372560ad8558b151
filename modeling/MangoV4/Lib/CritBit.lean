/-
  MangoV4.Lib.CritBit

  Crit-bit trees over keys of a fixed width, as annotated binary trees.

  Inner nodes carry an annotation of type `I`, leaves one of type `L`; what
  the annotations are is left to the user, who only says how to read a key
  and a prefix length from them (`Keys`).  The invariant `Tree.WF` is the
  usual one: below an inner node all keys share its prefix and the next bit
  separates the left child from the right one.

  Iterative walks are described with a zipper: a list of `Frame`s, innermost
  first, each remembering the inner node passed, the side taken and the
  sibling left behind.  `plug_WF_iff` splits the invariant of a plugged tree
  into the one of its context and the one of the subtree in the hole, which
  is what replacing that subtree needs.
-/

import MangoV4.Lib.BitPrefix
import Mathlib.Data.List.Nodup

namespace MangoV4.Lib.CritBit

open List

/-- A binary tree with annotated inner nodes and leaves. -/
inductive Tree (I L : Type) where
  | leaf (x : L)
  | inner (i : I) (l r : Tree I L)
deriving Repr, DecidableEq

/-- One step of a descent: the inner node, the side taken (`true` is right)
    and the other child. -/
structure Frame (I L : Type) where
  i : I
  bit : Bool
  sib : Tree I L

/-- How keys are read from the annotations. -/
structure Keys (w : Nat) (I L : Type) where
  prefixLen : I → Nat
  innerKey : I → BitVec w
  leafKey : L → BitVec w

variable {w : Nat} {I L : Type} (K : Keys w I L)

/-! ## Trees and contexts -/

namespace Tree

/-- The leaves from left to right. -/
def leaves : Tree I L → List L
  | .leaf x => [x]
  | .inner _ l r => l.leaves ++ r.leaves

/-- The keys of the leaves from left to right. -/
def keys (t : Tree I L) : List (BitVec w) := t.leaves.map K.leafKey

theorem leaves_ne_nil (t : Tree I L) : t.leaves ≠ [] := by
  induction t with
  | leaf x => simp [leaves]
  | inner i l r ihl ihr => simp [leaves, ihl]

theorem length_leaves_pos (t : Tree I L) : 0 < t.leaves.length :=
  length_pos_iff.mpr t.leaves_ne_nil

end Tree

/-- Key `k` may stand below inner node `i` on side `bit`. -/
def Keys.Fits (i : I) (bit : Bool) (k : BitVec w) : Prop :=
  SamePrefix (K.prefixLen i) (K.innerKey i) k ∧ k.getMsbD (K.prefixLen i) = bit

/-- The crit-bit invariant. -/
def Tree.WF : Tree I L → Prop
  | .leaf _ => True
  | .inner i l r =>
    K.prefixLen i < w ∧ (∀ k ∈ l.keys K, K.Fits i false k) ∧
      (∀ k ∈ r.keys K, K.Fits i true k) ∧ l.WF ∧ r.WF

/-- Put a subtree back under the inner node of a frame. -/
def Frame.plug (f : Frame I L) (t : Tree I L) : Tree I L :=
  match f.bit with
  | false => .inner f.i t f.sib
  | true => .inner f.i f.sib t

/-- Put a subtree into the hole of a context, innermost frame first. -/
def plug : List (Frame I L) → Tree I L → Tree I L
  | [], t => t
  | f :: c, t => plug c (f.plug t)

/-- Key `k` lies on the path a context describes. -/
def Admits (c : List (Frame I L)) (k : BitVec w) : Prop :=
  ∀ f ∈ c, K.Fits f.i f.bit k

/-- The part of the invariant that a context carries by itself. -/
def CtxWF : List (Frame I L) → Prop
  | [] => True
  | f :: c =>
    K.prefixLen f.i < w ∧ f.sib.WF K ∧
      (∀ k ∈ f.sib.keys K, K.Fits f.i (!f.bit) k ∧ Admits K c k) ∧ CtxWF c

/-- The keys left behind by a descent. -/
def ctxLeaves (c : List (Frame I L)) : List L := c.flatMap fun f => f.sib.leaves

@[simp] theorem ctxLeaves_nil : ctxLeaves ([] : List (Frame I L)) = [] := rfl

@[simp] theorem ctxLeaves_cons (f : Frame I L) (c : List (Frame I L)) :
    ctxLeaves (f :: c) = f.sib.leaves ++ ctxLeaves c := rfl

@[simp] theorem plug_nil (t : Tree I L) : plug [] t = t := rfl

@[simp] theorem plug_cons (f : Frame I L) (c : List (Frame I L)) (t : Tree I L) :
    plug (f :: c) t = plug c (f.plug t) := rfl

theorem Frame.leaves_plug_perm (f : Frame I L) (t : Tree I L) :
    (f.plug t).leaves.Perm (t.leaves ++ f.sib.leaves) := by
  obtain ⟨i, bit, sib⟩ := f
  cases bit with
  | false => exact Perm.refl _
  | true => exact perm_append_comm

/-- The leaves of a plugged tree: those of the hole and those left behind. -/
theorem leaves_plug_perm (c : List (Frame I L)) (t : Tree I L) :
    (plug c t).leaves.Perm (t.leaves ++ ctxLeaves c) := by
  induction c generalizing t with
  | nil => simp
  | cons f c ih =>
    refine (ih (f.plug t)).trans ?_
    rw [ctxLeaves_cons, ← append_assoc]
    exact Perm.append_right _ (f.leaves_plug_perm t)

theorem length_leaves_plug (c : List (Frame I L)) (t : Tree I L) :
    (plug c t).leaves.length = t.leaves.length + (ctxLeaves c).length := by
  rw [(leaves_plug_perm c t).length_eq, length_append]

/-! ## The invariant of a plugged tree -/

theorem Frame.plug_WF_iff (f : Frame I L) (t : Tree I L) :
    (f.plug t).WF K ↔ K.prefixLen f.i < w ∧ f.sib.WF K ∧
      (∀ k ∈ f.sib.keys K, K.Fits f.i (!f.bit) k) ∧ t.WF K ∧
      (∀ k ∈ t.keys K, K.Fits f.i f.bit k) := by
  obtain ⟨i, bit, sib⟩ := f
  cases bit <;> simp only [Frame.plug, Tree.WF, Bool.not_false, Bool.not_true] <;> tauto

variable {f : Frame I L} {t : Tree I L} {c c' : List (Frame I L)}

theorem mem_keys_framePlug {k : BitVec w} :
    k ∈ (f.plug t).keys K ↔ k ∈ t.keys K ∨ k ∈ f.sib.keys K := by
  unfold Tree.keys
  rw [((f.leaves_plug_perm t).map K.leafKey).mem_iff, map_append, mem_append]

/-- A plugged tree is well formed exactly when its context is, the subtree
    is, and every key of the subtree lies on the context's path. -/
theorem plug_WF_iff (c : List (Frame I L)) (t : Tree I L) :
    (plug c t).WF K ↔ CtxWF K c ∧ t.WF K ∧ ∀ k ∈ t.keys K, Admits K c k := by
  induction c generalizing t with
  | nil => simp [CtxWF, Admits]
  | cons f c ih =>
    rw [plug_cons, ih, f.plug_WF_iff, CtxWF]
    constructor
    · rintro ⟨hc, ⟨hlt, hsib, hfits, ht, hkeys⟩, hall⟩
      refine ⟨⟨hlt, hsib, ?_, hc⟩, ht, ?_⟩
      · intro k hk
        exact ⟨hfits k hk, hall k ((mem_keys_framePlug K).mpr (Or.inr hk))⟩
      · intro k hk g hg
        rcases mem_cons.mp hg with rfl | hg
        · exact hkeys k hk
        · exact hall k ((mem_keys_framePlug K).mpr (Or.inl hk)) g hg
    · rintro ⟨⟨hlt, hsib, hfits, hc⟩, ht, hall⟩
      refine ⟨hc, ⟨hlt, hsib, fun k hk => (hfits k hk).1, ht, ?_⟩, ?_⟩
      · intro k hk
        exact hall k hk f (mem_cons_self ..)
      · intro k hk
        rcases (mem_keys_framePlug K).mp hk with hk | hk
        · exact fun g hg => hall k hk g (mem_cons_of_mem _ hg)
        · exact (hfits k hk).2

/-- Dropping the subtree in the hole: the sibling takes the parent's place. -/
theorem plug_sib_WF (h : (plug (f :: c) t).WF K) : (plug c f.sib).WF K := by
  obtain ⟨⟨-, hsib, hfits, hc⟩, -, -⟩ := (plug_WF_iff K (f :: c) t).mp h
  exact (plug_WF_iff K c f.sib).mpr ⟨hc, hsib, fun k hk => (hfits k hk).2⟩

/-- `k` parts from every key of `t` at bit `n`. -/
def Splits (t : Tree I L) (k : BitVec w) (n : Nat) : Prop :=
  n < w ∧ ∀ y ∈ t.keys K, SamePrefix n k y ∧ y.getMsbD n = !k.getMsbD n

/-- Adding a leaf next to the subtree in the hole, under a new inner node
    that holds the prefix they share. -/
theorem plug_split_WF {i : I} {x : L} (h : (plug c t).WF K) (hadm : Admits K c (K.leafKey x))
    (hkey : K.innerKey i = K.leafKey x) (hsplit : Splits K t (K.leafKey x) (K.prefixLen i)) :
    (plug (⟨i, (K.leafKey x).getMsbD (K.prefixLen i), t⟩ :: c) (.leaf x)).WF K := by
  obtain ⟨hc, ht, hall⟩ := (plug_WF_iff K c t).mp h
  rw [plug_WF_iff, CtxWF]
  refine ⟨⟨hsplit.1, ht, ?_, hc⟩, trivial, ?_⟩
  · intro k hk
    obtain ⟨hpre, hbit⟩ := hsplit.2 k hk
    exact ⟨⟨hkey ▸ hpre, hbit⟩, hall k hk⟩
  · intro k hk g hg
    obtain rfl : k = K.leafKey x := by simpa [Tree.keys, Tree.leaves] using hk
    rcases mem_cons.mp hg with rfl | hg
    · exact ⟨hkey ▸ SamePrefix.refl _ _, rfl⟩
    · exact hadm g hg

theorem splits_leaf {y : L} {k : BitVec w} (hne : K.leafKey y ≠ k) :
    Splits K (.leaf y : Tree I L) k (leadingZeros (K.leafKey y ^^^ k)) := by
  have hlt := leadingZeros_xor_lt hne
  refine ⟨hlt, ?_⟩
  intro y' hy'
  obtain rfl : y' = K.leafKey y := by simpa [Tree.keys, Tree.leaves] using hy'
  refine ⟨(samePrefix_leadingZeros _ _).symm, ?_⟩
  exact Bool.eq_not_of_ne (getMsbD_leadingZeros_ne hlt)

theorem splits_inner {i : I} {l r : Tree I L} {k : BitVec w}
    (h : (Tree.inner i l r).WF K)
    (hlt : leadingZeros (K.innerKey i ^^^ k) < K.prefixLen i) :
    Splits K (.inner i l r) k (leadingZeros (K.innerKey i ^^^ k)) := by
  obtain ⟨hw, hl, hr, -, -⟩ := h
  have hlw : leadingZeros (K.innerKey i ^^^ k) < w := Nat.lt_trans hlt hw
  refine ⟨hlw, ?_⟩
  intro y hy
  have hpre : SamePrefix (K.prefixLen i) (K.innerKey i) y := by
    simp only [Tree.keys, Tree.leaves, map_append, mem_append] at hy
    rcases hy with hy | hy
    · exact (hl y hy).1
    · exact (hr y hy).1
  constructor
  · exact (samePrefix_leadingZeros _ _).symm.trans
      (hpre.mono (Nat.le_of_lt hlt) (Nat.le_of_lt hw))
  · rw [← hpre.getMsbD_eq hlt (Nat.le_of_lt hw)]
    exact Bool.eq_not_of_ne (getMsbD_leadingZeros_ne hlw)

/-! ## Searching -/

/-- Following the bits of `k` never leaves `k` behind. -/
theorem mem_hole_of_onPath {k : BitVec w}
    (h : (plug c t).WF K) (hpath : ∀ f ∈ c, k.getMsbD (K.prefixLen f.i) = f.bit) {y : L}
    (hy : y ∈ (plug c t).leaves) (hk : K.leafKey y = k) : y ∈ t.leaves := by
  induction c generalizing t with
  | nil => exact hy
  | cons f c ih =>
    have hin := ih h (fun g hg => hpath g (mem_cons_of_mem _ hg)) hy
    rw [(f.leaves_plug_perm t).mem_iff, mem_append] at hin
    rcases hin with hin | hin
    · exact hin
    · obtain ⟨⟨-, -, hfits, -⟩, -, -⟩ := (plug_WF_iff K (f :: c) t).mp h
      have hbit := (hfits (K.leafKey y) (mem_map_of_mem hin)).1.2
      rw [hk, hpath f (mem_cons_self ..)] at hbit
      cases hfb : f.bit <;> simp [hfb] at hbit

theorem Admits.onPath {k : BitVec w} (h : Admits K c k) :
    ∀ f ∈ c, k.getMsbD (K.prefixLen f.i) = f.bit := fun f hf => (h f hf).2

/-- A key that parts from the hole's keys occurs nowhere in the tree. -/
theorem not_mem_keys_of_splits {k : BitVec w} {n : Nat}
    (h : (plug c t).WF K) (hadm : Admits K c k) (hsplit : Splits K t k n) :
    k ∉ (plug c t).keys K := by
  intro hk
  obtain ⟨y, hy, rfl⟩ := mem_map.mp hk
  have hin := mem_hole_of_onPath K h hadm.onPath hy rfl
  have := (hsplit.2 _ (mem_map_of_mem hin)).2
  cases hb : (K.leafKey y).getMsbD n <;> simp [hb] at this

/-! ## Order -/

/-- Read from left to right, the keys of a well-formed tree increase. -/
theorem Tree.WF.keys_pairwise (h : t.WF K) : (t.keys K).Pairwise (· < ·) := by
  induction t with
  | leaf x => simp [Tree.keys, Tree.leaves]
  | inner i l r ihl ihr =>
    obtain ⟨hw, hl, hr, hwl, hwr⟩ := h
    rw [Tree.keys, Tree.leaves, map_append, pairwise_append]
    refine ⟨ihl hwl, ihr hwr, ?_⟩
    intro a ha b hb
    obtain ⟨hpa, hba⟩ := hl a ha
    obtain ⟨hpb, hbb⟩ := hr b hb
    exact lt_of_samePrefix hw (hpa.symm.trans hpb) hba hbb

theorem Tree.WF.keys_nodup (h : t.WF K) : (t.keys K).Nodup :=
  (h.keys_pairwise K).imp fun hlt heq => by
    rw [heq, BitVec.lt_def] at hlt
    exact Nat.lt_irrefl _ hlt

/-! ## Changing annotations

Annotations may change as long as keys and prefix lengths do not. -/

namespace Tree

/-- Change the annotation of the root. -/
def mapRoot (fI : I → I) (fL : L → L) : Tree I L → Tree I L
  | .leaf x => .leaf (fL x)
  | .inner i l r => .inner (fI i) l r

end Tree

variable {K}

theorem Tree.keys_mapRoot {fI : I → I} {fL : L → L}
    (hL : ∀ x, K.leafKey (fL x) = K.leafKey x) (t : Tree I L) :
    (t.mapRoot fI fL).keys K = t.keys K := by
  cases t with
  | leaf x => simp [Tree.mapRoot, Tree.keys, Tree.leaves, hL]
  | inner i l r => rfl

theorem Tree.mapRoot_WF {fI : I → I} {fL : L → L}
    (hp : ∀ i, K.prefixLen (fI i) = K.prefixLen i) (hk : ∀ i, K.innerKey (fI i) = K.innerKey i) (h : t.WF K) : (t.mapRoot fI fL).WF K := by
  cases t with
  | leaf x => trivial
  | inner i l r =>
    obtain ⟨hw, hl, hr, hwl, hwr⟩ := h
    refine ⟨by rw [hp]; exact hw, ?_, ?_, hwl, hwr⟩
    · intro k hkl
      rw [Keys.Fits, hp, hk]
      exact hl k hkl
    · intro k hkr
      rw [Keys.Fits, hp, hk]
      exact hr k hkr

/-- The tree with all leaves changed. -/
def Tree.mapLeaves (g : L → L) : Tree I L → Tree I L
  | .leaf x => .leaf (g x)
  | .inner i l r => .inner i (l.mapLeaves g) (r.mapLeaves g)

theorem Tree.leaves_mapLeaves (g : L → L) (t : Tree I L) :
    (t.mapLeaves g).leaves = t.leaves.map g := by
  induction t with
  | leaf x => rfl
  | inner i l r ihl ihr => rw [mapLeaves, leaves, leaves, ihl, ihr, map_append]

/-- Changing leaves but not their keys keeps the invariant. -/
theorem Tree.mapLeaves_WF {g : L → L} (hg : ∀ x, K.leafKey (g x) = K.leafKey x)
    (h : t.WF K) : (t.mapLeaves g).WF K := by
  have hkeys : ∀ s : Tree I L, (s.mapLeaves g).keys K = s.keys K := by
    intro s
    rw [keys, keys, leaves_mapLeaves, map_map]
    exact map_congr_left fun x _ => hg x
  induction t with
  | leaf x => trivial
  | inner i l r ihl ihr =>
    obtain ⟨hlen, hl, hr, hwl, hwr⟩ := h
    refine ⟨hlen, ?_, ?_, ihl hwl, ihr hwr⟩
    · rw [hkeys]
      exact hl
    · rw [hkeys]
      exact hr

/-- Replacing the hole by a well-formed subtree with keys on the path. -/
theorem plug_WF_of_keys {t' : Tree I L} (h : (plug c t).WF K)
    (ht' : t'.WF K) (hkeys : ∀ k ∈ t'.keys K, Admits K c k) : (plug c t').WF K :=
  (plug_WF_iff K c t').mpr ⟨((plug_WF_iff K c t).mp h).1, ht', hkeys⟩

/-- Two frames that differ at most in data that is not part of the keys. -/
structure Frame.Same (K : Keys w I L) (f f' : Frame I L) : Prop where
  bit : f'.bit = f.bit
  sib : f'.sib = f.sib
  prefixLen : K.prefixLen f'.i = K.prefixLen f.i
  innerKey : K.innerKey f'.i = K.innerKey f.i

theorem Frame.Same.refl (f : Frame I L) : Frame.Same K f f := ⟨rfl, rfl, rfl, rfl⟩

theorem Frame.Same.fits_iff {f' : Frame I L} (h : Frame.Same K f f') (b : Bool)
    (k : BitVec w) : K.Fits f'.i b k ↔ K.Fits f.i b k := by
  unfold Keys.Fits
  rw [h.prefixLen, h.innerKey]

theorem admits_congr (h : Forall₂ (Frame.Same K) c c')
    (k : BitVec w) : Admits K c' k ↔ Admits K c k := by
  induction h with
  | nil => rfl
  | cons hf hc ih =>
    unfold Admits at ih ⊢
    rw [forall_mem_cons, forall_mem_cons, ih, hf.bit, hf.fits_iff]

theorem ctxWF_congr (h : Forall₂ (Frame.Same K) c c') :
    CtxWF K c' ↔ CtxWF K c := by
  induction h with
  | nil => rfl
  | cons hf hc ih =>
    simp only [CtxWF, ih, hf.bit, hf.sib, hf.prefixLen, hf.fits_iff, admits_congr hc]

theorem plug_WF_congr (h : Forall₂ (Frame.Same K) c c') (ht : (plug c t).WF K) : (plug c' t).WF K := by
  rw [plug_WF_iff] at ht ⊢
  exact ⟨(ctxWF_congr h).mpr ht.1, ht.2.1, fun k hk => (admits_congr h k).mpr (ht.2.2 k hk)⟩

theorem ctxLeaves_congr (h : Forall₂ (Frame.Same K) c c') :
    ctxLeaves c' = ctxLeaves c := by
  induction h with
  | nil => rfl
  | cons hf hc ih =>
    rw [ctxLeaves_cons, ctxLeaves_cons, ih, hf.sib]

end MangoV4.Lib.CritBit
