/-
  MangoV4.Health.NewCacheSpec

  What the three loops that build a health cache do.

  Without skipping there is one token for each position, in the order of the
  positions, and every serum3 market finds its tokens.
-/

import MangoV4.Health.NewCache
import MangoV4.Health.Reads

namespace MangoV4

open Lib Lib.Exec List TokenInfo

/-- What does not change when balances do. -/
def TokenInfo.static {N : Type} [Zero N] (t : TokenInfo N) : TokenInfo N :=
  { t with balanceSpot := 0 }

namespace Health

variable {N : Type}

/-! ## The token loop -/

variable {i : Nat}

/-- Entries at different places have different keys. -/
theorem ne_of_nodup_map {α κ : Type} {key : α → κ} {l : List α} (h : (l.map key).Nodup) {j : Nat}
    {a b : α} (ha : l[i]? = some a) (hb : l[j]? = some b) (hij : i ≠ j) : key a ≠ key b := by
  obtain ⟨hi, rfl⟩ := List.getElem?_eq_some_iff.mp ha
  obtain ⟨hj, rfl⟩ := List.getElem?_eq_some_iff.mp hb
  intro heq
  have hget : (l.map key).get ⟨i, by rwa [length_map]⟩ =
      (l.map key).get ⟨j, by rwa [length_map]⟩ := by simpa using heq
  exact hij (congrArg Fin.val (h.get_inj_iff.mp hget))

section Tokens

variable [Arith N] [Doubles N] {r : AccountRetriever N} {nowTs : Nat}

/-- The token of a position that is not skipped. -/
def Loads (r : AccountRetriever N) (nowTs : Nat) (x : TokenPosition N × Nat) (info : TokenInfo N) :
    Prop :=
  ∃ bank price, r.bankAndOracle x.2 x.1.tokenIndex = .ok (bank, price) ∧
    tokenInfo x.1 bank price nowTs = .ok info

variable {available : List TokenIndex}

variable {o : Option (TokenInfo N)} {info : TokenInfo N} {position : TokenPosition N}

theorem loadToken_eq_some {x : TokenPosition N × Nat} (h : loadToken r nowTs false available x = .ok o) :
    ∃ info, o = some info ∧ Loads r nowTs x info := by
  obtain ⟨⟨bank, price⟩, hbank, h⟩ := of_bind h
  obtain ⟨info, hinfo, h⟩ := of_bind h
  exact ⟨info, (ok_inj h).symm, bank, price, hbank, hinfo⟩

/-- A position that is skipped is not negative. -/
theorem loadToken_cases {x : TokenPosition N × Nat} (h : loadToken r nowTs true available x = .ok o) :
    (o = none ∧ 0 ≤ x.1.indexedPosition) ∨ ∃ info, o = some info ∧ Loads r nowTs x info := by
  unfold loadToken at h
  split at h
  · obtain ⟨_, hnonneg, h⟩ := of_bind h
    exact Or.inl ⟨(ok_inj h).symm, of_require hnonneg⟩
  · split at h
    · next hskip => exact Or.inl ⟨(ok_inj h).symm, hskip.2.2⟩
    · obtain ⟨⟨bank, price⟩, hbank, h⟩ := of_bind h
      obtain ⟨info, hinfo, h⟩ := of_bind h
      exact Or.inr ⟨info, (ok_inj h).symm, bank, price, hbank, hinfo⟩

/-- Without skipping there is one token for each position. -/
theorem loadTokens_eq_ok {xs : List (TokenPosition N × Nat)}
    {os : List (Option (TokenInfo N))} (h : xs.mapM (loadToken r nowTs false available) = .ok os) :
    Forall₂ (Loads r nowTs) xs os.reduceOption := by
  have hall := mapM_eq_ok.mp h
  clear h
  induction hall with
  | nil => exact .nil
  | cons hx _ ih =>
    obtain ⟨info, rfl, hloads⟩ := loadToken_eq_some hx
    exact .cons hloads ih

theorem Loads.unique {x : TokenPosition N × Nat} {info' : TokenInfo N}
    (h : Loads r nowTs x info) (h' : Loads r nowTs x info') : info = info' := by
  obtain ⟨bank, price, hbank, hinfo⟩ := h
  obtain ⟨bank', price', hbank', hinfo'⟩ := h'
  obtain ⟨rfl, rfl⟩ := Prod.mk.inj (ok_unique hbank hbank')
  exact ok_unique hinfo hinfo'

theorem loads_at {positions : List (TokenPosition N)} {l : List (TokenInfo N)}
    (h : Forall₂ (Loads r nowTs) positions.zipIdx l) {i : Nat}
    (hi : positions[i]? = some position) : ∃ info, l[i]? = some info ∧
      Loads r nowTs (position, i) info := by
  have hlength : positions.length = l.length := by rw [← h.length_eq, List.length_zipIdx]
  obtain ⟨hlt, rfl⟩ := List.getElem?_eq_some_iff.mp hi
  refine ⟨l[i], List.getElem?_eq_getElem (hlength ▸ hlt), ?_⟩
  have hget := h.get (List.length_zipIdx ▸ hlt) (hlength ▸ hlt)
  simpa using hget

/-- The token of a position, in one piece. -/
theorem tokenInfo_eq_ok {bank : Bank N} {price : N} (h : tokenInfo position bank price nowTs = .ok info) :
    ∃ native maint asset liab, position.native bank = .ok native ∧
      bank.maintWeights nowTs = .ok maint ∧
      bank.scaledInitAssetWeight (Prices.liab ⟨price, bank.stablePrice⟩ .init) = .ok asset ∧
      bank.scaledInitLiabWeight (Prices.liab ⟨price, bank.stablePrice⟩ .init) = .ok liab ∧
      info = ⟨bank.tokenIndex, maint.1, bank.initAssetWeight, asset, maint.2, bank.initLiabWeight,
        liab, ⟨price, bank.stablePrice⟩, native⟩ := by
  obtain ⟨native, hnative, h⟩ := of_bind h
  obtain ⟨maint, hmaint, h⟩ := of_bind h
  obtain ⟨asset, hasset, h⟩ := of_bind h
  obtain ⟨liab, hliab, h⟩ := of_bind h
  exact ⟨native, maint, asset, liab, hnative, hmaint, hasset, hliab, (ok_inj h).symm⟩

end Tokens

/-! ## The loop over serum3 markets -/

/-- Replacing a token by one with the same index and prices. -/
theorem sameTokens_set {l : List (TokenInfo N)} {info info' : TokenInfo N}
    (hi : l[i]? = some info) (htoken : info'.tokenIndex = info.tokenIndex)
    (hprices : info'.prices = info.prices) : SameTokens l (l.set i info') := by
  refine ext_getElem? fun j => ?_
  rw [getElem?_map, getElem?_map]
  by_cases hij : i = j
  · subst hij
    rw [hi, List.getElem?_set_self (List.getElem?_eq_some_iff.mp hi).1]
    exact congrArg some (Prod.ext htoken.symm hprices.symm)
  · rw [List.getElem?_set_ne hij]

variable {infos : List (TokenInfo N)} {t : TokenIndex}

theorem findTokenInfoIndex_some (h : findTokenInfoIndex infos t = some i) :
    (infos.map tokenIndex)[i]? = some t := by
  obtain ⟨hi, htoken, -⟩ := findIdx?_eq_some_iff_getElem.mp h
  rw [getElem?_map, getElem?_eq_getElem hi]
  exact congrArg some (of_decide_eq_true htoken)

theorem findTokenInfoIndex_none
    (h : findTokenInfoIndex infos t = none) : t ∉ infos.map tokenIndex := by
  intro ht
  obtain ⟨info, hinfo, htoken⟩ := mem_map.mp ht
  have hfalse := findIdx?_eq_none_iff.mp h info hinfo
  exact of_decide_eq_false hfalse htoken

section Serum3

variable [Arith N]

variable {l l₁ infos infos' : List (TokenInfo N)} {amount : N}

theorem addSpot_eq_ok {i : Nat} (h : addSpot l i amount = .ok l₁) : ∃ info y, l[i]? = some info ∧
      (Arith.add info.balanceSpot amount : Exec N) = .ok y ∧
      l₁ = l.set i { info with balanceSpot := y } := by
  obtain ⟨info, hinfo, h⟩ := of_bind h
  obtain ⟨y, hy, h⟩ := of_bind h
  exact ⟨info, y, nth_eq_ok.mp hinfo, hy, (ok_inj h).symm⟩

/-- Nothing but balances is different. -/
def SameStatic (infos infos' : List (TokenInfo N)) : Prop :=
  infos.map TokenInfo.static = infos'.map TokenInfo.static

theorem SameStatic.trans {infos'' : List (TokenInfo N)} (h : SameStatic infos infos')
    (h' : SameStatic infos' infos'') : SameStatic infos infos'' := Eq.trans h h'

theorem SameStatic.sameTokens (h : SameStatic infos infos') :
    SameTokens infos infos' := by
  have hmap := congrArg (map fun t => (t.tokenIndex, t.prices)) h
  rwa [map_map, map_map] at hmap

theorem sameStatic_addSpot {i : Nat} (h : addSpot l i amount = .ok l₁) : SameStatic l l₁ := by
  obtain ⟨info, y, hinfo, -, rfl⟩ := addSpot_eq_ok h
  refine ext_getElem? fun j => ?_
  rw [getElem?_map, getElem?_map]
  by_cases hij : i = j
  · subst hij
    rw [hinfo, List.getElem?_set_self (List.getElem?_eq_some_iff.mp hinfo).1]
    rfl
  · rw [List.getElem?_set_ne hij]

variable [Doubles N] {r : AccountRetriever N} {st st₁ : List (TokenInfo N) × List (Serum3Info N)}
  {x : Serum3Orders × Nat}

variable {allowSkippingBanks : Bool} {s : Serum3Orders} {oo : OpenOrders} {base quote : Nat}

/-- A market is added, or it is skipped because one of its tokens is not there. -/
theorem loadSerum3_cases (h : loadSerum3 r allowSkippingBanks st x = .ok st₁) :
    (∃ oo base quote, r.serumOo x.2 x.1.openOrders = .ok oo ∧
      findTokenInfoIndex st.1 x.1.baseTokenIndex = some base ∧
      findTokenInfoIndex st.1 x.1.quoteTokenIndex = some quote ∧
      addSerum3 x.1 oo base quote st = .ok st₁) ∨
    ((findTokenInfoIndex st.1 x.1.baseTokenIndex = none ∨
        findTokenInfoIndex st.1 x.1.quoteTokenIndex = none) ∧
      allowSkippingBanks = true ∧ st₁ = st) := by
  obtain ⟨oo, hoo, h⟩ := of_bind h
  split at h
  · next base quote hbase hquote => exact Or.inl ⟨oo, base, quote, hoo, hbase, hquote, h⟩
  · rename_i hnone
    obtain ⟨_, hallow, h⟩ := of_bind h
    refine Or.inr ⟨?_, require_eq_ok.mp hallow, (ok_inj h).symm⟩
    cases hbase : findTokenInfoIndex st.1 x.1.baseTokenIndex with
    | none => exact Or.inl rfl
    | some base =>
      cases hquote : findTokenInfoIndex st.1 x.1.quoteTokenIndex with
      | none => exact Or.inr rfl
      | some quote => exact absurd hquote (hnone base quote hbase)

/-- A market that is not skipped. -/
theorem loadSerum3_eq_ok (h : loadSerum3 r false st x = .ok st₁) :
    ∃ oo base quote, r.serumOo x.2 x.1.openOrders = .ok oo ∧
      findTokenInfoIndex st.1 x.1.baseTokenIndex = some base ∧
      findTokenInfoIndex st.1 x.1.quoteTokenIndex = some quote ∧
      addSerum3 x.1 oo base quote st = .ok st₁ := by
  rcases loadSerum3_cases h with hadded | ⟨-, hallow, -⟩
  · exact hadded
  · cases hallow

theorem addSerum3_eq_ok (h : addSerum3 s oo base quote st = .ok st₁) :
    ∃ info, newSerum3Info s oo base quote = .ok info ∧ st₁.2 = st.2 ++ [info] := by
  obtain ⟨_, -, h⟩ := of_bind h
  obtain ⟨_, -, h⟩ := of_bind h
  obtain ⟨_, -, h⟩ := of_bind h
  obtain ⟨_, -, h⟩ := of_bind h
  obtain ⟨info, hinfo, h⟩ := of_bind h
  obtain rfl := ok_inj h
  exact ⟨info, hinfo, rfl⟩

/-- The amounts of a market do not depend on the places of its tokens. -/
theorem newSerum3Info_places
    {info : Serum3Info N} (h : newSerum3Info s oo base quote = .ok info) (base' quote' : Nat) :
    info.baseInfoIndex = base ∧ info.quoteInfoIndex = quote ∧
      newSerum3Info s oo base' quote' =
        .ok { info with baseInfoIndex := base', quoteInfoIndex := quote' } := by
  obtain ⟨a, ha, h⟩ := of_bind h
  obtain ⟨b, hb, h⟩ := of_bind h
  obtain ⟨a', ha', h⟩ := of_bind h
  obtain ⟨b', hb', h⟩ := of_bind h
  obtain ⟨ask, hask, h⟩ := of_bind h
  obtain ⟨bid, hbid, h⟩ := of_bind h
  obtain ⟨x, hx, h⟩ := of_bind h
  obtain ⟨y, hy, h⟩ := of_bind h
  obtain rfl := ok_inj h
  refine ⟨rfl, rfl, ?_⟩
  unfold newSerum3Info
  rw [ha, ok_bind, hb, ok_bind, ha', ok_bind, hb', ok_bind, hask, ok_bind, hbid, ok_bind, hx, ok_bind,
    hy, ok_bind]
  rfl

theorem sameStatic_addSerum3
    (h : addSerum3 s oo base quote st = .ok st₁) : SameStatic st.1 st₁.1 := by
  obtain ⟨_, -, h⟩ := of_bind h
  obtain ⟨_, -, h⟩ := of_bind h
  obtain ⟨infos, hinfos, h⟩ := of_bind h
  obtain ⟨infos₁, hinfos₁, h⟩ := of_bind h
  obtain ⟨info, -, h⟩ := of_bind h
  obtain rfl := ok_inj h
  exact (sameStatic_addSpot hinfos).trans (sameStatic_addSpot hinfos₁)

theorem sameStatic_loadSerum3
    (h : loadSerum3 r allowSkippingBanks st x = .ok st₁) : SameStatic st.1 st₁.1 := by
  rcases loadSerum3_cases h with ⟨oo, base, quote, -, -, -, hadd⟩ | ⟨-, -, rfl⟩
  · exact sameStatic_addSerum3 hadd
  · rfl

/-- The loop only changes balances. -/
theorem sameStatic_serum3 {orders : List (Serum3Orders × Nat)}
    (h : orders.foldlM (loadSerum3 r allowSkippingBanks) st = .ok st₁) : SameStatic st.1 st₁.1 := by
  refine foldlM_keeps (P := fun s => SameStatic st.1 s.1) ?_ ?_ h
  · intro x s s₁ hs hstep
    exact hs.trans (sameStatic_loadSerum3 hstep)
  · rfl

end Serum3

/-! ## The whole cache -/

section Cache

variable [Arith N] [Doubles N] {r : AccountRetriever N} {nowTs : Nat} {account : Account N}

variable {c : HealthCache N} {infos : List (TokenInfo N)}

/-- The three loops without skipping. -/
theorem newHealthCache_eq_ok (h : newHealthCache account r nowTs = .ok c) :
    ∃ infos, Forall₂ (Loads r nowTs) account.activeTokenPositions.zipIdx infos ∧
      account.activeSerum3Orders.zipIdx.foldlM (loadSerum3 r false) (infos, []) =
        .ok (c.tokenInfos, c.serum3Infos) ∧
      account.activePerpPositions.zipIdx.mapM (loadPerp r false c.tokenInfos) = .ok c.perpInfos := by
  obtain ⟨available, -, h⟩ := of_bind h
  obtain ⟨tokens, htokens, h⟩ := of_bind h
  obtain ⟨⟨tokenInfos, serum3Infos⟩, hserum3, h⟩ := of_bind h
  obtain ⟨perpInfos, hperps, h⟩ := of_bind h
  obtain rfl := ok_inj h
  exact ⟨tokens.reduceOption, loadTokens_eq_ok htokens, hserum3, hperps⟩

omit [Doubles N] in
/-- Without skipping, tokens are not needed for perp positions. -/
theorem loadPerp_congr {r' : AccountRetriever N}
    (h : r'.perpMarketAndOraclePrice = r.perpMarketAndOraclePrice)
    (infos infos' : List (TokenInfo N)) : loadPerp r' false infos' = loadPerp r false infos := by
  funext x
  unfold loadPerp
  simp only [h, Bool.false_eq_true, false_and, if_false]

/-- The tokens of the positions, in their order. -/
theorem tokenIndices_of_loads
    (h : Forall₂ (Loads r nowTs) account.activeTokenPositions.zipIdx infos) :
    infos.map tokenIndex = account.activeTokenPositions.map TokenPosition.tokenIndex := by
  have hlength : account.activeTokenPositions.length = infos.length := by
    rw [← h.length_eq, length_zipIdx]
  refine ext_getElem? fun i => ?_
  rw [getElem?_map, getElem?_map]
  cases hposition : account.activeTokenPositions[i]? with
  | none => rw [getElem?_eq_none (hlength ▸ getElem?_eq_none_iff.mp hposition)]; rfl
  | some position =>
    obtain ⟨info, hinfo, bank, price, hbank, htoken⟩ := loads_at h hposition
    obtain ⟨_, _, _, _, -, -, -, -, rfl⟩ := tokenInfo_eq_ok htoken
    rw [hinfo]
    exact congrArg some (r.bank_tokenIndex hbank)

omit [Arith N] [Doubles N] in
/-- Every token is found where it stands. -/
theorem findIdx?_of_nodup (h : (infos.map tokenIndex).Nodup)
    {k : Nat} {info : TokenInfo N} (hk : infos[k]? = some info) :
    infos.findIdx? (fun t => decide (t.tokenIndex = info.tokenIndex)) = some k := by
  obtain ⟨hlt, rfl⟩ := List.getElem?_eq_some_iff.mp hk
  refine List.findIdx?_eq_some_iff_getElem.mpr ⟨hlt, decide_eq_true rfl, fun j hj => ?_⟩
  have hne := ne_of_nodup_map h (List.getElem?_eq_getElem (hj.trans hlt)) hk hj.ne
  simpa using hne

/-- The tokens of a cache are the tokens of the positions. -/
theorem tokenIndices_newHealthCache (h : newHealthCache account r nowTs = .ok c) :
    c.tokenInfos.map tokenIndex =
      account.activeTokenPositions.map TokenPosition.tokenIndex := by
  obtain ⟨infos, hinfos, hserum3, -⟩ := newHealthCache_eq_ok h
  rw [← (sameStatic_serum3 hserum3).sameTokens.tokenIndices, tokenIndices_of_loads hinfos]

end Cache

end Health

end MangoV4
