/-
  MangoV4.Health.Reads

  What health reads of a token.

  The loops over markets and perp positions read tokens and prices, but no
  weights and no balances.  A type of health reads the spot balances and the
  weights of that type, and nothing else.
-/

import MangoV4.Health.Cache
import MangoV4.Lib.Loops

namespace MangoV4

open Lib Lib.Exec List TokenInfo Serum3Info

/-! ## Lists -/

theorem nth_eq_ok {α : Type} {l : List α} {i : Nat} {a : α} : nth l i = .ok a ↔ l[i]? = some a := by
  unfold nth
  cases l[i]? with
  | none => exact ⟨nofun, nofun⟩
  | some b => simp

/-- Entries of two lists of the same length. -/
theorem nth_cases {α β : Type} {l : List α} {l' : List β} (h : l.length = l'.length) (i : Nat) :
    (nth l i = .error (.panic .outOfBounds) ∧ nth l' i = .error (.panic .outOfBounds)) ∨
      ∃ (hi : i < l.length) (hi' : i < l'.length), nth l i = .ok l[i] ∧ nth l' i = .ok l'[i] := by
  unfold nth
  by_cases hi : i < l.length
  · rw [getElem?_eq_getElem hi, getElem?_eq_getElem (h ▸ hi)]
    exact Or.inr ⟨hi, h ▸ hi, rfl, rfl⟩
  · rw [getElem?_eq_none (not_lt.mp hi), getElem?_eq_none (h ▸ not_lt.mp hi)]
    exact Or.inl ⟨rfl, rfl⟩

theorem forall₂_zip {α β γ : Type} {R : α → β → Prop} {l : List α} {l' : List β}
    (h : Forall₂ R l l') (m : List γ) :
    Forall₂ (fun x y => R x.1 y.1 ∧ x.2 = y.2) (l.zip m) (l'.zip m) := by
  induction h generalizing m with
  | nil => exact .nil
  | cons hab _ ih =>
    cases m with
    | nil => exact .nil
    | cons c m => exact .cons ⟨hab, rfl⟩ (ih m)

/-! ## Tokens and prices -/

variable {N : Type}

/-- Tokens and prices are the same. -/
def SameTokens (infos infos' : List (TokenInfo N)) : Prop :=
  infos.map (fun t => (t.tokenIndex, t.prices)) = infos'.map fun t => (t.tokenIndex, t.prices)

variable {c c' : HealthCache N} {infos infos' : List (TokenInfo N)}

theorem SameTokens.length_eq (h : SameTokens infos infos') : infos.length = infos'.length := by
  have hlength := congrArg length h
  rwa [length_map, length_map] at hlength

theorem SameTokens.tokenIndices (h : SameTokens infos infos') :
    infos.map tokenIndex = infos'.map tokenIndex := by
  have hfst := congrArg (map Prod.fst) h
  rwa [map_map, map_map] at hfst

theorem SameTokens.prices_eq (h : SameTokens infos infos') {i : Nat} (hi : i < infos.length)
    (hi' : i < infos'.length) : infos[i].prices = infos'[i].prices := by
  have hget := congrArg (·[i]?) h
  simp only [getElem?_map, getElem?_eq_getElem hi, getElem?_eq_getElem hi',
    Option.map_some] at hget
  exact congrArg Prod.snd (Option.some.inj hget)

theorem SameTokens.exists_mem (h : SameTokens infos infos') {t' : TokenInfo N} (ht : t' ∈ infos') :
    ∃ t ∈ infos, t.prices = t'.prices := by
  have hmem : (t'.tokenIndex, t'.prices) ∈ infos.map fun t => (t.tokenIndex, t.prices) :=
    h ▸ mem_map.mpr ⟨t', ht, rfl⟩
  obtain ⟨t, ht, heq⟩ := mem_map.mp hmem
  exact ⟨t, ht, congrArg Prod.snd heq⟩

theorem SameTokens.findIdx?_eq (h : SameTokens infos infos') (tokenIndex : TokenIndex) :
    infos.findIdx? (fun t => decide (t.tokenIndex = tokenIndex)) =
      infos'.findIdx? fun t => decide (t.tokenIndex = tokenIndex) := by
  have hfind := congrArg (findIdx? fun x => decide (x.1 = tokenIndex)) h
  rwa [findIdx?_map, findIdx?_map] at hfind

theorem HealthCache.tokenInfoIndex_congr (h : SameTokens c.tokenInfos c'.tokenInfos) :
    c.tokenInfoIndex = c'.tokenInfoIndex := by
  funext tokenIndex
  unfold tokenInfoIndex
  rw [h.findIdx?_eq]

/-- The token is the same for one type of health. -/
structure TokenInfo.SameFor (T : HealthType) (t t' : TokenInfo N) : Prop where
  tokenIndex : t.tokenIndex = t'.tokenIndex
  prices : t.prices = t'.prices
  balanceSpot : t.balanceSpot = t'.balanceSpot
  assetWeight : t.assetWeight T = t'.assetWeight T
  liabWeight : t.liabWeight T = t'.liabWeight T

theorem sameTokens_of_sameFor {T : HealthType} (h : Forall₂ (SameFor T) infos infos') :
    SameTokens infos infos' := by
  induction h with
  | nil => rfl
  | cons ht _ ih =>
    exact congrArg₂ cons (Prod.ext ht.tokenIndex ht.prices) ih

variable [Arith N]

theorem HealthCache.addPerp_congr (h : SameTokens c.tokenInfos c'.tokenInfos) :
    c.addPerp = c'.addPerp := by
  funext T ignore balances p
  unfold addPerp
  rw [tokenInfoIndex_congr h]

theorem HealthCache.reserve_congr (h : SameTokens c.tokenInfos c'.tokenInfos) :
    c.reserve = c'.reserve := by
  have hlength := h.length_eq
  funext T st info
  unfold reserve
  rcases nth_cases hlength info.quoteInfoIndex with ⟨h₁, h₁'⟩ | ⟨hq, hq', hquote, hquote'⟩
  · rw [h₁, h₁']
    rfl
  · rw [hquote, hquote', ok_bind, ok_bind]
    rcases nth_cases hlength info.baseInfoIndex with ⟨h₂, h₂'⟩ | ⟨hb, hb', hbase, hbase'⟩
    · rw [h₂, h₂']
      rfl
    · rw [hbase, hbase', ok_bind, ok_bind]
      unfold allReservedAsBase allReservedAsQuote
      rw [h.prices_eq hq hq', h.prices_eq hb hb']

theorem HealthCache.computeSerum3Reservations_congr (h : SameTokens c.tokenInfos c'.tokenInfos)
    (hmarkets : c.serum3Infos = c'.serum3Infos) :
    c.computeSerum3Reservations = c'.computeSerum3Reservations := by
  funext T
  unfold computeSerum3Reservations
  rw [reserve_congr h, hmarkets, h.length_eq]

/-! ## Weights and balances -/

section SameFor

variable {T : HealthType}

theorem TokenInfo.SameFor.healthContribution {t t' : TokenInfo N} (h : t.SameFor T t') :
    t.healthContribution T = t'.healthContribution T := by
  funext balance
  unfold TokenInfo.healthContribution assetWeightedPrice liabWeightedPrice
  rw [h.assetWeight, h.liabWeight, h.prices]

theorem TokenInfo.SameFor.healthEffect {t t' : TokenInfo N} (h : t.SameFor T t') :
    t.healthEffect T = t'.healthEffect T := by
  funext balance maxReserved marketReserved
  unfold TokenInfo.healthEffect
  rw [h.assetWeight, h.liabWeight, h.prices]

theorem Serum3Info.healthContribution_congr (h : Forall₂ (SameFor T) infos infos')
    (s : Serum3Info N) : s.healthContribution T infos = s.healthContribution T infos' := by
  have hlength := h.length_eq
  funext balances tokenMaxReserved r
  unfold healthContribution
  rcases nth_cases hlength s.baseInfoIndex with ⟨h₁, h₁'⟩ | ⟨hb, hb', hbase, hbase'⟩
  · rw [h₁, h₁']
    rfl
  · rw [hbase, hbase', ok_bind, ok_bind]
    rcases nth_cases hlength s.quoteInfoIndex with ⟨h₂, h₂'⟩ | ⟨hq, hq', hquote, hquote'⟩
    · rw [h₂, h₂']
      rfl
    · have hbaseSame : SameFor T infos[s.baseInfoIndex] infos'[s.baseInfoIndex] :=
        h.get hb hb'
      have hquoteSame : SameFor T infos[s.quoteInfoIndex] infos'[s.quoteInfoIndex] :=
        h.get hq hq'
      rw [hquote, hquote', ok_bind, ok_bind, hbaseSame.healthEffect, hquoteSame.healthEffect]

theorem HealthCache.effectiveTokenBalances_congr
    (h : Forall₂ (SameFor T) c.tokenInfos c'.tokenInfos)
    (hperps : c.perpInfos = c'.perpInfos) :
    c.effectiveTokenBalances = c'.effectiveTokenBalances := by
  funext T'
  unfold effectiveTokenBalances effectiveTokenBalancesInternal
  rw [addPerp_congr (sameTokens_of_sameFor h), hperps, h.length_eq]
  refine bind_congr fun l => mapM_congr ?_ (forall₂_zip h l)
  intro x y hxy
  rw [hxy.1.balanceSpot, hxy.2]

/-- Health reads nothing else of a token. -/
theorem HealthCache.health_congr
    (h : Forall₂ (SameFor T) c.tokenInfos c'.tokenInfos)
    (hmarkets : c.serum3Infos = c'.serum3Infos) (hperps : c.perpInfos = c'.perpInfos) :
    c.health T = c'.health T := by
  have htokens := sameTokens_of_sameFor h
  have hsum : c.healthSum T = c'.healthSum T := by
    funext balances
    unfold healthSum
    rw [mapM_congr (g := fun x => x.1.healthContribution T x.2) ?_ (forall₂_zip h balances),
      computeSerum3Reservations_congr htokens hmarkets, hmarkets]
    · simp only [healthContribution_congr h]
    · intro x y hxy
      rw [hxy.1.healthContribution, hxy.2]
  unfold health
  rw [effectiveTokenBalances_congr h hperps, hsum]

end SameFor

end MangoV4
