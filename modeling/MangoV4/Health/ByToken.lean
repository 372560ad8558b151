/-
  MangoV4.Health.ByToken

  Health by tokens instead of places in the list of token infos, so that caches
  with different lists can be compared.
-/

import MangoV4.Health.Exact

namespace MangoV4

open Lib Lib.Exec List Serum3Info

namespace HealthCache

def tokenIndices (c : HealthCache ℚ) : List TokenIndex := c.tokenInfos.map TokenInfo.tokenIndex

/-- The token at a place. -/
def tokenAt (c : HealthCache ℚ) (i : Nat) : TokenIndex := c.tokenIndices.getD i 0

/-- The place of a token. -/
def place (c : HealthCache ℚ) (t : TokenIndex) : Nat := c.tokenIndices.idxOf t

/-- The entry of a token in a list with one entry for each token info. -/
def entryOf (c : HealthCache ℚ) (l : List ℚ) (t : TokenIndex) : ℚ := l.getD (c.place t) 0

def weightsOf (c : HealthCache ℚ) (T : HealthType) (t : TokenIndex) : Weights :=
  c.weights T (c.place t)

def pricesOf (c : HealthCache ℚ) (t : TokenIndex) : Prices ℚ :=
  (c.tokenInfos[c.place t]?.map TokenInfo.prices).getD ⟨0, 0⟩

end HealthCache

/-- A market with tokens in place of places. -/
def Serum3Info.rename {N : Type} (tokens : List TokenIndex) (info : Serum3Info N) : Serum3Info N :=
  { info with
    baseInfoIndex := tokens.getD info.baseInfoIndex 0
    quoteInfoIndex := tokens.getD info.quoteInfoIndex 0 }

/-- The two outcomes of the open orders on a market that is given by its tokens. -/
def Serum3Info.pendingAt (prices : TokenIndex → Prices ℚ) (T : HealthType) (info : Serum3Info ℚ) :
    Pending TokenIndex where
  fst := info.baseInfoIndex
  snd := info.quoteInfoIndex
  toFst := info.reservedBase + convertAt info.reservedQuote ((prices info.quoteInfoIndex).asset T)
    ((prices info.baseInfoIndex).liab T) info.reservedQuoteAsBaseHighestBid
  toSnd := info.reservedQuote + convertAt info.reservedBase ((prices info.baseInfoIndex).asset T)
    ((prices info.quoteInfoIndex).liab T) info.reservedBaseAsQuoteLowestAsk

namespace HealthCache

/-- The markets, by their tokens. -/
def tokenMarkets (c : HealthCache ℚ) : List (Serum3Info ℚ) :=
  c.serum3Infos.map (Serum3Info.rename c.tokenIndices)

/-- What may come from the open orders on all markets, by tokens. -/
def tokenPendings (c : HealthCache ℚ) (T : HealthType) : List (Pending TokenIndex) :=
  c.tokenMarkets.map (Serum3Info.pendingAt c.pricesOf T)

variable {c : HealthCache ℚ} {T : HealthType}

theorem tokenAt_of_info {i : Nat} {info : TokenInfo ℚ} (h : c.tokenInfos[i]? = some info) :
    c.tokenAt i = info.tokenIndex := by
  rw [tokenAt, getD_eq_getElem?_getD, tokenIndices, getElem?_map, h]
  rfl

theorem place_of_info (hnodup : c.tokenIndices.Nodup) {i : Nat} {info : TokenInfo ℚ}
    (h : c.tokenInfos[i]? = some info) : c.place info.tokenIndex = i := by
  obtain ⟨hi, rfl⟩ := List.getElem?_eq_some_iff.mp h
  have hidx := hnodup.idxOf_getElem i (by rwa [tokenIndices, List.length_map])
  simpa [place, tokenIndices] using hidx

theorem place_tokenAt (hnodup : c.tokenIndices.Nodup) {i : Nat} (hi : i < c.tokenInfos.length) :
    c.place (c.tokenAt i) = i := by
  have hget := getElem?_eq_getElem hi
  rw [tokenAt_of_info hget, place_of_info hnodup hget]

/-- There is a token info for each token. -/
theorem exists_info {t : TokenIndex} (h : t ∈ c.tokenIndices) :
    ∃ info, c.tokenInfos[c.place t]? = some info ∧ info.tokenIndex = t := by
  have hlt : c.place t < c.tokenInfos.length := by
    have hidx := idxOf_lt_length_iff.mpr h
    rwa [tokenIndices, length_map] at hidx
  refine ⟨c.tokenInfos[c.place t], getElem?_eq_getElem hlt, ?_⟩
  have hget : c.tokenIndices[c.tokenIndices.idxOf t]? = some t := getElem?_idxOf h
  rw [tokenIndices, getElem?_map] at hget
  change c.tokenInfos[c.place t]?.map _ = _ at hget
  rw [getElem?_eq_getElem hlt] at hget
  exact Option.some.inj hget

theorem pricesOf_of_info (hnodup : c.tokenIndices.Nodup) {i : Nat} {info : TokenInfo ℚ}
    (h : c.tokenInfos[i]? = some info) : c.pricesOf info.tokenIndex = info.prices := by
  rw [pricesOf, place_of_info hnodup h, h]
  rfl

/-- The pending amounts of a market do not depend on how its tokens are given. -/
theorem Converts.pendingAt_rename (hc : c.Priced) (hnodup : c.tokenIndices.Nodup)
    {info : Serum3Info ℚ} {r : Serum3Reserved ℚ} (h : c.Converts T info r) :
    (info.pending r).map c.tokenAt = (info.rename c.tokenIndices).pendingAt c.pricesOf T := by
  obtain ⟨quoteInfo, baseInfo, hconverted⟩ := h.converted hc
  have hquote : c.tokenIndices.getD info.quoteInfoIndex 0 = quoteInfo.tokenIndex :=
    tokenAt_of_info hconverted.quoteToken
  have hbase : c.tokenIndices.getD info.baseInfoIndex 0 = baseInfo.tokenIndex :=
    tokenAt_of_info hconverted.baseToken
  unfold Pending.map pending pendingAt rename
  rw [hquote, hbase, pricesOf_of_info hnodup hconverted.quoteToken,
    pricesOf_of_info hnodup hconverted.baseToken, ← hconverted.asBase, ← hconverted.asQuote,
    tokenAt_of_info hconverted.quoteToken, tokenAt_of_info hconverted.baseToken]

theorem pendings_map_tokenAt (hc : c.Priced) (hnodup : c.tokenIndices.Nodup)
    {reserved : List (Serum3Reserved ℚ)}
    (h : Forall₂ (c.Converts T) c.serum3Infos reserved) :
    (c.pendings reserved).map (Pending.map c.tokenAt) = c.tokenPendings T := by
  unfold pendings tokenPendings tokenMarkets
  generalize c.serum3Infos = infos at h ⊢
  induction h with
  | nil => rfl
  | cons hr _ ih =>
    rw [zipWith_cons_cons, map_cons, map_cons, map_cons, ih,
      hr.pendingAt_rename hc hnodup]

/-- Health by tokens. -/
theorem health_byToken (hc : c.Priced) (hnodup : c.tokenIndices.Nodup)
    {balances tokenMaxReserved : List ℚ} {reserved : List (Serum3Reserved ℚ)}
    (hbalances : c.effectiveTokenBalances T = .ok balances)
    (hreserved : c.computeSerum3Reservations T = .ok (tokenMaxReserved, reserved)) :
    c.health T = .ok (estimate c.tokenIndices.toFinset (c.weightsOf T)
      (fun t => c.entryOf balances t + c.entryOf tokenMaxReserved t) (c.entryOf balances)
      (c.tokenPendings T)) := by
  obtain ⟨hconverts, -, -⟩ := computeSerum3Reservations_eq_ok hreserved
  have hinj : Set.InjOn c.tokenAt (Finset.range c.tokenInfos.length) := by
    intro i hi j hj hij
    rw [← place_tokenAt hnodup (Finset.mem_range.mp hi), hij,
      place_tokenAt hnodup (Finset.mem_range.mp hj)]
  have himage : (Finset.range c.tokenInfos.length).image c.tokenAt = c.tokenIndices.toFinset := by
    ext t
    rw [Finset.mem_image, mem_toFinset]
    constructor
    · rintro ⟨i, hi, rfl⟩
      have hget := getElem?_eq_getElem (Finset.mem_range.mp hi)
      rw [tokenAt_of_info hget]
      exact mem_map_of_mem (mem_of_getElem? hget)
    · intro ht
      obtain ⟨info, hinfo, rfl⟩ := exists_info ht
      exact ⟨_, Finset.mem_range.mpr (List.getElem?_eq_some_iff.mp hinfo).1, tokenAt_of_info hinfo⟩
  rw [health_eq_estimate hc hbalances hreserved, ← pendings_map_tokenAt hc hnodup hconverts, ← himage,
    estimate_map hinj]
  refine congrArg Except.ok (estimate_congr ?_ ?_ ?_ fun p hp =>
    have hwithin := hc.within hconverts p hp
    ⟨hwithin.fst_mem, hwithin.snd_mem⟩)
  · intro i hi
    rw [weightsOf, place_tokenAt hnodup (Finset.mem_range.mp hi)]
  · intro i hi
    rw [entryOf, entryOf, place_tokenAt hnodup (Finset.mem_range.mp hi)]
  · intro i hi
    rw [entryOf, place_tokenAt hnodup (Finset.mem_range.mp hi)]

end HealthCache

end MangoV4
