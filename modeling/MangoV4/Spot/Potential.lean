/-
  MangoV4.Spot.Potential

  The potential tokens of the banks and of the open orders.

  `SpotGroup.tally` forgets everything but the potential tokens: one counter
  for each bank of a token, and the total of all active spot entries that trade
  the token.  Placing an order and settling change the potential tokens of an
  entry, and the counter of the bank that was passed in follows.

  Any bank of the token may be passed in.  If a different one is used for
  settling than for placing, the difference cannot be taken off its counter, so
  the banks may add up to more than the entries.  With one bank for each token
  they are equal, and only testing groups can have more than one.
-/

import MangoV4.Spot.Accounts
import Mathlib.Algebra.Order.BigOperators.Group.Finset
import Mathlib.Data.FinEnum

namespace MangoV4

open Lib Lib.Exec MangoAccount List Function Option

/-! ## The totals -/

/-- Potential tokens of an entry in token `t`. -/
def Serum3Orders.potentialFor (o : Serum3Orders) (t : TokenIndex) : Nat :=
  (if o.baseTokenIndex = t then o.potentialBaseTokens else 0) +
    (if o.quoteTokenIndex = t then o.potentialQuoteTokens else 0)

/-- Potential tokens of the active entries of an account. -/
def MangoAccount.potentialFor (a : MangoAccount) (t : TokenIndex) : Nat :=
  (a.serum3.map fun o => if o.isActive then o.potentialFor t else 0).sum

namespace SpotGroup

/-- Potential tokens of all accounts. -/
def ordersPotential (s : SpotGroup) (t : TokenIndex) : Nat :=
  ∑ key, (s.accounts key).elim 0 (MangoAccount.potentialFor · t)

/-- Potential tokens of the banks of a token. -/
def bankPotentials (s : SpotGroup) (t : TokenIndex) : List Nat :=
  (s.banks t).map Bank.potentialSerumTokens

def tally (s : SpotGroup) : Tally TokenIndex where
  counters := s.bankPotentials
  total := s.ordersPotential

theorem tally_counters (s : SpotGroup) : s.tally.counters = s.bankPotentials := rfl

theorem tally_total (s : SpotGroup) : s.tally.total = s.ordersPotential := by
  rw [tally]

/-- Only the accounts matter. -/
theorem ordersPotential_congr {s s' : SpotGroup} (h : s'.accounts = s.accounts) :
    s'.ordersPotential = s.ordersPotential := by
  unfold ordersPotential
  rw [h]

@[simp] theorem ordersPotential_setBank (s : SpotGroup) (t : TokenIndex) (i : Nat) (b : Bank) :
    (s.setBank t i b).ordersPotential = s.ordersPotential := ordersPotential_congr rfl

@[simp] theorem ordersPotential_setOpenOrders (s : SpotGroup) (key : Pubkey)
    (m : Serum3MarketIndex) (oo : OpenOrdersAccount) :
    (s.setOpenOrders key m oo).ordersPotential = s.ordersPotential := ordersPotential_congr rfl

@[simp] theorem bankPotentials_setAccount (s : SpotGroup) (key : Pubkey) (a : MangoAccount) :
    (s.setAccount key a).bankPotentials = s.bankPotentials := rfl

@[simp] theorem bankPotentials_setOpenOrders (s : SpotGroup) (key : Pubkey)
    (m : Serum3MarketIndex) (oo : OpenOrdersAccount) :
    (s.setOpenOrders key m oo).bankPotentials = s.bankPotentials := rfl

end SpotGroup

variable {s s' : SpotGroup} {a a' : MangoAccount} {m : Serum3MarketIndex} {o o' : Serum3Orders}
  {b b' c c' : Bank} {key : Pubkey} {t : TokenIndex} {i : Nat}

/-- What changing one side of an entry does to its potential tokens. -/
theorem potentialFor_side (side : TokenSide) (htokens : ∀ side, o'.tokenIndex side = o.tokenIndex side)
    (hother : o'.potentialTokens side.other = o.potentialTokens side.other) (t : TokenIndex) :
    o'.potentialFor t + (if o.tokenIndex side = t then o.potentialTokens side else 0) =
      o.potentialFor t + if o.tokenIndex side = t then o'.potentialTokens side else 0 := by
  have hbase : o'.baseTokenIndex = o.baseTokenIndex := htokens .base
  have hquote : o'.quoteTokenIndex = o.quoteTokenIndex := htokens .quote
  unfold Serum3Orders.potentialFor
  rw [hbase, hquote]
  cases side with
  | base =>
    have hother : o'.potentialQuoteTokens = o.potentialQuoteTokens := hother
    rw [hother]
    show _ + (if o.baseTokenIndex = t then o.potentialBaseTokens else 0) =
      _ + if o.baseTokenIndex = t then o'.potentialBaseTokens else 0
    omega
  | quote =>
    have hother : o'.potentialBaseTokens = o.potentialBaseTokens := hother
    rw [hother]
    show _ + (if o.quoteTokenIndex = t then o.potentialQuoteTokens else 0) =
      _ + if o.quoteTokenIndex = t then o'.potentialQuoteTokens else 0
    omega

theorem potentialFor_eq (o : Serum3Orders) (side : TokenSide) (t : TokenIndex) :
    o.potentialFor t = (if o.tokenIndex side = t then o.potentialTokens side else 0) +
      if o.tokenIndex side.other = t then o.potentialTokens side.other else 0 := by
  cases side with
  | base => rfl
  | quote => exact Nat.add_comm _ _

theorem isActive_of_ne (h : o.marketIndex ≠ FREE_SERUM3_INDEX) : o.isActive = true :=
  decide_eq_true h

/-- What changing one entry does to the potential tokens of the account. -/
theorem MangoAccount.Rewrites.potentialFor (h : Rewrites a a' m o o') (hm : m ≠ FREE_SERUM3_INDEX)
    (t : TokenIndex) : a'.potentialFor t + o.potentialFor t = a.potentialFor t + o'.potentialFor t := by
  have ho : o.isActive = true := isActive_of_ne (marketIndex_of_find h.found ▸ hm)
  have ho' : o'.isActive = true := isActive_of_ne (h.market ▸ hm)
  have hsum := sum_map_replaceFirst (x := o')
    (fun o => if o.isActive then o.potentialFor t else 0) h.found
  simp only [ho, ho', if_true] at hsum
  unfold MangoAccount.potentialFor
  rw [h.entries]
  exact hsum

theorem potentialFor_le_of_find (h : a.serum3.find? (Serum3Orders.isActiveForMarket m) = some o)
    (hm : m ≠ FREE_SERUM3_INDEX) (t : TokenIndex) : o.potentialFor t ≤ a.potentialFor t := by
  have ho : o.isActive = true := isActive_of_ne (marketIndex_of_find h ▸ hm)
  have hmem := mem_map_of_mem (f := fun o : Serum3Orders => if o.isActive then o.potentialFor t else 0)
    (mem_of_find?_eq_some h)
  rw [if_pos ho] at hmem
  exact single_le_sum (fun _ _ => Nat.zero_le _) _ hmem

namespace SpotGroup

theorem ordersPotential_setAccount (ha : s.accounts key = some a) (a' : MangoAccount)
    (t : TokenIndex) : (s.setAccount key a').ordersPotential t + a.potentialFor t =
      s.ordersPotential t + a'.potentialFor t := by
  have hsum := sum_apply_update_add
    (fun x : Option MangoAccount => x.elim 0 (potentialFor · t)) s.accounts key (some a')
  rw [ha] at hsum
  exact hsum

theorem potentialFor_le_ordersPotential (ha : s.accounts key = some a) (t : TokenIndex) :
    a.potentialFor t ≤ s.ordersPotential t := by
  have hle : (s.accounts key).elim 0 (potentialFor · t) ≤ s.ordersPotential t :=
    Finset.single_le_sum (f := fun k => (s.accounts k).elim 0 (potentialFor · t))
      (fun _ _ => Nat.zero_le _) (Finset.mem_univ key)
  rw [ha] at hle
  exact hle

theorem bankPotentials_setBank {old new : Nat} (hb : (s.banks t)[i]? = some b)
    (hb' : b'.potentialSerumTokens = follow b.potentialSerumTokens old new) :
    (s.setBank t i b').bankPotentials =
      update s.bankPotentials t ((s.bankPotentials t).modify i (follow · old new)) := by
  funext t'
  show (update s.banks t ((s.banks t).set i b') t').map _ = _
  by_cases ht : t' = t
  · subst ht
    rw [update_self, update_self, map_set, bankPotentials,
      modify_eq_set_getElem?, getElem?_map, hb, hb']
    rfl
  · rw [update_of_ne ht, update_of_ne ht]
    rfl

/-- Writing back a bank with the same potential tokens. -/
theorem bankPotentials_setBank_self (hb : (s.banks t)[i]? = some b)
    (hb' : b'.potentialSerumTokens = b.potentialSerumTokens) :
    (s.setBank t i b').bankPotentials = s.bankPotentials := by
  funext t'
  show (update s.banks t ((s.banks t).set i b') t').map _ = _
  by_cases ht : t' = t
  · subst ht
    obtain ⟨hi, rfl⟩ := List.getElem?_eq_some_iff.mp hb
    rw [update_self, List.map_set, hb', ← List.getElem_map Bank.potentialSerumTokens,
      List.set_getElem_self]
    · rfl
    · simpa using hi
  · rw [update_of_ne ht]
    rfl

theorem banks_setBank_of_ne {t' : TokenIndex} {i' : Nat} (hne : ¬ (t = t' ∧ i = i')) (b' : Bank) :
    ((s.setBank t i b').banks t')[i']? = (s.banks t')[i']? := by
  show (update s.banks t ((s.banks t).set i b') t')[i']? = _
  by_cases ht : t' = t
  · subst ht
    rw [update_self, getElem?_set_ne fun hi => hne ⟨rfl, hi⟩]
  · rw [update_of_ne ht]

/-! ## Placing and settling -/

/-- Placing an order and settling change the entry of a market and two banks. -/
inductive Traded (s : SpotGroup) : SpotGroup → Prop where
  | intro {key : Pubkey} {m : Serum3MarketIndex} {a a' : MangoAccount} {o o' : Serum3Orders}
      {t t' : TokenIndex} {i i' : Nat} {b b' c c' : Bank} {products : Products}
      {oo : OpenOrdersAccount} (haccount : s.accounts key = some a)
      (hrewrites : Rewrites a a' m o o') (hopened : o.openOrders = some m)
      (hb : (s.banks t)[i]? = some b) (hbToken : b.tokenIndex = t)
      (hc : (s.banks t')[i']? = some c) (hcToken : c.tokenIndex = t') (hne : ¬ (t = t' ∧ i = i'))
      (hfollows : Follows oo.amounts products o o' b b' c c')
      (hclosable : oo.closable = true → (s.openOrders key m).closable = true ∨
        ∀ side, newPotentialTokens oo.amounts products side = .ok (o'.potentialTokens side)) :
      Traded s ((((s.setBank t i b').setBank t' i' c').setAccount key a').setOpenOrders key m oo)

/-- An account that trading leaves empty was empty before, if it counts as settled. -/
theorem closable_of_trade {oo : OpenOrdersAccount} {after : OpenOrdersSlim}
    (h : (oo.trade after).closable = true) : oo.closable = true := by
  obtain ⟨hempty, hsettled⟩ := Bool.and_eq_true_iff.mp h
  have hempty : after.isEmpty = true := hempty
  have hsettled : (!after.isEmpty || (oo.amounts.isEmpty && oo.settled)) = true := hsettled
  rw [hempty] at hsettled
  exact hsettled

theorem serum3PlaceOrder_traded {x : PlaceOrder} (h : s.serum3PlaceOrder x = .ok s') :
    s.Traded s' := by
  obtain ⟨market, a, o, b, c, a₁, b', c', a', hloaded, hentries, htrack, rfl⟩ :=
    serum3PlaceOrder_eq_ok h
  obtain ⟨o₁, o', hrewrites, hfollows⟩ := PlaceOrder.track_follows htrack
  have hrewrites := hrewrites.congr hentries.symm rfl
  obtain rfl : o = o₁ := some.inj (hloaded.found.symm.trans hrewrites.found)
  exact .intro hloaded.account hrewrites hloaded.opened hloaded.bank hloaded.bankToken hloaded.other
    hloaded.otherToken hloaded.distinct hfollows fun hclosable => Or.inl (closable_of_trade hclosable)

theorem chargeAndSettle_traded {x : SettleFunds} {feesToDao : Bool} {quoteOracle : Option I80F48}
    (h : s.chargeAndSettle x feesToDao quoteOracle = .ok s') : s.Traded s' := by
  obtain ⟨market, a, o, b, c, b₁, c₁, a₁, b', c', a', hloaded, hcharge, hsettle, rfl⟩ :=
    chargeAndSettle_eq_ok h
  obtain ⟨hterms, hterms', o₀, o₁, hrewrites, hpotential⟩ := chargeLoanOriginationFees_rewrites hcharge
  obtain ⟨o₁', o', hrewrites', hfollows, hnew⟩ := SettleFunds.applySettleChanges_follows hsettle
  obtain ⟨rfl, hboth⟩ := hrewrites.trans' hrewrites'
  obtain rfl : o = o₀ := some.inj (hloaded.found.symm.trans hrewrites.found)
  have hfollows' : Follows x.afterOo x.products o o' b b' c c' :=
    hfollows.congr (fun side => (hpotential side).symm) (fun _ => rfl)
      (fun side => (hrewrites.tokens side).symm) (Or.inr hterms) (.refl b') (Or.inr hterms') (.refl c')
  exact .intro hloaded.account hboth hloaded.opened hloaded.bank hloaded.bankToken hloaded.other
    hloaded.otherToken hloaded.distinct hfollows' fun _ => Or.inr hnew

/-! ## The invariant -/

/-- An open orders account that can be closed has no potential tokens in its entry. -/
def Idle (_ : Serum3MarketIndex) (o : Serum3Orders) (oo : OpenOrdersAccount) : Prop :=
  oo.closable = true → ∀ side, o.potentialTokens side = 0

def Booked (s : SpotGroup) : Prop := s.Entries Idle

theorem Traded.records (h : s.Traded s') (hs : s.Booked) :
    Relation.ReflTransGen Tally.Records s.tally s'.tally := by
  obtain @⟨key, m, a, a', o, o', t, t', i, i', b, b', c, c', products, oo, ha, hrewrites, hopened, hb,
    hbToken, hc, hcToken, hne, hfollows, -⟩ := h
  have hm := (hs key a ha).market_ne hrewrites.found hopened
  -- the potential tokens of all orders change by those of the entry
  have htotal : ∀ u, (((s.setBank t i b').setBank t' i' c').setAccount key a').ordersPotential u +
      o.potentialFor u = s.ordersPotential u + o'.potentialFor u := by
    intro u
    have hentry := hrewrites.potentialFor hm u
    have horders := ordersPotential_setAccount (s := (s.setBank t i b').setBank t' i' c') ha a' u
    simp only [ordersPotential_setBank] at horders
    omega
  have hpart : ∀ u, o.potentialFor u ≤ s.ordersPotential u := fun u =>
    (potentialFor_le_of_find hrewrites.found hm u).trans (potentialFor_le_ordersPotential ha u)
  have hi : i < (s.bankPotentials t).length := by
    rw [bankPotentials, List.length_map]
    exact (List.getElem?_eq_some_iff.mp hb).1
  have hc₁ : ((s.setBank t i b').banks t')[i']? = some c := (banks_setBank_of_ne hne b').trans hc
  cases hfollows with
  | one side htoken hfollow hsame hnew hother =>
    obtain rfl : o.tokenIndex side = t := htoken.trans hbToken
    refine .single (Tally.Records.of_total (o.tokenIndex side) i (o.potentialTokens side)
      (o'.potentialTokens side) hi ?_ ?_ fun u => ?_)
    · have hle := hpart (o.tokenIndex side)
      rw [potentialFor_eq o side, if_pos rfl] at hle
      rw [tally_total]
      omega
    · rw [tally_counters, tally_counters, bankPotentials_setOpenOrders, bankPotentials_setAccount,
        bankPotentials_setBank_self hc₁ hsame, bankPotentials_setBank hb hfollow]
    · have hside := potentialFor_side side hrewrites.tokens hother u
      have horders := htotal u
      rw [tally_total, tally_total, ordersPotential_setOpenOrders]
      omega
  | both side htoken htoken' hfollow hfollow' hnew =>
    obtain rfl : o.tokenIndex side = t := htoken.trans hbToken
    obtain rfl : o.tokenIndex side.other = t' := htoken'.trans hcToken
    let T₁ := s.tally.record (o.tokenIndex side) i (o.potentialTokens side)
      (o'.potentialTokens side)
    have hcounters : T₁.counters = (s.setBank (o.tokenIndex side) i b').bankPotentials :=
      (bankPotentials_setBank hb hfollow).symm
    have hT₁ : ∀ u, T₁.total u = if o.tokenIndex side = u then
        s.ordersPotential u - o.potentialTokens side + o'.potentialTokens side
      else s.ordersPotential u := by
      rw [← tally_total]
      exact s.tally.record_total _ _ _ _
    have hsides := fun u => potentialFor_eq o side u
    -- the bank of one side follows first, then the bank of the other side
    have hfirst : Tally.Records s.tally T₁ := by
      refine .record _ hi ?_
      have hle := hpart (o.tokenIndex side)
      rw [hsides, if_pos rfl] at hle
      rw [tally_total]
      omega
    refine (Relation.ReflTransGen.single hfirst).tail (Tally.Records.of_total
      (o.tokenIndex side.other) i' (o.potentialTokens side.other) (o'.potentialTokens side.other)
      ?_ ?_ ?_ fun u => ?_)
    · rw [hcounters, bankPotentials, List.length_map]
      exact (List.getElem?_eq_some_iff.mp hc₁).1
    · have hle := hpart (o.tokenIndex side.other)
      rw [hsides, if_pos rfl] at hle
      rw [hT₁]
      by_cases htt : o.tokenIndex side = o.tokenIndex side.other
      · rw [if_pos htt] at hle ⊢
        omega
      · rw [if_neg htt] at hle ⊢
        omega
    · rw [tally_counters, bankPotentials_setOpenOrders, bankPotentials_setAccount,
        bankPotentials_setBank hc₁ hfollow', hcounters]
    · have hle := hpart u
      have horders := htotal u
      have hsides' := potentialFor_eq o' side u
      rw [hrewrites.tokens, hrewrites.tokens] at hsides'
      rw [hsides] at hle horders
      rw [tally_total, ordersPotential_setOpenOrders, hT₁]
      rw [hsides'] at horders
      by_cases hu : o.tokenIndex side = u
      · simp only [hu, if_true] at hle horders ⊢
        omega
      · simp only [hu, if_false] at hle horders ⊢
        omega

theorem Traded.booked (h : s.Traded s') (hs : s.Booked) : s'.Booked := by
  obtain @⟨key, m, a, a', o, o', t, t', i, i', b, b', c, c', products, oo, ha, hrewrites, hopened, hb,
    hbToken, hc, hcToken, hne, hfollows, hclosable⟩ := h
  have hbooked := hs key a ha
  have hm := hbooked.market_ne hrewrites.found hopened
  have hidle : Idle m o' oo := by
    intro hempty side
    have hamounts : oo.amounts.isEmpty = true := (Bool.and_eq_true_iff.mp hempty).1
    rcases hclosable hempty with hbefore | hnew
    · -- nothing was left to track before either
      have hzero := hbooked.entry m o hm hrewrites.found hbefore
      cases hfollows with
      | one side' _ _ _ hnew hother =>
        rcases TokenSide.eq_or_other side side' with rfl | rfl
        · exact newPotentialTokens_of_isEmpty hamounts hnew
        · rw [hother, hzero]
      | both _ _ _ _ _ hnew => exact newPotentialTokens_of_isEmpty hamounts (hnew side)
    · exact newPotentialTokens_of_isEmpty hamounts (hnew side)
  exact Entries.update hs (hbooked.rewrite hrewrites hidle) rfl rfl

/-! ## Opening and closing -/

/-- An account that has the same potential tokens as before. -/
theorem tally_setAccount (ha : s.accounts key = some a)
    (hpotential : ∀ t, a'.potentialFor t = a.potentialFor t) : (s.setAccount key a').tally = s.tally := by
  have htotal : (s.setAccount key a').ordersPotential = s.ordersPotential := by
    funext t
    have hsum := ordersPotential_setAccount ha a' t
    rw [hpotential] at hsum
    omega
  rw [tally, tally, htotal, bankPotentials_setAccount]

theorem tally_setBank (b' : Bank) (hb : (s.banks t)[i]? = some b)
    (hb' : b'.potentialSerumTokens = b.potentialSerumTokens) : (s.setBank t i b').tally = s.tally := by
  rw [tally, tally, ordersPotential_setBank, bankPotentials_setBank_self hb hb']

theorem tally_setOpenOrders (s : SpotGroup) (key : Pubkey) (m : Serum3MarketIndex)
    (oo : OpenOrdersAccount) : (s.setOpenOrders key m oo).tally = s.tally := by
  rw [tally, tally, ordersPotential_setOpenOrders, bankPotentials_setOpenOrders]

/-- Replacing an entry that counts nothing by another one. -/
theorem potentialFor_replaceFirst {p : Serum3Orders → Bool} (hfound : a.serum3.find? p = some o)
    (hentries : a'.serum3 = replaceFirst p o' a.serum3)
    (ho : o.isActive = true → ∀ side, o.potentialTokens side = 0)
    (ho' : o'.isActive = true → ∀ side, o'.potentialTokens side = 0) (t : TokenIndex) :
    a'.potentialFor t = a.potentialFor t := by
  have hzero : ∀ x : Serum3Orders, (x.isActive = true → ∀ side, x.potentialTokens side = 0) →
      (if x.isActive then x.potentialFor t else 0) = 0 := by
    intro x hx
    by_cases hactive : x.isActive = true
    · rw [if_pos hactive, potentialFor_eq x .base, hx hactive, hx hactive, ite_self, ite_self]
    · rw [if_neg hactive]
  have hsum := sum_map_replaceFirst (x := o') (fun o => if o.isActive then o.potentialFor t else 0) hfound
  rw [hzero o ho, hzero o' ho'] at hsum
  unfold potentialFor
  rw [hentries]
  exact hsum

theorem serum3CreateOpenOrders_keeps (hs : s.Booked) (h : s.serum3CreateOpenOrders key m = .ok s') :
    s'.Booked ∧ s'.tally = s.tally := by
  obtain ⟨market, a, a', free, -, ha, hnone, hfree, hentries, rfl⟩ := serum3CreateOpenOrders_eq_ok h
  have hinactive : free.isActive = false := by simpa using find?_some hfree
  have hzero : ∀ side, (openedOn market).potentialTokens side = 0 := by
    intro side
    cases side <;> rfl
  constructor
  · exact Entries.update hs ((hs key a ha).create hnone hfree rfl rfl hentries fun _ => hzero) rfl rfl
  · rw [tally_setOpenOrders]
    exact tally_setAccount ha (potentialFor_replaceFirst hfree hentries
      (fun hactive => by rw [hinactive] at hactive; cases hactive) fun _ => hzero)

theorem serum3CloseOpenOrders_keeps (hs : s.Booked) (h : s.serum3CloseOpenOrders key m = .ok s') :
    s'.Booked ∧ s'.tally = s.tally := by
  obtain ⟨market, a, a', o, ha, hclosable, hfound, hopened, hentries, rfl⟩ :=
    serum3CloseOpenOrders_eq_ok h
  have hbooked := hs key a ha
  have hm := hbooked.market_ne hfound hopened
  refine ⟨Entries.setAccount hs (hbooked.close hfound hentries), ?_⟩
  refine tally_setAccount ha (potentialFor_replaceFirst hfound hentries
    (fun _ => hbooked.entry market o hm hfound hclosable) fun hactive => ?_)
  simp [Serum3Orders.isActive] at hactive

/-! ## Runs -/

/-- An instruction keeps the entries in order and records its changes.  Only a
    testing group can get another bank, and no account comes into being. -/
structure Recorded (s s' : SpotGroup) : Prop where
  booked : s'.Booked
  testing : s'.testing = s.testing
  absent : ∀ key, s.accounts key = none → s'.accounts key = none
  records : Relation.ReflTransGen Tally.Records s.tally s'.tally ∨
    s.testing = true ∧ ∃ t, s'.tally = s.tally.addCounter t

theorem absent_setAccount (ha : s.accounts key = some a) (a' : MangoAccount) {key' : Pubkey}
    (h : s.accounts key' = none) : (s.setAccount key a').accounts key' = none := by
  have hne : key' ≠ key := by
    rintro rfl
    rw [ha] at h
    cases h
  exact (update_of_ne hne (some a') s.accounts).trans h

theorem Recorded.of_traded (hs : s.Booked) (h : s.Traded s') : s.Recorded s' where
  booked := h.booked hs
  testing := by
    cases h
    rfl
  absent := by
    cases h with
    | @intro key m a a' o o' t t' i i' b b' c c' products oo ha =>
      exact fun _ => absent_setAccount (s := (s.setBank t i b').setBank t' i' c') ha a'
  records := Or.inl (h.records hs)

theorem Recorded.of_setAccount (ha : s.accounts key = some a) (hbooked : (s.setAccount key a').Booked)
    (h : (s.setAccount key a').tally = s.tally) : s.Recorded (s.setAccount key a') :=
  ⟨hbooked, rfl, fun _ => absent_setAccount ha a', Or.inl (by rw [h])⟩

theorem openOrdersChange_recorded (hs : s.Booked) (key : Pubkey) (m : Serum3MarketIndex)
    (after : OpenOrdersSlim) :
    s.Recorded (s.setOpenOrders key m ((s.openOrders key m).trade after)) := by
  refine ⟨Entries.setOpenOrders hs fun o hidle hclosable => ?_, rfl, fun _ hk => hk,
    Or.inl (by rw [tally_setOpenOrders])⟩
  exact hidle (closable_of_trade hclosable)

theorem tokenAddBank_recorded (hs : s.Booked) {existing bankNum : Nat}
    (h : s.tokenAddBank t existing bankNum = .ok s') : s.Recorded s' := by
  obtain ⟨htesting, b, -, rfl⟩ := tokenAddBank_eq_ok h
  refine ⟨hs, rfl, fun _ hk => hk, Or.inr ⟨htesting, t, Tally.ext ?_ ?_⟩⟩
  · rw [Tally.addCounter_counters]
    funext t'
    show (update s.banks t (s.banks t ++ [b.fromExistingBank]) t').map _ = _
    by_cases ht : t' = t
    · subst ht
      rw [update_self, update_self, map_append]
      rfl
    · rw [update_of_ne ht, update_of_ne ht]
      rfl
  · rw [Tally.addCounter_total, tally_total, tally_total]
    exact ordersPotential_congr rfl

theorem apply_recorded {op : Op} (hs : s.Booked) (h : apply op s = .ok s') : s.Recorded s' := by
  cases op with
  | serum3CreateOpenOrders key m =>
    obtain ⟨hbooked, htally⟩ := serum3CreateOpenOrders_keeps hs h
    obtain ⟨_, a, a', _, -, ha, -, -, -, rfl⟩ := serum3CreateOpenOrders_eq_ok h
    exact ⟨hbooked, rfl, fun _ => absent_setAccount ha a', Or.inl (by rw [htally])⟩
  | serum3PlaceOrder x => exact .of_traded hs (serum3PlaceOrder_traded h)
  | serum3SettleFunds x feesToDao price => exact .of_traded hs (chargeAndSettle_traded h)
  | serum3LiqForceCancelOrders x canForceCancel =>
    replace h : s.serum3LiqForceCancelOrders x canForceCancel = .ok s' := h
    unfold serum3LiqForceCancelOrders at h
    split at h
    · exact .of_traded hs (chargeAndSettle_traded h)
    · obtain rfl := ok_inj h
      exact ⟨hs, rfl, fun _ hk => hk, Or.inl .refl⟩
  | serum3CloseOpenOrders key m =>
    obtain ⟨hbooked, htally⟩ := serum3CloseOpenOrders_keeps hs h
    obtain ⟨_, _, _, _, ha, -, -, -, -, rfl⟩ := serum3CloseOpenOrders_eq_ok h
    exact .of_setAccount ha hbooked htally
  | openOrdersChange key m after =>
    obtain rfl := ok_inj h
    exact openOrdersChange_recorded hs key m after
  | balanceChange key p =>
    obtain ⟨a, ha, h⟩ := of_bind h
    obtain rfl := ok_inj h
    have hentries : (a.setTokenPosition p).Entries Idle (s.openOrders key) :=
      (hs key a (load_eq_ok ha)).congr rfl
    exact .of_setAccount (load_eq_ok ha) (Entries.setAccount hs hentries)
      (tally_setAccount (load_eq_ok ha) fun _ => rfl)
  | bankChange t i b =>
    obtain ⟨old, hold, h⟩ := of_bind h
    obtain rfl := ok_inj h
    refine ⟨hs, rfl, fun _ hk => hk, Or.inl ?_⟩
    rw [tally_setBank (b.trackedAs old) (TokenGroup.loadBank_eq_ok.mp hold) rfl]
  | tokenAddBank t existing bankNum => exact tokenAddBank_recorded hs h

theorem exec_recorded {op : Op} {r : Unit} (hs : s.Booked) (h : exec op s = .ok (r, s')) :
    s.Recorded s' := by
  obtain ⟨s₁, happly, h⟩ := of_bind h
  obtain ⟨-, rfl⟩ := ok_inj₂ h
  exact apply_recorded hs happly

/-- The banks of a token never have less potential tokens than the open orders. -/
theorem run_covers {s₀ : SpotGroup} (hbooked : s₀.Booked) (hcovers : s₀.tally.Covers)
    (ops : List Op) : (run exec s₀ ops).tally.Covers := by
  refine (run_preserves (P := fun s : SpotGroup => s.Booked ∧ s.tally.Covers) ?_ ops ⟨hbooked, hcovers⟩).2
  rintro op s r s' ⟨hs, hcovers⟩ hexec
  have hrecorded := exec_recorded hs hexec
  refine ⟨hrecorded.booked, ?_⟩
  rcases hrecorded.records with hsteps | ⟨-, t, ht⟩
  · exact hcovers.steps hsteps
  · rw [ht]
    exact hcovers.addCounter t

/-- Outside of testing groups, the only bank of a token has exactly theirs. -/
theorem run_single {s₀ : SpotGroup} (hbooked : s₀.Booked) (htesting : s₀.testing = false)
    (hsingle : s₀.tally.Single) (ops : List Op) : (run exec s₀ ops).tally.Single := by
  refine (run_preserves (P := fun s : SpotGroup => s.Booked ∧ s.testing = false ∧ s.tally.Single)
    ?_ ops ⟨hbooked, htesting, hsingle⟩).2.2
  rintro op s r s' ⟨hs, htesting, hsingle⟩ hexec
  have hrecorded := exec_recorded hs hexec
  refine ⟨hrecorded.booked, hrecorded.testing.trans htesting, ?_⟩
  rcases hrecorded.records with hsteps | ⟨htrue, -⟩
  · exact hsingle.steps hsteps
  · rw [htesting] at htrue
    cases htrue

/-- Whatever banks orders are placed and settled through, the potential tokens
    of the banks of a token cover those of all active spot entries.  They are
    equal if the group is not for testing and has one bank for each token. -/
theorem potential_serum_tokens_tracked {s₀ : SpotGroup} (hbooked : s₀.Booked)
    (htracked : ∀ t, (s₀.bankPotentials t).sum = s₀.ordersPotential t) (ops : List Op) :
    (∀ t, (run exec s₀ ops).ordersPotential t ≤ ((run exec s₀ ops).bankPotentials t).sum) ∧
    (s₀.testing = false → (∀ t, (s₀.banks t).length ≤ 1) →
      ∀ t, ((run exec s₀ ops).bankPotentials t).sum = (run exec s₀ ops).ordersPotential t) := by
  constructor
  · have hcovers : s₀.tally.Covers := by
      intro t
      rw [tally_total, tally_counters]
      exact (htracked t).ge
    intro t
    have hrun := run_covers hbooked hcovers ops t
    rwa [tally_total, tally_counters] at hrun
  · intro htesting hone t
    have hsingle : s₀.tally.Single := by
      refine ⟨fun t => ?_, fun t => ?_⟩
      · rw [tally_counters, bankPotentials, length_map]
        exact hone t
      · rw [tally_total, tally_counters]
        exact (htracked t).symm
    have hrun := (run_single hbooked htesting hsingle ops).total t
    rw [tally_total, tally_counters] at hrun
    exact hrun.symm

/-! ## Two banks -/

/-- An account without spot entries that has deposited 100 tokens of token 1. -/
def depositor : MangoAccount where
  tokens := [{ tokenIndex := 1, inUseCount := 0, indexedPosition := .ofSmall 100 },
    { tokenIndex := FREE_TOKEN_INDEX, inUseCount := 0 }]
  perps := []
  perpOpenOrders := []
  buybackFeesExpiryTimestamp := 0
  buybackFeesAccruedCurrent := 0
  buybackFeesAccruedPrevious := 0
  serum3 := [.default]
  perpOoCount_lt := noOrders_lt

/-- One bank for token 0, and `banks` banks for token 1.  The market trades token
    0 for token 1. -/
def oneMarket (banks : Nat) (testing : Bool) : SpotGroup where
  banks := fun t => if t = 0 then [.plain 0] else if t = 1 then
    List.replicate banks { Bank.plain 1 with indexedDeposits := .ofSmall 1000 } else []
  accounts := fun key => if key = 0 then some depositor else none
  insuranceVault := 0
  perpMarkets := fun _ => none
  serum3Markets := fun m => if m = 0 then some ⟨0, 0, 1⟩ else none
  openOrders := fun _ _ => .new
  testing := testing

/-- There are no spot entries. -/
theorem oneMarket_entries (banks : Nat) (testing : Bool)
    (P : Serum3MarketIndex → Serum3Orders → OpenOrdersAccount → Prop) :
    (oneMarket banks testing).Entries P := by
  intro key a ha
  obtain ⟨-, rfl⟩ := (ite_none_right_eq_some.mp ha).imp_right some.inj
  refine ⟨by decide, fun m hm => ?_, fun m o hm hfound => ?_⟩
  · exact (countP_le_length).trans (by decide)
  · obtain rfl : Serum3Orders.default = o := by
      have hmem := mem_of_find?_eq_some hfound
      exact (mem_singleton.mp hmem).symm
    exact absurd (marketIndex_of_find hfound).symm hm

theorem oneMarket_booked (banks : Nat) (testing : Bool) : (oneMarket banks testing).Booked :=
  oneMarket_entries banks testing Idle

/-- A single account. -/
theorem ordersPotential_eq (h : ∀ k, k ≠ key → s.accounts k = none) (t : TokenIndex) :
    s.ordersPotential t = (s.accounts key).elim 0 (potentialFor · t) := by
  refine Finset.sum_eq_single key (fun k _ hk => ?_) fun hkey => absurd (Finset.mem_univ key) hkey
  rw [h k hk]
  rfl

theorem run_absent {s₀ : SpotGroup} (hbooked : s₀.Booked) (h : ∀ k, k ≠ key → s₀.accounts k = none)
    (ops : List Op) : ∀ k, k ≠ key → (run exec s₀ ops).accounts k = none := by
  refine (run_preserves
    (P := fun s : SpotGroup => s.Booked ∧ ∀ k, k ≠ key → s.accounts k = none) ?_ ops ⟨hbooked, h⟩).2
  rintro op s r s' ⟨hs, hnone⟩ hexec
  have hrecorded := exec_recorded hs hexec
  exact ⟨hrecorded.booked, fun k hk => hrecorded.absent k (hnone k hk)⟩

theorem oneMarket_ordersPotential (banks : Nat) (testing : Bool) (ops : List Op) (t : TokenIndex) :
    (run exec (oneMarket banks testing) ops).ordersPotential t =
      ((run exec (oneMarket banks testing) ops).accounts 0).elim 0 (potentialFor · t) :=
  ordersPotential_eq (run_absent (oneMarket_booked banks testing) (fun _ hk => if_neg hk) ops) t

theorem oneMarket_tracked (banks : Nat) (testing : Bool) (t : TokenIndex) :
    ((oneMarket banks testing).bankPotentials t).sum = (oneMarket banks testing).ordersPotential t := by
  rw [show (oneMarket banks testing).ordersPotential t = 0 from oneMarket_ordersPotential banks testing [] t]
  refine sum_eq_zero fun n hn => ?_
  obtain ⟨b, hb, rfl⟩ := mem_map.mp hn
  simp only [oneMarket] at hb
  split at hb
  · rw [mem_singleton.mp hb]
    rfl
  · split at hb
    · rw [eq_of_mem_replicate hb]
      rfl
    · cases hb

/-- A bid that reserves `needed` quote tokens is placed. -/
def restingBid (needed : Nat) : List Op :=
  [.serum3CreateOpenOrders 0 0,
    .serum3PlaceOrder {
      key := 0, marketIndex := 0, side := .bid, payerBank := 0, receiverBank := 0
      isV2Instruction := true, afterOo := ⟨0, 0, 0, needed, 0⟩, beforeVault := needed, afterVault := 0
      products := ⟨50, 0⟩, payerBankOracle := I80F48.ONE, maxUtilization := I80F48.ONE, nowTs := 0 }]

/-- The bid is cancelled, and the funds are settled into bank `quoteBank`. -/
def placeCancelSettle (quoteBank : Nat) : List Op :=
  restingBid 100 ++ [.openOrdersChange 0 0 ⟨0, 0, 100, 100, 0⟩,
    .serum3SettleFunds {
      key := 0, marketIndex := 0, baseBank := 0, quoteBank, beforeBaseVault := 0, afterBaseVault := 0
      beforeQuoteVault := 0, afterQuoteVault := 100, afterOo := .empty, products := ⟨0, 0⟩
      buybackFeesExpiryInterval := 0, nowTs := 0 } false I80F48.ONE]

/-- The amount that was recorded in one bank cannot be taken off the other. -/
theorem potential_serum_tokens_left_behind :
    (oneMarket 2 true).Booked ∧
    (∀ t, ((oneMarket 2 true).bankPotentials t).sum = (oneMarket 2 true).ordersPotential t) ∧
    ((run exec (oneMarket 2 true) (placeCancelSettle 1)).bankPotentials 1).sum = 100 ∧
    (run exec (oneMarket 2 true) (placeCancelSettle 1)).ordersPotential 1 = 0 := by
  refine ⟨oneMarket_booked 2 true, oneMarket_tracked 2 true, by decide +kernel, ?_⟩
  rw [oneMarket_ordersPotential]
  decide +kernel

/-- With one bank, an order on the book is tracked in the bank and in the entry. -/
theorem potential_serum_tokens_of_placed_order :
    ((run exec (oneMarket 1 false) (restingBid 100)).bankPotentials 1).sum = 100 ∧
    ∀ t, ((run exec (oneMarket 1 false) (restingBid 100)).bankPotentials t).sum =
      (run exec (oneMarket 1 false) (restingBid 100)).ordersPotential t := by
  refine ⟨by decide +kernel, (potential_serum_tokens_tracked (oneMarket_booked 1 false)
    (oneMarket_tracked 1 false) _).2 rfl fun t => ?_⟩
  show (if t = 0 then _ else if t = 1 then _ else _ : List Bank).length ≤ 1
  split
  · exact le_rfl
  · split
    · exact le_rfl
    · exact Nat.zero_le 1

end SpotGroup

end MangoV4
