/-
  MangoV4.Tokens.InUse

  The use count of a token position is the number of entries of the account
  that need the token.

  `Group.uses` counts the entries.  An account is `Counted` if its token
  positions serve exactly these uses, and a group is `Sound` if all accounts
  are.  Every instruction keeps a group sound and never fails the assertion
  with which a position is deactivated; both are one statement (`Yields`), as
  the assertion holds because the counts are right at that moment.

  Free entries of an account are marked by the largest index, which is checked
  for tokens but not for perp markets: with a market of that index, a free
  entry is taken for a position of the market.
-/

import MangoV4.Instructions.Tokens

namespace MangoV4

open Lib Lib.Exec MangoAccount List Function Bank PerpPosition Yields Option

namespace Group

/-! ## Uses -/

/-- The token in which a perp market settles. -/
def settleToken (s : Group) (marketIndex : PerpMarketIndex) : Option TokenIndex :=
  (s.perpMarkets marketIndex).map PerpMarket.settleTokenIndex

/-- Active perp positions that settle in the token. -/
def perpUses (s : Group) (a : MangoAccount) (t : TokenIndex) : Nat :=
  a.perps.countP fun p => p.isActive && decide (s.settleToken p.marketIndex = some t)

/-- Active spot open orders with the token as base, and with it as quote. -/
def serum3Uses (a : MangoAccount) (t : TokenIndex) : Nat :=
  (a.serum3.countP fun o => o.isActive && decide (o.baseTokenIndex = t)) +
    a.serum3.countP fun o => o.isActive && decide (o.quoteTokenIndex = t)

/-- Conditional swaps that buy the token, and that sell it. -/
def swapUses (a : MangoAccount) (t : TokenIndex) : Nat :=
  (a.tokenConditionalSwaps.countP fun x => x.isConfigured && decide (x.buyTokenIndex = t)) +
    a.tokenConditionalSwaps.countP fun x => x.isConfigured && decide (x.sellTokenIndex = t)

/-- The entries of an account that need the token. -/
def uses (s : Group) (a : MangoAccount) (t : TokenIndex) : Nat :=
  s.perpUses a t + serum3Uses a t + swapUses a t

/-- What registration guarantees, for markets whose indices are not the one of
    free entries. -/
structure Registered (s : Group) : Prop where
  banks : s.banks FREE_TOKEN_INDEX = []
  perp : ∀ m market, s.perpMarkets m = some market →
    market.perpMarketIndex = m ∧ m ≠ FREE_ORDER_SLOT ∧ market.settleTokenIndex ≠ FREE_TOKEN_INDEX
  serum3 : ∀ m market, s.serum3Markets m = some market →
    market.marketIndex = m ∧ market.baseTokenIndex ≠ FREE_TOKEN_INDEX ∧
      market.quoteTokenIndex ≠ FREE_TOKEN_INDEX

/-- Spot open orders were created on registered markets. -/
structure Listed (s : Group) (orders : List Serum3Orders) : Prop where
  /-- no open orders account belongs to the market of free entries -/
  opened : ∀ o ∈ orders, o.openOrders ≠ some FREE_SERUM3_INDEX
  tokens : ∀ o ∈ orders, o.isActive = true → ∃ market,
    s.serum3Markets o.marketIndex = some market ∧
      o.baseTokenIndex = market.baseTokenIndex ∧ o.quoteTokenIndex = market.quoteTokenIndex

/-- The token positions of the account count its entries. -/
structure Counted (s : Group) (a : MangoAccount) : Prop where
  serves : a.Serves (s.uses a)
  orders : s.Listed a.serum3

structure Sound (s : Group) : Prop where
  registered : s.Registered
  accounts : ∀ key a, s.accounts key = some a → s.Counted a

variable {s : Group} {a a' b : MangoAccount} {q : Panic}

/-- The account has the entries of `a`, and its positions count them. -/
theorem Counted.of_entries (horders : s.Listed a.serum3) (hentries : a'.SameEntries a)
    (hserves : a'.Serves (s.uses a)) : s.Counted a' := by
  have huses : s.uses a' = s.uses a := by
    funext t
    unfold uses perpUses serum3Uses swapUses
    rw [hentries.perps, hentries.serum3, hentries.tokenConditionalSwaps]
  refine ⟨huses ▸ hserves, ?_⟩
  rw [hentries.serum3]
  exact horders

theorem Counted.of_sameEntries (h : s.Counted a) (hentries : a'.SameEntries a)
    (hserves : a'.Serves (s.uses a)) : s.Counted a' :=
  .of_entries h.orders hentries hserves

theorem Sound.setAccount (h : s.Sound) (key : Pubkey) (ha : s.Counted a) :
    (s.setAccount key a).Sound := by
  refine ⟨⟨h.registered.banks, h.registered.perp, h.registered.serum3⟩, fun key' a' hkey => ?_⟩
  by_cases hcase : key' = key
  · subst hcase
    obtain rfl : a = a' := some.inj ((update_self key' _ s.accounts).symm.trans hkey)
    exact ⟨ha.serves, ha.orders.opened, ha.orders.tokens⟩
  · have hold : s.accounts key' = some a' := by
      rw [← hkey]
      exact (update_of_ne hcase (some a) s.accounts).symm
    have hcounted := h.accounts key' a' hold
    exact ⟨hcounted.serves, hcounted.orders.opened, hcounted.orders.tokens⟩

theorem Sound.setBank (h : s.Sound) (t i : Nat) (b : Bank) : (s.setBank t i b).Sound := by
  refine ⟨⟨?_, h.registered.perp, h.registered.serum3⟩, fun key a hkey => ?_⟩
  · show update s.banks t ((s.banks t).set i b) FREE_TOKEN_INDEX = []
    by_cases hcase : FREE_TOKEN_INDEX = t
    · rw [← hcase, update_self, h.registered.banks, set_nil]
    · rw [update_of_ne hcase, h.registered.banks]
  · have hcounted := h.accounts key a hkey
    exact ⟨hcounted.serves, hcounted.orders.opened, hcounted.orders.tokens⟩

/-- Banks do not matter for the counts. -/
theorem Counted.setBank (h : s.Counted a) (t i : Nat) (b : Bank) : (s.setBank t i b).Counted a :=
  ⟨h.serves, h.orders.opened, h.orders.tokens⟩

/-- Neither do other accounts. -/
theorem Counted.setAccount (h : s.Counted a) (key : Pubkey) (a' : MangoAccount) :
    (s.setAccount key a').Counted a :=
  ⟨h.serves, h.orders.opened, h.orders.tokens⟩

theorem perpPositionMut_yields (a : MangoAccount) (m : PerpMarketIndex) :
    Yields q (a.perpPositionMut m) fun p => a.perpPosition m = some p := by
  refine ⟨Faults.avoids ?_, fun _ h => perpPositionMut_eq_ok.mp h⟩
  unfold perpPositionMut
  split
  · exact .ok _
  · exact Faults.fail_iff.mpr (by simp)

theorem load_yields (h : s.Sound) (key : Pubkey) :
    Yields q (s.accounts.load key) s.Counted := by
  unfold Accounts.load
  split
  · next a hkey => exact pure (h.accounts key a hkey)
  · exact fail _

theorem loadBank_yields (h : s.Sound) (t i : Nat) :
    Yields q (s.loadBank t i) fun _ => t ≠ FREE_TOKEN_INDEX := by
  unfold TokenGroup.loadBank
  split
  · rename_i b hb
    refine pure ?_
    rintro rfl
    rw [h.registered.banks] at hb
    cases hb
  · exact fail _

theorem loadPerpMarket_yields (h : s.Sound) (m : PerpMarketIndex) :
    Yields q (s.loadPerpMarket m) fun market =>
      s.settleToken market.perpMarketIndex = some market.settleTokenIndex ∧
        market.perpMarketIndex ≠ FREE_ORDER_SLOT ∧ market.settleTokenIndex ≠ FREE_TOKEN_INDEX := by
  unfold loadPerpMarket
  split
  · rename_i market hm
    obtain ⟨hindex, hfree, hsettle⟩ := h.registered.perp m market hm
    refine pure ⟨?_, hindex ▸ hfree, hsettle⟩
    rw [settleToken, hindex, hm, map_some]
  · exact fail _

theorem loadSerum3Market_yields (h : s.Sound) (m : Serum3MarketIndex) :
    Yields q (s.loadSerum3Market m) fun market =>
      s.serum3Markets market.marketIndex = some market ∧
        market.baseTokenIndex ≠ FREE_TOKEN_INDEX ∧ market.quoteTokenIndex ≠ FREE_TOKEN_INDEX := by
  unfold loadSerum3Market
  split
  · rename_i market hm
    obtain ⟨hindex, hbase, hquote⟩ := h.registered.serum3 m market hm
    exact pure ⟨hindex ▸ hm, hbase, hquote⟩
  · exact fail _

theorem loadBankPair_yields (hq : q ≠ .unwrap) (h : s.Sound) (t₁ i₁ t₂ i₂ : Nat) :
    Yields q (s.loadBankPair t₁ i₁ t₂ i₂) fun _ =>
      t₁ ≠ FREE_TOKEN_INDEX ∧ t₂ ≠ FREE_TOKEN_INDEX := by
  refine (loadBank_yields h t₁ i₁).bind fun b₁ ht₁ => ?_
  refine bind (P := fun _ => t₂ ≠ FREE_TOKEN_INDEX) ?_ fun b₂ ht₂ => pure ⟨ht₁, ht₂⟩
  refine ite (fun _ => ⟨Faults.avoids (by simpa using hq.symm), fun _ hpanic => by cases hpanic⟩)
    fun _ => ?_
  exact loadBank_yields h t₂ i₂

/-! ## Deposits and withdrawals -/

/-- A bank and the account are written, with the terms and the entries from before. -/
def Rewrites (s : Group) (key : Pubkey) (a : MangoAccount) (t i : Nat) (s' : Group) : Prop :=
  ∃ b b' a', (s.banks t)[i]? = some b ∧ Bank.SameTerms b b' ∧ a'.SameEntries a ∧
    s' = (s.setBank t i b').setAccount key a'

theorem depositIntoExisting_yields (h : s.Sound) (ha : s.Counted a) (key : Pubkey)
    (t i amount : Nat) (reduceOnly allowClosure : Bool) (nowTs : Nat) :
    Yields .assertion (s.depositIntoExisting key a t i amount reduceOnly allowClosure nowTs)
      fun s' => s'.Sound ∧ s.Rewrites key a t i s' := by
  refine (Yields.require _ _).bind fun _ _ => ?_
  refine Yields.bind_of (loadBank_yields h t i).faults fun b hb => ?_
  have ht := (loadBank_yields (q := .assertion) h t i).2 b hb
  refine Yields.bind_of (by simp) fun _ _ => Yields.bind_of (by simp) fun _ _ => ?_
  refine (Yields.require _ _).bind fun _ _ => ?_
  refine (tokenPositionMut_yields a t).bind fun p hp => ?_
  refine Yields.bind_of (by simp [depositAmount]) fun n _ => ?_
  refine Yields.bind_of (faults_deposit (.avoiding rfl) _ _ _ _) ?_
  rintro ⟨active, b', p'⟩ hdeposit
  have hchanges := deposit_changes hdeposit
  refine bind_of (by simp) fun _ _ => bind_of (by simp) fun _ _ => ?_
  have hidle : (!allowClosure || active) = false → s.uses a t = 0 := fun hactive =>
    ha.serves.idle_of_changes ht hp hchanges (Bool.or_eq_false_iff.mp hactive).2
  refine ((ha.serves.changes hp hchanges).deactivateIfInactive ht hidle).bind fun a' ha' => ?_
  have hentries := ha'.2.trans (setTokenPosition_sameEntries a p')
  have hcounted := ha.of_sameEntries hentries ha'.1
  exact pure ⟨(h.setBank t i b').setAccount key (hcounted.setBank t i b'), b, b', a',
    TokenGroup.loadBank_eq_ok.mp hb, (deposit_cases hdeposit).1, hentries, rfl⟩

theorem tokenDeposit_yields (h : s.Sound) (key : Pubkey) (t i amount : Nat) (reduceOnly : Bool)
    (nowTs : Nat) : Yields .assertion (s.tokenDeposit key t i amount reduceOnly nowTs) Sound := by
  refine (load_yields h key).bind fun a ha => ?_
  refine (ensureTokenPosition_yields ha.serves).bind ?_
  rintro ⟨p, a'⟩ ⟨hserves, hentries, -⟩
  exact (depositIntoExisting_yields h (ha.of_sameEntries hentries hserves) key t i amount _ _ nowTs).imp
    fun _ h => h.1

theorem tokenDepositIntoExisting_yields (h : s.Sound) (key : Pubkey) (t i amount : Nat)
    (reduceOnly : Bool) (nowTs : Nat) :
    Yields .assertion (s.tokenDepositIntoExisting key t i amount reduceOnly nowTs) Sound :=
  (load_yields h key).bind fun _ ha =>
    (depositIntoExisting_yields h ha key t i amount _ _ nowTs).imp fun _ h => h.1

theorem tokenWithdraw_yields (h : s.Sound) (key : Pubkey) (t i amount : Nat) (allowBorrow : Bool)
    (nowTs : Nat) : Yields .assertion (s.tokenWithdraw key t i amount allowBorrow nowTs) Sound := by
  refine (Yields.require _ _).bind fun _ _ => ?_
  refine (load_yields h key).bind fun a ha => ?_
  refine (ensureTokenPosition_yields ha.serves).bind ?_
  rintro ⟨p, a₁⟩ ⟨hserves, hentries, hp⟩
  refine (loadBank_yields h t i).bind fun b ht => ?_
  refine bind_of (by simp) fun native _ => ?_
  refine bind_of (by simp [withdrawAmount]) fun amount? _ => ?_
  cases amount? with
  | none => exact pure (h.setAccount key (ha.of_sameEntries hentries hserves))
  | some amount =>
    refine Yields.bind_of (by simp) fun amount _ => ?_
    refine (Yields.require _ _).bind fun _ _ => (Yields.require _ _).bind fun _ _ => ?_
    refine Yields.bind_of (faults_withdrawWithFee (.avoiding rfl) _ _ _ _) ?_
    rintro ⟨result, b', p'⟩ hwithdraw
    have hchanges := withdrawWithFee_changes hwithdraw
    refine bind_of (by simp) fun _ _ => ?_
    refine ((hserves.changes hp hchanges).deactivateIfInactive ht
      (hserves.idle_of_changes ht hp hchanges)).bind fun a' ha' => ?_
    have hentries' := (ha'.2.trans (setTokenPosition_sameEntries a₁ p')).trans hentries
    have hcounted := ha.of_sameEntries hentries' ha'.1
    exact pure ((h.setBank t i b').setAccount key (hcounted.setBank t i b'))

/-! ## Spot open orders -/

/-- What replacing one entry by another does to the uses. -/
theorem serum3Uses_replaceFirst {l : List Serum3Orders} {f : Serum3Orders → Bool}
    {o r : Serum3Orders} (hl : a.serum3 = l) (ho : l.find? f = some o)
    (hl' : b.serum3 = replaceFirst f r l) (t : TokenIndex) :
    serum3Uses b t +
        ((if o.isActive && decide (o.baseTokenIndex = t) then 1 else 0) +
          if o.isActive && decide (o.quoteTokenIndex = t) then 1 else 0) =
      serum3Uses a t +
        ((if r.isActive && decide (r.baseTokenIndex = t) then 1 else 0) +
          if r.isActive && decide (r.quoteTokenIndex = t) then 1 else 0) := by
  have hbase := countP_replaceFirst (x := r)
    (q := fun o => o.isActive && decide (o.baseTokenIndex = t)) ho
  have hquote := countP_replaceFirst (x := r)
    (q := fun o => o.isActive && decide (o.quoteTokenIndex = t)) ho
  unfold serum3Uses
  rw [hl, hl']
  omega

theorem uses_eq_of_serum3 {n m : Nat} {t : TokenIndex} (hperps : b.perps = a.perps)
    (hswaps : b.tokenConditionalSwaps = a.tokenConditionalSwaps)
    (h : serum3Uses b t + n = serum3Uses a t + m) : s.uses b t + n = s.uses a t + m := by
  unfold uses perpUses swapUses
  rw [hperps, hswaps]
  omega

theorem createSerum3Orders_yields (orders : Serum3Orders) :
    Yields q (a.createSerum3Orders orders) fun a' =>
      orders.isActive = true ∧ a'.tokens = a.tokens ∧
        (∀ o ∈ a'.serum3, o = orders ∨ o ∈ a.serum3) ∧
        ∀ s : Group, ∀ t, s.uses a' t = bump (bump (s.uses a)
          orders.quoteTokenIndex) orders.baseTokenIndex t := by
  unfold createSerum3Orders
  split
  · exact fail _
  · rename_i hnone
    split
    · rename_i o ho
      have hfree : o.isActive = false := by simpa using find?_some ho
      have hactive : orders.isActive = true := by
        -- the index of free entries would have been found
        by_contra hinactive
        have hmarket : o.marketIndex = orders.marketIndex := by
          simp only [Serum3Orders.isActive, decide_eq_true_eq, decide_eq_false_iff_not,
            not_not] at hfree hinactive
          rw [hfree, hinactive]
        exact find?_eq_none.mp hnone o (mem_of_find?_eq_some ho)
          (decide_eq_true hmarket)
      refine pure ⟨hactive, rfl, fun o ho => mem_of_mem_replaceFirst ho, fun s t => ?_⟩
      have huses := serum3Uses_replaceFirst (a := a) (r := orders)
        (b := { a with serum3 := replaceFirst (fun o => !o.isActive) orders a.serum3 })
        rfl ho rfl t
      have huses := uses_eq_of_serum3 (s := s) (a := a)
        (b := { a with serum3 := replaceFirst (fun o => !o.isActive) orders a.serum3 })
        rfl rfl huses
      simp only [hfree, hactive, Bool.false_and, Bool.true_and, decide_eq_true_eq,
        Bool.false_eq_true, if_false] at huses
      unfold bump
      omega
    · exact fail _

theorem serum3CreateOpenOrders_yields (h : s.Sound) (key : Pubkey) (m : Serum3MarketIndex) :
    Yields .assertion (s.serum3CreateOpenOrders key m) Sound := by
  refine (loadSerum3Market_yields h m).bind fun market hmarket => ?_
  refine (load_yields h key).bind fun a ha => ?_
  refine (createSerum3Orders_yields _).bind fun a₁ h₁ => ?_
  obtain ⟨hactive, htokens, hmem, huses⟩ := h₁
  have hserves : a₁.Serves (s.uses a) := ha.serves.of_tokens htokens
  refine (ensureTokenInUse_yields rfl hserves).bind fun a₂ h₂ => ?_
  refine (ensureTokenInUse_yields rfl h₂.1).bind fun a₃ h₃ => ?_
  have horders : s.Listed a₁.serum3 := by
    refine ⟨fun o ho => ?_, fun o ho hoactive => ?_⟩
    · rcases hmem o ho with rfl | hold
      · simp only [Serum3Orders.isActive, decide_eq_true_eq] at hactive
        exact fun heq => hactive (some.inj heq)
      · exact ha.orders.opened o hold
    · rcases hmem o ho with rfl | hold
      · exact ⟨market, hmarket.1, rfl, rfl⟩
      · exact ha.orders.tokens o hold hoactive
  have hcounted : s.Counted a₃ :=
    .of_entries horders (h₃.2.trans h₂.2) (h₃.1.congr fun t _ => huses s t)
  exact pure (h.setAccount key hcounted)

theorem serum3Orders_yields (m : Serum3MarketIndex) :
    Yields q (a.serum3Orders m) fun o =>
      a.serum3.find? (Serum3Orders.isActiveForMarket m) = some o := by
  unfold serum3Orders
  split
  · next o ho => exact pure ho
  · exact fail _

theorem serum3CloseOpenOrders_yields (h : s.Sound) (key : Pubkey) (m : Serum3MarketIndex) :
    Yields .assertion (s.serum3CloseOpenOrders key m) Sound := by
  refine (load_yields h key).bind fun a ha => ?_
  refine (loadSerum3Market_yields h m).bind fun market hmarket => ?_
  obtain ⟨hlisted, hbase, hquote⟩ := hmarket
  refine (serum3Orders_yields market.marketIndex).bind fun o ho => ?_
  refine (Yields.require _ _).bind fun _ hopen => ?_
  have hmem := mem_of_find?_eq_some ho
  have hindex : o.marketIndex = market.marketIndex := of_decide_eq_true
    (find?_some (p := Serum3Orders.isActiveForMarket market.marketIndex) ho)
  have hfree : market.marketIndex ≠ FREE_SERUM3_INDEX := by
    intro heq
    exact ha.orders.opened o hmem ((of_decide_eq_true hopen).trans (congrArg some heq))
  have hactive : o.isActive = true := decide_eq_true (hindex ▸ hfree)
  obtain ⟨market', hmarket', hobase, hoquote⟩ := ha.orders.tokens o hmem hactive
  obtain rfl : market' = market := by
    rw [hindex, hlisted] at hmarket'
    exact (some.inj hmarket').symm
  let closed := { o with marketIndex := FREE_SERUM3_INDEX }
  let a₀ := { a with
    serum3 := replaceFirst (Serum3Orders.isActiveForMarket market'.marketIndex) closed a.serum3 }
  have huses : ∀ t, bump (bump (s.uses a₀) market'.quoteTokenIndex)
      market'.baseTokenIndex t = s.uses a t := by
    intro t
    have hstep := uses_eq_of_serum3 (s := s) (a := a) (b := a₀) rfl rfl
      (serum3Uses_replaceFirst (a := a) (b := a₀) (r := closed) rfl ho rfl t)
    have hclosed : closed.isActive = false := decide_eq_false (not_not_intro rfl)
    simp only [hclosed, hactive, hobase, hoquote, Bool.false_and, Bool.true_and,
      decide_eq_true_eq, Bool.false_eq_true, if_false] at hstep
    unfold bump
    omega
  have hserves := ha.serves.congr fun t _ => huses t
  refine (decrementInUse_yields hbase hserves).bind fun a₁ h₁ => ?_
  refine (decrementInUse_yields hquote h₁.1).bind fun a₂ h₂ => ?_
  have hentries := h₂.2.trans h₁.2
  refine bind (P := fun a' => s.Counted a') ?_ fun a' ha' =>
    pure (h.setAccount key ha')
  refine (serum3Orders_yields market'.marketIndex).bind fun o' ho' => ?_
  rw [hentries.serum3, ho] at ho'
  obtain rfl := some.inj ho'
  refine pure ?_
  have horders : s.Listed a₀.serum3 := by
    refine ⟨fun o' ho' => ?_, fun o' ho' hactive' => ?_⟩
    · rcases mem_of_mem_replaceFirst ho' with rfl | hold
      · exact ha.orders.opened o hmem
      · exact ha.orders.opened o' hold
    · rcases mem_of_mem_replaceFirst ho' with rfl | hold
      · simp [closed, Serum3Orders.isActive] at hactive'
      · exact ha.orders.tokens o' hold hactive'
  refine .of_entries horders ⟨hentries.perps, ?_, hentries.tokenConditionalSwaps⟩
    (h₂.1.of_tokens rfl)
  show replaceFirst _ _ a₂.serum3 = _
  rw [hentries.serum3]

/-! ## Perp positions -/

/-- What replacing one position by another does to the uses. -/
theorem uses_replacePerp {f : PerpPosition → Bool} {p r : PerpPosition}
    (hp : a.perps.find? f = some p) (hperps : b.perps = replaceFirst f r a.perps)
    (hserum3 : b.serum3 = a.serum3) (hswaps : b.tokenConditionalSwaps = a.tokenConditionalSwaps)
    (t : TokenIndex) :
    s.uses b t + (if p.isActive && decide (s.settleToken p.marketIndex = some t) then 1 else 0) =
      s.uses a t +
        if r.isActive && decide (s.settleToken r.marketIndex = some t) then 1 else 0 := by
  have hcount := countP_replaceFirst (x := r)
    (q := fun p => p.isActive && decide (s.settleToken p.marketIndex = some t)) hp
  unfold uses perpUses serum3Uses swapUses
  rw [hperps, hserum3, hswaps]
  omega

theorem ensurePerpPosition_yields (h : s.Sound) (key : Pubkey) (m : PerpMarketIndex) :
    Yields .assertion (s.ensurePerpPosition key m) Sound := by
  refine (loadPerpMarket_yields h m).bind fun market hmarket => ?_
  obtain ⟨hsettle, hindex, htoken⟩ := hmarket
  refine (load_yields h key).bind fun a ha => ?_
  refine bind (P := fun a' => s.Counted a') ?_ fun a' ha' =>
    pure (h.setAccount key ha')
  unfold MangoAccount.ensurePerpPosition
  split
  · exact pure ha
  · split
    · exact fail _
    · rename_i p hp
      let opened := { default with marketIndex := market.perpMarketIndex }
      let a₁ := { a with perps := replaceFirst (fun p => !p.isActive) opened a.perps }
      have hfree : p.isActive = false := by simpa using find?_some hp
      have hopened : opened.isActive = true := decide_eq_true hindex
      have huses : ∀ t, s.uses a₁ t = bump (s.uses a) market.settleTokenIndex t := by
        intro t
        have hstep := uses_replacePerp (s := s) (a := a) (b := a₁) (r := opened) hp rfl rfl rfl t
        have hopenedToken : s.settleToken opened.marketIndex = some market.settleTokenIndex := hsettle
        simp only [hfree, hopened, hopenedToken, Bool.false_and, Bool.true_and,
          decide_eq_true_eq, Bool.false_eq_true, if_false, some.injEq] at hstep
        unfold bump
        omega
      have hserves : a₁.Serves (s.uses a) := ha.serves.of_tokens rfl
      -- the rest of the function is `ensureTokenInUse` of the settle token
      refine (ensureTokenInUse_yields (t := market.settleTokenIndex) rfl hserves).imp
        fun a₂ h₂ => ?_
      exact .of_entries (a := a₁) ha.orders h₂.2 (h₂.1.congr fun t _ => huses t)

theorem perpDeactivatePosition_yields (h : s.Sound) (key : Pubkey) (m : PerpMarketIndex) :
    Yields .assertion (s.perpDeactivatePosition key m) Sound := by
  refine (loadPerpMarket_yields h m).bind fun market hmarket => ?_
  obtain ⟨hsettle, hindex, htoken⟩ := hmarket
  refine (load_yields h key).bind fun a ha => ?_
  refine bind (P := fun a' => s.Counted a') ?_ fun a' ha' =>
    pure (h.setAccount key ha')
  refine (perpPositionMut_yields a market.perpMarketIndex).bind fun p hp => ?_
  refine bind_of (by simp [settleFunding, unsettledFunding])
    fun p₁ hp₁ => ?_
  refine (Yields.require _ _).bind fun _ _ => (Yields.require _ _).bind fun _ _ => ?_
  refine (Yields.require _ _).bind fun _ _ => (Yields.require _ _).bind fun _ _ => ?_
  have hkeeps := settleFunding_keeps hp₁
  have hmarket : p.marketIndex = market.perpMarketIndex := perpPosition_marketIndex hp
  have hmarket₁ : p₁.marketIndex = market.perpMarketIndex := hkeeps.1.trans hmarket
  let a₁ := a.setPerpPosition market.perpMarketIndex p₁
  have hfind₁ : a₁.perpPosition market.perpMarketIndex = some p₁ :=
    find?_replaceFirst_self hp (decide_eq_true hmarket₁)
  let closed := { p₁ with marketIndex := FREE_ORDER_SLOT }
  let a₂ := a₁.setPerpPosition market.perpMarketIndex closed
  have huses : ∀ t, bump (s.uses a₂) market.settleTokenIndex t = s.uses a t := by
    intro t
    have hstep₁ := uses_replacePerp (s := s) (a := a) (b := a₁) hp rfl rfl rfl t
    have hstep₂ := uses_replacePerp (s := s) (a := a₁) (b := a₂) hfind₁ rfl rfl rfl t
    have hactive : p.isActive = true := decide_eq_true (hmarket ▸ hindex)
    have hactive₁ : p₁.isActive = true := decide_eq_true (hmarket₁ ▸ hindex)
    have hclosed : closed.isActive = false := decide_eq_false (not_not_intro rfl)
    simp only [hactive, hactive₁, hclosed, hmarket, hmarket₁, hsettle, Bool.false_and,
      Bool.true_and, decide_eq_true_eq, Bool.false_eq_true, if_false,
      some.injEq] at hstep₁ hstep₂
    unfold bump
    omega
  have hserves : a₂.Serves (bump (s.uses a₂) market.settleTokenIndex) :=
    (ha.serves.congr fun t _ => huses t).of_tokens rfl
  refine (perpPositionMut_yields a₁ market.perpMarketIndex).bind fun p' hp' => ?_
  obtain rfl : p₁ = p' := some.inj (hfind₁.symm.trans hp')
  refine (decrementInUse_yields htoken hserves).imp fun a₃ h₃ => ?_
  exact .of_entries (a := a₂) ha.orders h₃.2 h₃.1

/-! ## Conditional swaps -/

/-- What replacing one swap by another does to the uses. -/
theorem uses_setSwap {i : Nat} {x y : TokenConditionalSwap}
    (hx : a.tokenConditionalSwaps[i]? = some x) (hperps : b.perps = a.perps)
    (hserum3 : b.serum3 = a.serum3)
    (hswaps : b.tokenConditionalSwaps = a.tokenConditionalSwaps.set i y) (t : TokenIndex) :
    s.uses b t +
        ((if x.isConfigured && decide (x.buyTokenIndex = t) then 1 else 0) +
          if x.isConfigured && decide (x.sellTokenIndex = t) then 1 else 0) =
      s.uses a t +
        ((if y.isConfigured && decide (y.buyTokenIndex = t) then 1 else 0) +
          if y.isConfigured && decide (y.sellTokenIndex = t) then 1 else 0) := by
  have hbuy := countP_set_of_getElem? (x := y)
    (q := fun x => x.isConfigured && decide (x.buyTokenIndex = t)) hx
  have hsell := countP_set_of_getElem? (x := y)
    (q := fun x => x.isConfigured && decide (x.sellTokenIndex = t)) hx
  unfold uses perpUses serum3Uses swapUses
  rw [hperps, hserum3, hswaps]
  omega

theorem tokenConditionalSwapByIndex_yields (a : MangoAccount) (i : Nat) :
    Yields q (a.tokenConditionalSwapByIndex i) fun x => a.tokenConditionalSwaps[i]? = some x := by
  unfold tokenConditionalSwapByIndex
  split
  · next x hx => exact pure hx
  · exact fail _

theorem tokenConditionalSwapFreeIndex_yields (a : MangoAccount) :
    Yields q a.tokenConditionalSwapFreeIndex fun i =>
      ∃ x, a.tokenConditionalSwaps[i]? = some x ∧ x.isConfigured = false := by
  unfold tokenConditionalSwapFreeIndex
  split
  · rename_i i hi
    obtain ⟨hlt, hfree, -⟩ := findIdx?_eq_some_iff_getElem.mp hi
    exact pure ⟨_, getElem?_eq_getElem hlt, by simpa using hfree⟩
  · exact fail _

theorem tokenConditionalSwapCreate_yields (h : s.Sound) (key : Pubkey)
    (buy buyBank sell sellBank expiry nowTs : Nat) (terms : SwapTerms) :
    Yields .assertion
      (s.tokenConditionalSwapCreate key buy buyBank sell sellBank expiry nowTs terms) Sound := by
  refine ite (fun _ => pure h) fun _ => ?_
  refine (loadBank_yields h buy buyBank).bind fun _ _ => ?_
  refine (loadBank_yields h sell sellBank).bind fun _ _ => ?_
  refine (load_yields h key).bind fun a ha => ?_
  refine (ensureTokenInUse_yields rfl ha.serves).bind fun a₁ h₁ => ?_
  refine (ensureTokenInUse_yields rfl h₁.1).bind fun a₂ h₂ => ?_
  refine (tokenConditionalSwapFreeIndex_yields a₂).bind fun i hi => ?_
  refine (Yields.require _ _).bind fun _ _ => Yields.pure (h.setAccount key ?_)
  obtain ⟨x, hx, hfree⟩ := hi
  have hentries := h₂.2.trans h₁.2
  refine ⟨(h₂.1.congr fun t _ => ?_).of_tokens rfl, hentries.serum3 ▸ ha.orders⟩
  rw [hentries.tokenConditionalSwaps] at hx
  have hstep := uses_setSwap (s := s) (a := a) (b := { a₂ with
      nextTokenConditionalSwapId := (a₂.nextTokenConditionalSwapId + 1) % 2 ^ 64
      tokenConditionalSwaps := a₂.tokenConditionalSwaps.set i { terms with
        id := a₂.nextTokenConditionalSwapId, expiryTimestamp := expiry, buyTokenIndex := buy
        sellTokenIndex := sell, isConfigured := true } }) hx hentries.perps hentries.serum3
    (by rw [hentries.tokenConditionalSwaps]) t
  simp only [hfree, Bool.false_and, Bool.true_and, decide_eq_true_eq, Bool.false_eq_true,
    if_false] at hstep
  exact (hstep.trans (Nat.add_assoc _ _ _).symm)

/-- Without the swap, both its uses are still counted. -/
theorem Counted.serves_without_swap (ha : s.Counted a) {i : Nat} {x : TokenConditionalSwap}
    (hx : a.tokenConditionalSwaps[i]? = some x) (hconfigured : x.isConfigured = true) :
    (a.setTokenConditionalSwap i .default).Serves (bump (bump
      (s.uses (a.setTokenConditionalSwap i .default)) x.sellTokenIndex) x.buyTokenIndex) := by
  let a₀ := a.setTokenConditionalSwap i .default
  have huses : ∀ t, bump (bump (s.uses a₀) x.sellTokenIndex)
      x.buyTokenIndex t = s.uses a t := by
    intro t
    have hstep := uses_setSwap (s := s) (a := a) (b := a₀) hx rfl rfl rfl t
    have hdefault : TokenConditionalSwap.default.isConfigured = false := rfl
    simp only [hconfigured, hdefault, Bool.false_and, Bool.true_and, decide_eq_true_eq,
      Bool.false_eq_true, if_false] at hstep
    unfold bump
    omega
  exact (ha.serves.congr fun t _ => huses t).of_tokens rfl

/-- Removing a swap gives both uses back. -/
theorem removeSwap_yields (hq : q.arithmetic = false) (ha : s.Counted a) {i : Nat}
    {x : TokenConditionalSwap} (hx : a.tokenConditionalSwaps[i]? = some x)
    (hconfigured : x.isConfigured = true) (hbuy : x.buyTokenIndex ≠ FREE_TOKEN_INDEX)
    (hsell : x.sellTokenIndex ≠ FREE_TOKEN_INDEX) (bBuy bSell : Bank) (nowTs : Nat) :
    Yields q (removeSwap a i x bBuy bSell nowTs) fun r => s.Counted r.2.2 := by
  have hserves := ha.serves_without_swap hx hconfigured
  refine (tokenDecrementDustDeactivate_yields hq hbuy hserves).bind fun r₁ h₁ => ?_
  refine (tokenDecrementDustDeactivate_yields hq hsell h₁.1).bind fun r₂ h₂ => ?_
  exact pure (.of_entries (a := a.setTokenConditionalSwap i .default) ha.orders
    (h₂.2.trans h₁.2) h₂.1)

theorem tokenConditionalSwapCancel_yields (h : s.Sound) (key : Pubkey)
    (index id buyBank sellBank nowTs : Nat) :
    Yields .assertion (s.tokenConditionalSwapCancel key index id buyBank sellBank nowTs) Sound := by
  refine (load_yields h key).bind fun a ha => ?_
  refine (tokenConditionalSwapByIndex_yields a index).bind fun x hx => ?_
  refine (loadBank_yields h x.buyTokenIndex buyBank).bind fun bBuy hbuy => ?_
  refine (loadBank_yields h x.sellTokenIndex sellBank).bind fun bSell hsell => ?_
  refine Yields.ite (fun _ => Yields.pure h) fun hconfigured => ?_
  refine (Yields.require _ _).bind fun _ _ => ?_
  refine (removeSwap_yields rfl ha hx (Bool.eq_true_of_not_eq_false hconfigured) hbuy hsell bBuy bSell
    nowTs).bind ?_
  rintro ⟨bBuy', bSell', a'⟩ ha'
  exact pure (((h.setBank _ _ _).setBank _ _ _).setAccount key ((ha'.setBank _ _ _).setBank _ _ _))

/-- A transfer between positions of two accounts. -/
theorem checkedTransfer_yields {u u' : TokenIndex → Nat} {t : TokenIndex} {b : Bank}
    {source target : TokenPosition} (hq : q.arithmetic = false) (ht : t ≠ FREE_TOKEN_INDEX)
    (ha : a.Serves u)
    (hsource : a.tokenPosition t = some source) (ha' : a'.Serves u')
    (htarget : a'.tokenPosition t = some target) (sourceAmount targetAmount price : I80F48)
    (nowTs : Nat) :
    Yields q (b.checkedTransferWithFee source sourceAmount target targetAmount nowTs price)
      fun r => (a.setTokenPosition r.2.2.1).Serves u ∧ (a'.setTokenPosition r.2.2.2).Serves u' ∧
        (r.1.sourceIsActive = false → u t = 0) ∧ (r.1.targetIsActive = false → u' t = 0) := by
  have hF := BankFaults.avoiding hq
  refine ⟨Faults.avoids (faults_checkedTransferWithFee hF _ _
    (faults_withdrawFromSource hF _ _ _ _ (by simp))
    fun _ _ => faults_depositToTarget hF _ _ _ _ (by simp)), ?_⟩
  rintro ⟨result, b', source', target'⟩ htransfer
  obtain ⟨_, b₁, _, hwithdraw, hdeposit, hfirst, hsecond⟩ := checkedTransferWithFee_parts htransfer
  have hsource' := (withdrawFromSource_changes hwithdraw).1
  have htarget' := (depositToTarget_changes hdeposit).1
  rw [← hfirst] at hsource'
  rw [← hsecond] at htarget'
  exact ⟨ha.changes hsource hsource', ha'.changes htarget htarget',
    ha.idle_of_changes ht hsource hsource', ha'.idle_of_changes ht htarget htarget'⟩

theorem trade_yields (x : SwapTrigger) {swap : TokenConditionalSwap} {liqor liqee : MangoAccount}
    (hq : q.arithmetic = false) (hbuy : swap.buyTokenIndex ≠ FREE_TOKEN_INDEX)
    (hsell : swap.sellTokenIndex ≠ FREE_TOKEN_INDEX)
    (hliqor : s.Counted liqor) (hliqee : s.Counted liqee) (bBuy bSell : Bank) :
    Yields q (x.trade swap liqor liqee bBuy bSell) fun r =>
      s.Counted r.2.2.1 ∧ s.Counted r.2.2.2 ∧ r.2.2.1.SameEntries liqor ∧
        r.2.2.2.SameEntries liqee := by
  refine (ensureTokenPosition_yields hliqor.serves).bind fun r₁ h₁ => ?_
  refine (ensureTokenPosition_yields h₁.1).bind fun r₂ h₂ => ?_
  obtain ⟨_, liqor₁⟩ := r₁
  obtain ⟨_, liqor₂⟩ := r₂
  refine bind_of (by simp [hq]) fun buyAmount _ => ?_
  refine (tokenPositionMut_yields liqee _).bind fun liqeeBuy hliqeeBuy => ?_
  refine (tokenPositionMut_yields liqor₂ _).bind fun liqorBuy hliqorBuy => ?_
  refine (checkedTransfer_yields hq hbuy h₂.1 hliqorBuy hliqee.serves hliqeeBuy _ _ _ _).bind ?_
  rintro ⟨buyTransfer, bBuy', liqorBuy', liqeeBuy'⟩ ⟨hliqor₃, hliqee₁, hbuyIdle, -⟩
  refine (tokenPositionMut_yields _ _).bind fun liqeeSell hliqeeSell => ?_
  refine (tokenPositionMut_yields _ _).bind fun liqorSell hliqorSell => ?_
  refine bind_of (by simp [hq]) fun fromLiqee _ => bind_of (by simp [hq]) fun toLiqor _ => ?_
  refine (checkedTransfer_yields hq hsell hliqee₁ hliqeeSell hliqor₃ hliqorSell _ _ _ _).bind ?_
  rintro ⟨sellTransfer, bSell', liqeeSell', liqorSell'⟩ ⟨hliqee₂, hliqor₄, -, hsellIdle⟩
  refine bind_of (by simp [hq]) fun _ _ => bind_of (by simp [hq]) fun _ _ => ?_
  refine (hliqor₄.deactivateIfInactive hbuy hbuyIdle).bind fun liqor₅ h₅ => ?_
  refine (h₅.1.deactivateIfInactive hsell hsellIdle).bind fun liqor₆ h₆ => ?_
  have hentries₂ : liqor₂.SameEntries liqor := h₂.2.1.trans h₁.2.1
  have hentries : liqor₆.SameEntries liqor :=
    h₆.2.trans (h₅.2.trans ⟨hentries₂.perps, hentries₂.serum3, hentries₂.tokenConditionalSwaps⟩)
  exact pure ⟨hliqor.of_sameEntries hentries h₆.1,
    hliqee.of_sameEntries ⟨rfl, rfl, rfl⟩ hliqee₂, hentries, ⟨rfl, rfl, rfl⟩⟩

theorem tokenConditionalSwapTrigger_yields (h : s.Sound) (x : SwapTrigger) :
    Yields .assertion (s.tokenConditionalSwapTrigger x) Sound := by
  refine (Yields.require _ _).bind fun _ _ => ?_
  refine (load_yields h x.liqor).bind fun liqor hliqor => ?_
  refine (load_yields h x.liqee).bind fun liqee hliqee => ?_
  refine (tokenConditionalSwapByIndex_yields liqee x.index).bind fun swap hswap => ?_
  refine (Yields.require _ _).bind fun _ hconfigured => (Yields.require _ _).bind fun _ _ => ?_
  refine (loadBankPair_yields (by decide) h _ _ _ _).bind ?_
  rintro ⟨bBuy, bSell⟩ ⟨hbuy, hsell⟩
  refine Yields.ite (fun _ => ?_) fun _ => ?_
  · -- an expired swap is removed
    refine (Yields.require _ _).bind fun _ _ => ?_
    refine (removeSwap_yields rfl hliqee hswap hconfigured hbuy hsell bBuy bSell x.nowTs).bind ?_
    rintro ⟨bBuy', bSell', liqee'⟩ hliqee'
    exact Yields.pure (((h.setBank _ _ _).setBank _ _ _).setAccount _
      ((hliqee'.setBank _ _ _).setBank _ _ _))
  · refine (ensureTokenPosition_yields hliqee.serves).bind fun r₁ h₁ => ?_
    refine (ensureTokenPosition_yields h₁.1).bind fun r₂ h₂ => ?_
    obtain ⟨_, liqee₁⟩ := r₁
    obtain ⟨_, liqee₂⟩ := r₂
    have hentries₂ := h₂.2.1.trans h₁.2.1
    have hliqee₂ := hliqee.of_sameEntries hentries₂ h₂.1
    refine (trade_yields x rfl hbuy hsell hliqor hliqee₂ bBuy bSell).bind ?_
    rintro ⟨bBuy', bSell', liqor', liqee₃⟩ ⟨hliqor', hliqee₃, -, hentries₃⟩
    refine Yields.bind (P := fun r => s.Counted r.2.2) ?_ ?_
    · refine Yields.ite (fun _ => ?_) fun _ => Yields.pure hliqee₃
      refine removeSwap_yields rfl hliqee₃ ?_ hconfigured hbuy hsell bBuy' bSell' x.nowTs
      rw [(hentries₃.trans hentries₂).tokenConditionalSwaps, hswap]
    · rintro ⟨bBuy'', bSell'', liqee₄⟩ hliqee₄
      refine (Yields.require _ _).bind fun _ _ => Yields.pure ?_
      exact (((h.setBank _ _ _).setBank _ _ _).setAccount _
        ((hliqor'.setBank _ _ _).setBank _ _ _)).setAccount _
        (((hliqee₄.setBank _ _ _).setBank _ _ _).setAccount _ _)

theorem tokenConditionalSwapStart_yields (h : s.Sound) (liqorKey liqeeKey : Pubkey)
    (index id sellBank : Nat) (incentive price : I80F48) (nowTs : Nat) :
    Yields .assertion (s.tokenConditionalSwapStart liqorKey liqeeKey index id sellBank incentive
      price nowTs) Sound := by
  refine (Yields.require _ _).bind fun _ _ => ?_
  refine (load_yields h liqeeKey).bind fun liqee hliqee => ?_
  refine (load_yields h liqorKey).bind fun liqor hliqor => ?_
  refine (tokenConditionalSwapByIndex_yields liqee index).bind fun swap _ => ?_
  refine (Yields.require _ _).bind fun _ _ => (Yields.require _ _).bind fun _ _ => ?_
  refine (loadBank_yields h _ _).bind fun b hsell => ?_
  refine (tokenPositionMut_yields liqee _).bind fun liqeeSell hliqeeSell => ?_
  refine (ensureTokenPosition_yields hliqor.serves).bind ?_
  rintro ⟨liqorSell, liqor₁⟩ ⟨hserves, hentries, hliqorSell⟩
  refine (checkedTransfer_yields rfl hsell hliqee.serves hliqeeSell hserves hliqorSell _ _ _ _).bind ?_
  rintro ⟨_, b', liqeeSell', liqorSell'⟩ ⟨hliqee', hliqor', -, -⟩
  have hliqor₂ := hliqor.of_sameEntries
    ((setTokenPosition_sameEntries liqor₁ liqorSell').trans hentries) hliqor'
  have hliqee₂ := hliqee.of_sameEntries
    (setTokenPosition_sameEntries liqee liqeeSell') hliqee'
  exact pure (((h.setBank _ _ _).setAccount _ (hliqor₂.setBank _ _ _)).setAccount _
    ((hliqee₂.setBank _ _ _).setAccount _ _))

/-! ## Liquidation -/

theorem tokenLiqWithToken_yields (h : s.Sound) (x : TokenLiquidation) :
    Yields .assertion (s.tokenLiqWithToken x) Sound := by
  refine (Yields.require _ _).bind fun _ _ => (Yields.require _ _).bind fun _ _ => ?_
  refine (load_yields h x.liqor).bind fun liqor hliqor => ?_
  refine (load_yields h x.liqee).bind fun liqee hliqee => ?_
  refine (loadBankPair_yields (by decide) h _ _ _ _).bind ?_
  rintro ⟨assetBank, liabBank⟩ ⟨hasset, hliab⟩
  refine (tokenPositionMut_yields liqee _).bind fun liqeeAsset _ => ?_
  refine Yields.bind_of (by simp) fun _ _ => (Yields.require _ _).bind fun _ _ => ?_
  refine (tokenPositionMut_yields liqee _).bind fun liqeeLiab hliqeeLiab => ?_
  refine Yields.bind_of (by simp) fun _ _ => (Yields.require _ _).bind fun _ _ => ?_
  refine Yields.bind_of (by simp) fun fee _ => Yields.bind_of (by simp) fun fees _ => ?_
  -- the liqee's liability
  refine bind_of (faults_depositWithDusting (.avoiding rfl) _ _ _ _) ?_
  rintro ⟨liqeeLiabActive, liabBank₁, liqeeLiab₁⟩ hdeposit
  have hchanges₁ := depositWithDusting_changes hdeposit
  have hliqee₁ := hliqee.serves.changes hliqeeLiab hchanges₁
  have hidle₁ := hliqee.serves.idle_of_changes hliab hliqeeLiab hchanges₁
  -- the liqor's liability
  refine (ensureTokenPosition_yields hliqor.serves).bind ?_
  rintro ⟨liqorLiab, liqor₁⟩ ⟨hliqor₁, hentries₁, hliqorLiab⟩
  refine bind_of (faults_withdrawWithFee (.avoiding rfl) _ _ _ _) ?_
  rintro ⟨liqorLiabResult, liabBank₂, liqorLiab₁⟩ hwithdraw
  have hchanges₂ := withdrawWithFee_changes hwithdraw
  have hidle₂ := hliqor₁.idle_of_changes hliab hliqorLiab hchanges₂
  -- the liqor's asset
  refine (ensureTokenPosition_yields (hliqor₁.changes hliqorLiab hchanges₂)).bind ?_
  rintro ⟨liqorAsset, liqor₂⟩ ⟨hliqor₂, hentries₂, hliqorAsset⟩
  refine bind_of (faults_deposit (.avoiding rfl) _ _ _ _) ?_
  rintro ⟨liqorAssetActive, assetBank₁, liqorAsset₁⟩ hdeposit
  have hchanges₃ := deposit_changes hdeposit
  have hidle₃ := hliqor₂.idle_of_changes hasset hliqorAsset hchanges₃
  -- the liqee's asset
  refine (tokenPositionMut_yields _ _).bind fun liqeeAsset₁ hliqeeAsset => ?_
  refine bind_of (faults_withdrawWithoutFeeWithDusting (.avoiding rfl) _ _ _ _) ?_
  rintro ⟨liqeeAssetActive, assetBank₂, liqeeAsset₂⟩ hwithdraw
  have hchanges₄ := withdrawWithoutFeeWithDusting_changes hwithdraw
  have hidle₄ := hliqee₁.idle_of_changes hasset hliqeeAsset hchanges₄
  refine ((hliqee₁.changes hliqeeAsset hchanges₄).deactivateIfInactive hasset hidle₄).bind
    fun liqee₂ h₂ => ?_
  refine (h₂.1.deactivateIfInactive hliab hidle₁).bind fun liqee₃ h₃ => ?_
  refine ((hliqor₂.changes hliqorAsset hchanges₃).deactivateIfInactive hasset hidle₃).bind
    fun liqor₃ h₄ => ?_
  refine (h₄.1.deactivateIfInactive hliab hidle₂).bind fun liqor₄ h₅ => ?_
  have hliqee' : s.Counted liqee₃ :=
    hliqee.of_sameEntries (h₃.2.trans (h₂.2.trans ⟨rfl, rfl, rfl⟩)) h₃.1
  have hliqor' : s.Counted liqor₄ := by
    refine hliqor.of_sameEntries ?_ h₅.1
    have hentries₃ := hentries₂.trans
      ((setTokenPosition_sameEntries liqor₁ liqorLiab₁).trans hentries₁)
    exact (h₅.2.trans (h₄.2.trans (setTokenPosition_sameEntries _ _))).trans hentries₃
  exact pure ((((h.setBank _ _ _).setBank _ _ _).setAccount _
    ((hliqor'.setBank _ _ _).setBank _ _ _)).setAccount _
    (((hliqee'.setBank _ _ _).setBank _ _ _).setAccount _ _))

/-! ## Every instruction -/

theorem apply_yields (h : s.Sound) (op : Op) : Yields .assertion (apply op s) Sound := by
  cases op with
  | tokenDeposit key t i amount reduceOnly nowTs => exact tokenDeposit_yields h ..
  | tokenDepositIntoExisting key t i amount reduceOnly nowTs =>
    exact tokenDepositIntoExisting_yields h ..
  | tokenWithdraw key t i amount allowBorrow nowTs => exact tokenWithdraw_yields h ..
  | serum3CreateOpenOrders key m => exact serum3CreateOpenOrders_yields h ..
  | serum3CloseOpenOrders key m => exact serum3CloseOpenOrders_yields h ..
  | ensurePerpPosition key m => exact ensurePerpPosition_yields h ..
  | perpDeactivatePosition key m => exact perpDeactivatePosition_yields h ..
  | tokenConditionalSwapCreate key buy buyBank sell sellBank expiry nowTs terms =>
    exact tokenConditionalSwapCreate_yields h ..
  | tokenConditionalSwapCancel key index id buyBank sellBank nowTs =>
    exact tokenConditionalSwapCancel_yields h ..
  | tokenConditionalSwapTrigger x => exact tokenConditionalSwapTrigger_yields h x
  | tokenConditionalSwapStart liqor liqee index id sellBank incentive price nowTs =>
    exact tokenConditionalSwapStart_yields h ..
  | tokenLiqWithToken x => exact tokenLiqWithToken_yields h x

theorem exec_yields (h : s.Sound) (op : Op) : Yields .assertion (exec op s) fun r => r.2.Sound :=
  (apply_yields h op).bind fun _ hs => pure hs

/-- An account without entries, as it is created. -/
structure Blank (a : MangoAccount) : Prop where
  tokens : ∀ p ∈ a.tokens, p.tokenIndex = FREE_TOKEN_INDEX
  perps : ∀ p ∈ a.perps, p.isActive = false
  serum3 : ∀ o ∈ a.serum3, o = .default
  swaps : ∀ x ∈ a.tokenConditionalSwaps, x.isConfigured = false

theorem Blank.counted (h : Blank a) (s : Group) : s.Counted a := by
  have hactive : ∀ o ∈ a.serum3, o.isActive = false := by
    intro o ho
    rw [h.serum3 o ho]
    rfl
  have huses : ∀ t, s.uses a t = 0 := by
    intro t
    have hperp : s.perpUses a t = 0 := by
      refine countP_eq_zero.mpr fun p hp => ?_
      simp [h.perps p hp]
    have hserum3 : serum3Uses a t = 0 := by
      refine Nat.add_eq_zero_iff.mpr ⟨countP_eq_zero.mpr fun o ho => ?_,
        countP_eq_zero.mpr fun o ho => ?_⟩
      · simp [hactive o ho]
      · simp [hactive o ho]
    have hswap : swapUses a t = 0 := by
      refine Nat.add_eq_zero_iff.mpr ⟨countP_eq_zero.mpr fun x hx => ?_,
        countP_eq_zero.mpr fun x hx => ?_⟩
      · simp [h.swaps x hx]
      · simp [h.swaps x hx]
    rw [uses, hperp, hserum3, hswap]
  have hnone : ∀ t, t ≠ FREE_TOKEN_INDEX → ∀ p ∈ a.tokens, ¬ decide (p.tokenIndex = t) = true := by
    intro t ht p hp heq
    exact ht ((of_decide_eq_true heq).symm.trans (h.tokens p hp))
  refine ⟨⟨fun t ht => ?_, fun t ht => ?_⟩, fun o ho => ?_, fun o ho hoactive => ?_⟩
  · rw [huses t]
    exact held_of_none (find?_eq_none.mpr (hnone t ht))
  · rw [tokenCount, countP_eq_zero.mpr (hnone t ht)]
    exact Nat.zero_le 1
  · rw [h.serum3 o ho]
    exact fun heq => by cases heq
  · rw [hactive o ho] at hoactive
    cases hoactive

/-- Markets are registered under indices other than that of free entries, and
    no account has an entry yet. -/
structure Fresh (s : Group) : Prop where
  registered : s.Registered
  accounts : ∀ key a, s.accounts key = some a → Blank a

theorem Fresh.sound (h : s.Fresh) : s.Sound :=
  ⟨h.registered, fun key a ha => (h.accounts key a ha).counted s⟩

theorem sound_run (h : s.Fresh) (ops : List Op) : (run exec s ops).Sound :=
  run_preserves (P := Sound) (fun op _ _ _ hs hex => (exec_yields hs op).2 _ hex) ops h.sound

/-- In every state that instructions reach, an active token position counts
    exactly the entries that need the token, a token that is needed has its
    position, and no instruction fails the assertion of a deactivation. -/
theorem inUseCount_eq_uses (h : s.Fresh) (ops : List Op) :
    (∀ key a, (run exec s ops).accounts key = some a →
      (∀ p ∈ a.tokens, p.tokenIndex ≠ FREE_TOKEN_INDEX →
        p.inUseCount = (run exec s ops).uses a p.tokenIndex) ∧
      ∀ t, t ≠ FREE_TOKEN_INDEX → 0 < (run exec s ops).uses a t →
        ∃ p ∈ a.tokens, p.tokenIndex = t ∧ p.inUseCount = (run exec s ops).uses a t) ∧
    ∀ op, exec op (run exec s ops) ≠ .error (.panic .assertion) := by
  have hsound := sound_run h ops
  refine ⟨fun key a ha => ?_, fun op => (exec_yields hsound op).1⟩
  have hserves := (hsound.accounts key a ha).serves
  refine ⟨fun p hp ht => ?_, fun t ht huses => ?_⟩
  · rw [← hserves.held _ ht, held_of_position (hserves.position_of_mem hp ht)]
  · cases hp : a.tokenPosition t with
    | none =>
      rw [← hserves.held t ht, held_of_none hp] at huses
      omega
    | some p =>
      refine ⟨p, mem_of_find?_eq_some hp, tokenPosition_tokenIndex hp, ?_⟩
      rw [← hserves.held t ht, held_of_position hp]

/-! ## A group with a few tokens and markets -/

/-- An account with free entries of each kind. -/
def blankAccount : MangoAccount where
  tokens := List.replicate 3 { tokenIndex := FREE_TOKEN_INDEX, inUseCount := 0 }
  perps := List.replicate 2 .default
  perpOpenOrders := []
  buybackFeesExpiryTimestamp := 0
  buybackFeesAccruedCurrent := 0
  buybackFeesAccruedPrevious := 0
  serum3 := [.default]
  tokenConditionalSwaps := [.default]
  perpOoCount_lt := noOrders_lt

theorem blankAccount_blank : Blank blankAccount := by
  refine ⟨fun p hp => ?_, fun p hp => ?_, fun o ho => ?_, fun x hx => ?_⟩
  · rw [(mem_replicate.mp hp).2]
  · rw [(mem_replicate.mp hp).2]
    rfl
  · exact mem_singleton.mp ho
  · rw [mem_singleton.mp hx]
    rfl

/-- Tokens 1 and 2, the spot market of token 2 in token 1, and perp markets
    that settle in token 1. -/
def spotAndPerp (perpMarkets : List PerpMarketIndex) : Group where
  banks := fun t => if t = 1 ∨ t = 2 then [Bank.plain t] else []
  accounts := fun key => if key = 0 ∨ key = 1 then some blankAccount else none
  insuranceVault := 0
  perpMarkets := fun m =>
    if m ∈ perpMarkets then some { PerpMarket.plain m with settleTokenIndex := 1 } else none
  serum3Markets := fun m => if m = 0 then some ⟨0, 2, 1⟩ else none

theorem spotAndPerp_fresh {perpMarkets : List PerpMarketIndex}
    (h : FREE_ORDER_SLOT ∉ perpMarkets) : (spotAndPerp perpMarkets).Fresh := by
  refine ⟨⟨rfl, fun m market hm => ?_, fun m market hm => ?_⟩, fun key a ha => ?_⟩
  · obtain ⟨hmem, hmarket⟩ := ite_none_right_eq_some.mp hm
    rw [← some.inj hmarket]
    refine ⟨rfl, ?_, ?_⟩
    · rintro rfl
      exact h hmem
    · show (1 : TokenIndex) ≠ FREE_TOKEN_INDEX
      decide
  · obtain ⟨rfl, hmarket⟩ := ite_none_right_eq_some.mp hm
    rw [← some.inj hmarket]
    decide
  · obtain ⟨-, rfl⟩ := (ite_none_right_eq_some.mp ha).imp_right some.inj
    exact blankAccount_blank

/-- Entries of each kind are created, a swap is triggered and removed, and the
    open orders are closed. -/
def entriesComeAndGo : List Op :=
  [.ensurePerpPosition 0 0,
    .serum3CreateOpenOrders 0 0,
    .tokenConditionalSwapCreate 0 2 0 1 0 100 0,
    .tokenDeposit 0 1 0 1000 false 0,
    .tokenDeposit 1 2 0 1000 false 0,
    .tokenConditionalSwapTrigger ⟨1, 0, 0, 0, 0, 0, I80F48.ONE, I80F48.ONE, 10, 10, 10, 0, true, 0⟩,
    .serum3CloseOpenOrders 0 0]

theorem entriesComeAndGo_counted :
    (spotAndPerp [0]).Fresh ∧
    ((∀ key a, (run exec (spotAndPerp [0]) entriesComeAndGo).accounts key = some a →
      (∀ p ∈ a.tokens, p.tokenIndex ≠ FREE_TOKEN_INDEX →
        p.inUseCount = (run exec (spotAndPerp [0]) entriesComeAndGo).uses a p.tokenIndex) ∧
      ∀ t, t ≠ FREE_TOKEN_INDEX → 0 < (run exec (spotAndPerp [0]) entriesComeAndGo).uses a t →
        ∃ p ∈ a.tokens, p.tokenIndex = t ∧
          p.inUseCount = (run exec (spotAndPerp [0]) entriesComeAndGo).uses a t) ∧
    ∀ op, exec op (run exec (spotAndPerp [0]) entriesComeAndGo) ≠ .error (.panic .assertion)) :=
  ⟨spotAndPerp_fresh (by decide),
    inUseCount_eq_uses (spotAndPerp_fresh (by decide)) entriesComeAndGo⟩

/-- The perp market with the index of free entries is deactivated on an account
    with a position in another market, and the settle token is withdrawn. -/
def settleTokenReleased : List Op :=
  [.ensurePerpPosition 0 0,
    .perpDeactivatePosition 0 FREE_ORDER_SLOT,
    .tokenDeposit 0 1 0 1 false 0,
    .tokenWithdraw 0 1 0 1 false 0]

/-- A free entry is taken for the position: the use count of the settle token
    drops to zero although the other position needs the token, and withdrawing
    its balance deactivates the token position. -/
theorem settleToken_released_in_use :
    (∃ a ∈ (run exec (spotAndPerp [0, FREE_ORDER_SLOT]) (settleTokenReleased.take 2)).accounts 0,
      (∃ p ∈ a.tokens, p.tokenIndex = 1 ∧ p.inUseCount = 0) ∧
        (run exec (spotAndPerp [0, FREE_ORDER_SLOT]) (settleTokenReleased.take 2)).uses a 1 = 1) ∧
    ∃ a ∈ (run exec (spotAndPerp [0, FREE_ORDER_SLOT]) settleTokenReleased).accounts 0,
      (∀ p ∈ a.tokens, p.tokenIndex = FREE_TOKEN_INDEX) ∧
        (run exec (spotAndPerp [0, FREE_ORDER_SLOT]) settleTokenReleased).uses a 1 = 1 := by
  decide +kernel

end Group

end MangoV4
