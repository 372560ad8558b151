/-
  MangoV4.Health.Deposit

  Health after a deposit.

  A deposit adds to the value of its token.  It also moves up the balance on top
  of which open orders are counted: reserved amounts that repaid a borrow
  before, with the liability weight, may now come on top of it, with the asset
  weight.  Each market of the token is counted as if its amounts came last, so
  each of them can lose this way, and together they can lose more than the
  deposit adds.
-/

import MangoV4.Health.OpenOrders

namespace MangoV4

open Lib Lib.Exec

namespace HealthCache

/-- `amount` more tokens of the token info with index `k`. -/
def deposit (c : HealthCache ℚ) (k : Nat) (amount : ℚ) : HealthCache ℚ :=
  c.withSpot (credit c.spotAt k amount)

variable {c : HealthCache ℚ} {T : HealthType}

/-- Only the balance of the deposited token changes. -/
theorem effectiveTokenBalances_deposit {balances : List ℚ} {k : Nat}
    (h : c.effectiveTokenBalances T = .ok balances) (hk : k < c.tokenInfos.length) (amount : ℚ) :
    ∃ balances', (c.deposit k amount).effectiveTokenBalances T = .ok balances' ∧
      (fun i => balances'.getD i 0) = credit (fun i => balances.getD i 0) k amount := by
  obtain ⟨l, hl, hentries⟩ := perps_of_effectiveTokenBalances h
  have hperps : (c.deposit k amount).perpBalances T false = .ok l :=
    (perpBalances_congr sameTokens_withSpot rfl).symm.trans hl
  obtain ⟨balances', hbalances', hentries'⟩ := effectiveTokenBalances_of_perps hperps
  refine ⟨balances', hbalances', funext fun i => ?_⟩
  have hspot : (c.deposit k amount).spotAt i = credit c.spotAt k amount i := by
    by_cases hi : i < c.tokenInfos.length
    · exact spotAt_withSpot hi
    · have hne : i ≠ k := fun h => hi (h ▸ hk)
      rw [credit_of_ne hne, deposit, spotAt, spotAt, getElem?_withSpot,
        List.getElem?_eq_none (not_lt.mp hi)]
      rfl
  show balances'.getD i 0 = _
  rw [hentries', hspot, funext hentries, credit_add]

end HealthCache

end MangoV4
