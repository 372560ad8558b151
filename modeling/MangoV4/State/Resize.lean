/-
  MangoV4.State.Resize

  Changing the number of slots of an account (`resize_dynamic_content` in
  `mango_account.rs`).

  Entries that are in use move to the front, in their order.  Perp open orders
  do not: orders on the book refer to them by index.
-/

import MangoV4.Lib.Slots
import MangoV4.State.MangoAccount

namespace MangoV4

open Lib Lib.Exec List PerpPosition

/-- The number of slots of each kind, which are `u8`. -/
structure MangoAccountDynamicHeader where
  tokenCount : Nat
  serum3Count : Nat
  perpCount : Nat
  perpOoCount : Nat
  tokenConditionalSwapCount : Nat
deriving DecidableEq

namespace MangoAccountDynamicHeader

def expectedHealthAccounts (header : MangoAccountDynamicHeader) : Nat :=
  header.tokenCount * 2 + header.serum3Count + header.perpCount * 2

def maxHealthAccounts : Nat := 28

/-- What grows has to stay within the limits; what does not may exceed them. -/
def checkResizeFrom (header prev : MangoAccountDynamicHeader) : Exec Unit := do
  if prev.expectedHealthAccounts < header.expectedHealthAccounts then
    require (decide (header.expectedHealthAccounts ≤ maxHealthAccounts)) .requireGteViolated
  if prev.perpOoCount < header.perpOoCount then
    require (decide (header.perpOoCount ≤ 64)) .requireGteViolated
  if prev.tokenConditionalSwapCount < header.tokenConditionalSwapCount then
    require (decide (header.tokenConditionalSwapCount ≤ 64)) .requireGteViolated

end MangoAccountDynamicHeader

def TokenPosition.default : TokenPosition where
  tokenIndex := FREE_TOKEN_INDEX
  inUseCount := 0

def TokenPosition.isActive (p : TokenPosition) : Bool := decide (p.tokenIndex ≠ FREE_TOKEN_INDEX)

def PerpOpenOrder.isActive (oo : PerpOpenOrder) : Bool := decide (oo.market ≠ FREE_ORDER_SLOT)

namespace MangoAccount

def header (a : MangoAccount) : MangoAccountDynamicHeader where
  tokenCount := a.tokens.length
  serum3Count := a.serum3.length
  perpCount := a.perps.length
  perpOoCount := a.perpOpenOrders.length
  tokenConditionalSwapCount := a.tokenConditionalSwaps.length

/-- The slots up to the last open order. -/
def blockedPerpOo (orders : List PerpOpenOrder) : Nat :=
  blocked (fun i => orders[i]?.any PerpOpenOrder.isActive) orders.length

theorem length_take_blockedPerpOo (orders : List PerpOpenOrder) :
    (orders.take (blockedPerpOo orders)).length = blockedPerpOo orders :=
  length_take_of_le (blocked_le _ _)

def resizeDynamicContent (a : MangoAccount) (new : MangoAccountDynamicHeader)
    (hnew : new.perpOoCount < 2 ^ 8) : Exec MangoAccount := do
  new.checkResizeFrom a.header
  let tokens := a.tokens.filter TokenPosition.isActive
  let serum3 := a.serum3.filter Serum3Orders.isActive
  let perps := a.perps.filter PerpPosition.isActive
  let perpOpenOrders := a.perpOpenOrders.take (blockedPerpOo a.perpOpenOrders)
  let tokenConditionalSwaps := a.tokenConditionalSwaps.filter TokenConditionalSwap.isConfigured
  require (decide (tokens.length ≤ new.tokenCount)) .requireGteViolated
  require (decide (serum3.length ≤ new.serum3Count)) .requireGteViolated
  require (decide (perps.length ≤ new.perpCount)) .requireGteViolated
  -- only open orders keep their slot from being removed
  require (decide (perpOpenOrders.length ≤ new.perpOoCount)) .requireGteViolated
  require (decide (tokenConditionalSwaps.length ≤ new.tokenConditionalSwapCount))
    .requireGteViolated
  return { a with
    tokens := padTo new.tokenCount .default tokens
    serum3 := padTo new.serum3Count .default serum3
    perps := padTo new.perpCount .default perps
    perpOpenOrders := padTo new.perpOoCount .cleared perpOpenOrders
    tokenConditionalSwaps := padTo new.tokenConditionalSwapCount .default tokenConditionalSwaps
    perpOoCount_lt := by rw [length_padTo]; exact hnew }

/-! ## What is left of the perp part -/

variable {a a' : MangoAccount} {new : MangoAccountDynamicHeader} {hnew : new.perpOoCount < 2 ^ 8}

theorem resizeDynamicContent_ok (h : a.resizeDynamicContent new hnew = .ok a') :
    (a.perps.filter isActive).length ≤ new.perpCount ∧
      blockedPerpOo a.perpOpenOrders ≤ new.perpOoCount ∧
      a'.perps = padTo new.perpCount .default (a.perps.filter isActive) ∧
      a'.perpOpenOrders = padTo new.perpOoCount .cleared
        (a.perpOpenOrders.take (blockedPerpOo a.perpOpenOrders)) := by
  obtain ⟨_, -, h⟩ := of_bind h
  obtain ⟨_, -, h⟩ := of_bind h
  obtain ⟨_, -, h⟩ := of_bind h
  obtain ⟨_, hperps, h⟩ := of_bind h
  obtain ⟨_, horders, h⟩ := of_bind h
  obtain ⟨_, -, h⟩ := of_bind h
  obtain rfl := ok_inj h
  have horders := of_require horders
  rw [length_take_blockedPerpOo] at horders
  exact ⟨of_require hperps, horders, rfl, rfl⟩

/-- The slots of every market are kept, unless its index marks free slots. -/
theorem resizeDynamicContent_sameSlots (h : a.resizeDynamicContent new hnew = .ok a')
    {m : PerpMarketIndex} (hm : m ≠ FREE_ORDER_SLOT) :
    SameSlots m a.perpOpenOrders a'.perpOpenOrders := by
  obtain ⟨-, hfits, -, horders⟩ := resizeDynamicContent_ok h
  rw [horders]
  have hlength := length_take_blockedPerpOo a.perpOpenOrders
  intro i oo hoo
  by_cases hi : i < blockedPerpOo a.perpOpenOrders
  · rw [getElem?_padTo_of_lt (hlength.symm ▸ hi) (Nat.lt_of_lt_of_le hi hfits),
      getElem?_take_of_lt hi]
  · constructor
    · intro hfound
      have hcleared := eq_of_getElem?_padTo (hlength.symm ▸ Nat.le_of_not_lt hi) hfound
      rw [hcleared] at hoo
      exact absurd hoo.symm hm
    · -- an open order is blocked
      intro hfound
      have hactive : (a.perpOpenOrders[i]?.any PerpOpenOrder.isActive) = true := by
        rw [hfound, Option.any_some]
        exact decide_eq_true (hoo ▸ hm)
      exact absurd (lt_blocked (List.getElem?_eq_some_iff.mp hfound).1 hactive) hi

theorem resizeDynamicContent_slotCount (h : a.resizeDynamicContent new hnew = .ok a') :
    a'.perpOpenOrders.length = new.perpOoCount := by
  rw [(resizeDynamicContent_ok h).2.2.2, length_padTo]

/-- No market gets a second position. -/
theorem resizeDynamicContent_perpCount (h : a.resizeDynamicContent new hnew = .ok a')
    {m : PerpMarketIndex} (hm : m ≠ FREE_ORDER_SLOT) : a'.perpCount m ≤ a.perpCount m := by
  obtain ⟨hfits, -, hperps, -⟩ := resizeDynamicContent_ok h
  have hdefault : (replicate (new.perpCount - (a.perps.filter isActive).length)
      default).countP (isActiveForMarket m) = 0 := by
    rw [countP_eq_zero]
    intro p hp
    rw [eq_of_mem_replicate hp]
    exact fun heq => hm (of_decide_eq_true heq).symm
  rw [perpCount, hperps, padTo_of_length_le hfits, countP_append, hdefault, Nat.add_zero,
    perpCount]
  exact filter_sublist.countP_le

end MangoAccount

end MangoV4
