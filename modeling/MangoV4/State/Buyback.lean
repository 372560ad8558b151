/-
  MangoV4.State.Buyback

  Fees an account may buy back, which expire in staggered windows.

  The account keeps two sums and a timestamp.  What they stand for is an amount
  for each window of the interval: what was accrued in it and has not been
  used.  The amounts of the current and the previous window are available, and
  what is used is taken from the older one first.
-/

import MangoV4.State.MangoAccount
import MangoV4.Lib.Run

namespace MangoV4

open Lib Lib.Exec MangoAccount

/-! ## Amounts by window -/

/-- What is left of the window before `w`. -/
def previousLeft (left : Nat → Nat) : Nat → Nat
  | 0 => 0
  | w + 1 => left w

/-- What is left of window `w` and of the one before it. -/
def availableLeft (left : Nat → Nat) (w : Nat) : Nat := left w + previousLeft left w

/-- In window `w`, an amount is taken from the older window first. -/
def consumeLeft (left : Nat → Nat) (w amount k : Nat) : Nat :=
  if k = w then left k - (amount - previousLeft left w)
  else if k + 1 = w then left k - amount
  else left k

theorem previousLeft_consume (left : Nat → Nat) (w amount : Nat) :
    previousLeft (consumeLeft left w amount) w = previousLeft left w - amount := by
  cases w with
  | zero => exact (Nat.zero_sub amount).symm
  | succ w => simp [previousLeft, consumeLeft]

/-- An account, the amounts its sums stand for, and when they last expired. -/
structure Buyback where
  account : MangoAccount
  left : Nat → Nat
  nowTs : Nat

namespace Buyback

/-- The uses of buyback fees; fees are accrued after an expiry in the same
    instruction. -/
inductive Op
  | expire (nowTs : Nat)
  | accrue (nowTs amount : Nat)
  | reduce (amount : Nat)

def exec (interval : Nat) : Op → Buyback → Exec (Unit × Buyback)
  | .expire nowTs, s => do
    let account ← s.account.expireBuybackFees nowTs interval
    return ((), { s with account, nowTs })
  | .accrue nowTs amount, s => do
    let account ← s.account.expireBuybackFees nowTs interval
    return ((), { account := account.accrueBuybackFees amount
                  left k := s.left k + if k = nowTs / interval then amount else 0
                  nowTs })
  | .reduce amount, s => do
    let account ← s.account.reduceBuybackFeesAccrued amount
    return ((), { s with account, left := consumeLeft s.left (s.nowTs / interval) amount })

/-- Time does not go back, and sums are below the maximum. -/
def Allowed (interval : Nat) : Op → Buyback → Prop
  | .expire nowTs, s => s.nowTs ≤ nowTs
  | .accrue nowTs amount, s =>
    s.nowTs ≤ nowTs ∧ availableLeft s.left (nowTs / interval) + amount ≤ U64_MAX
  | .reduce _, _ => True

/-- An account that has never accrued fees. -/
def start (a : MangoAccount) : Buyback := ⟨a, fun _ => 0, 0⟩

/-- The sums of an account are those of window `w` and the one before it. -/
structure Holds (interval w : Nat) (a : MangoAccount) (left : Nat → Nat) : Prop where
  current : a.buybackFeesAccruedCurrent = left w
  previous : a.buybackFeesAccruedPrevious = previousLeft left w
  le : a.buybackFeesAccruedCurrent + a.buybackFeesAccruedPrevious ≤ U64_MAX
  later : ∀ k, w < k → left k = 0
  expiry : a.buybackFeesExpiryTimestamp = (w + 1) * interval ∨
    a.buybackFeesExpiryTimestamp = 0 ∧ ∀ k, left k = 0

section Holds

variable {interval w t amount : Nat} {a a' : MangoAccount} {left : Nat → Nat} {f : Fault MangoError}

theorem Holds.accrued_eq (h : Holds interval w a left) :
    a.buybackFeesAccrued = availableLeft left w := by
  rw [buybackFeesAccrued, min_eq_right h.le, h.current, h.previous, availableLeft]

theorem Holds.expire (hinterval : 0 < interval) (h : Holds interval w a left)
    (hmono : w ≤ t / interval) (hexec : a.expireBuybackFees t interval = .ok a') :
    Holds interval (t / interval) a' left ∧
      a'.buybackFeesExpiryTimestamp = (t / interval + 1) * interval := by
  have hle := h.le
  unfold expireBuybackFees at hexec
  split_ifs at hexec with hearly
  · -- the window is still the same
    cases hexec
    rcases h.expiry with hexpiry | ⟨hexpiry, -⟩
    · have hlt := (Nat.div_lt_iff_lt_mul hinterval).mpr (hexpiry ▸ hearly.resolve_left hinterval.ne')
      have hsame : t / interval = w := by omega
      rw [hsame]
      exact ⟨h, hexpiry⟩
    · omega
  · obtain ⟨-, hexec⟩ := of_checkU64 hexec
    obtain ⟨-, hexec⟩ := of_checkU64 hexec
    have hcurrent := h.current
    -- the amounts of the new windows, whether it is the next one or a later one
    have hnew : left (t / interval) = 0 ∧ previousLeft left (t / interval) =
        if t < a.buybackFeesExpiryTimestamp + interval then a.buybackFeesAccruedCurrent else 0 := by
      rcases h.expiry with hexpiry | ⟨-, hzero⟩
      · have hnext : w + 1 ≤ t / interval := (Nat.le_div_iff_mul_le hinterval).mpr
          (hexpiry ▸ not_lt.mp fun hlt => hearly (.inr hlt))
        have hsecond : t / interval < w + 2 ↔ t < (w + 1) * interval + interval := by
          rw [Nat.div_lt_iff_lt_mul hinterval, ← Nat.succ_mul]
        simp only [hexpiry, ← hsecond, hcurrent]
        generalize t / interval = w' at hnext
        refine ⟨h.later w' hnext, ?_⟩
        obtain ⟨k, rfl⟩ : ∃ k, w' = k + 1 := ⟨w' - 1, by omega⟩
        split_ifs with hlt
        · rw [show k = w by omega, previousLeft]
        · exact h.later k (by omega)
      · rw [hcurrent, hzero, hzero, ite_self]
        cases t / interval with
        | zero => exact ⟨rfl, rfl⟩
        | succ k => exact ⟨rfl, hzero k⟩
    cases hexec
    refine ⟨⟨hnew.1.symm, hnew.2.symm, ?_, fun k hk => h.later k (by omega), .inl rfl⟩, rfl⟩
    dsimp only
    split_ifs <;> omega

/-- Timestamps that do not fit are the only reason for an expiry to fail. -/
theorem expire_error (hexec : a.expireBuybackFees t interval = .error f) :
    U64_MAX < t + interval := by
  have hround := Nat.div_mul_le_self t interval
  unfold expireBuybackFees at hexec
  unfold U64_MAX
  split_ifs at hexec with hearly
  by_contra hfits
  rw [checkU64_eq_ok.mpr ⟨by omega, rfl⟩, ok_bind,
    checkU64_eq_ok.mpr ⟨by rw [Nat.succ_mul]; omega, rfl⟩] at hexec
  cases hexec

theorem Holds.accrue (h : Holds interval w a left)
    (hexpiry : a.buybackFeesExpiryTimestamp = (w + 1) * interval)
    (hsum : availableLeft left w + amount ≤ U64_MAX) :
    Holds interval w (a.accrueBuybackFees amount) fun k => left k + if k = w then amount else 0 := by
  rw [availableLeft, ← h.current, ← h.previous] at hsum
  have hcurrent : (a.accrueBuybackFees amount).buybackFeesAccruedCurrent =
      a.buybackFeesAccruedCurrent + amount := min_eq_right (by omega)
  have hprevious : (a.accrueBuybackFees amount).buybackFeesAccruedPrevious =
      a.buybackFeesAccruedPrevious := rfl
  refine ⟨?_, ?_, by omega, fun k hk => ?_, .inl hexpiry⟩
  · rw [hcurrent, h.current, if_pos rfl]
  · rw [hprevious, h.previous]
    cases w with
    | zero => rfl
    | succ w => simp [previousLeft]
  · rw [if_neg (by omega), h.later k hk]

/-- What is available is reduced by the amount; the assertion fires only if
    there is less. -/
theorem Holds.reduce (h : Holds interval w a left) (amount : Nat) :
    match a.reduceBuybackFeesAccrued amount with
    | .ok a' => Holds interval w a' (consumeLeft left w amount) ∧
        availableLeft (consumeLeft left w amount) w + amount = availableLeft left w
    | .error f => f = .panic .assertion ∧ availableLeft left w < amount := by
  have hle := h.le
  have hcurrent : consumeLeft left w amount w = left w - (amount - previousLeft left w) := if_pos rfl
  have hlater : ∀ k, w < k → consumeLeft left w amount k = 0 := fun k hk => by
    rw [consumeLeft, if_neg (by omega), if_neg (by omega), h.later k hk]
  have hexpiry : a.buybackFeesExpiryTimestamp = (w + 1) * interval ∨
      a.buybackFeesExpiryTimestamp = 0 ∧ ∀ k, consumeLeft left w amount k = 0 :=
    h.expiry.imp_right fun hzero => ⟨hzero.1, fun k => by simp [consumeLeft, hzero.2]⟩
  unfold reduceBuybackFeesAccrued assert availableLeft
  rw [previousLeft_consume, hcurrent, ← h.current, ← h.previous]
  by_cases hmore : a.buybackFeesAccruedPrevious < amount
  · rw [if_pos hmore]
    by_cases hrest : amount - a.buybackFeesAccruedPrevious ≤ a.buybackFeesAccruedCurrent
    · simp only [hrest, decide_true, if_true, ok_bind, pure_eq_ok]
      refine ⟨⟨?_, ?_, by dsimp only; omega, hlater, hexpiry⟩, by omega⟩
      · rw [hcurrent, h.current, h.previous]
      · rw [previousLeft_consume, ← h.previous]
        exact (Nat.sub_eq_zero_of_le hmore.le).symm
    · simp only [hrest, decide_false]
      exact ⟨rfl, by omega⟩
  · rw [if_neg hmore]
    refine ⟨⟨?_, ?_, by dsimp only; omega, hlater, hexpiry⟩, by omega⟩
    · rw [hcurrent, ← h.current, ← h.previous]
      dsimp only
      omega
    · rw [previousLeft_consume, h.previous]

theorem exec_holds (hinterval : 0 < interval) {op : Op} {s s' : Buyback}
    (h : Holds interval (s.nowTs / interval) s.account s.left) (hop : Allowed interval op s)
    (hexec : exec interval op s = .ok ((), s')) :
    Holds interval (s'.nowTs / interval) s'.account s'.left := by
  cases op with
  | expire t =>
    obtain ⟨a, ha, hexec⟩ := of_bind hexec
    cases hexec
    exact (h.expire hinterval (Nat.div_le_div_right hop) ha).1
  | accrue t amount =>
    obtain ⟨a, ha, hexec⟩ := of_bind hexec
    cases hexec
    obtain ⟨hexpired, hexpiry⟩ := h.expire hinterval (Nat.div_le_div_right hop.1) ha
    exact hexpired.accrue hexpiry hop.2
  | reduce amount =>
    obtain ⟨a, ha, hexec⟩ := of_bind hexec
    cases hexec
    have hreduced := h.reduce amount
    rw [ha] at hreduced
    exact hreduced.1

end Holds

/-- After every run, an expiry leaves what is left of its two windows, and a
    reduction takes what is asked for or asks for more than there is. -/
theorem buybackFees_windowed {interval : Nat} (hinterval : 0 < interval) {a : MangoAccount}
    (hexpiry : a.buybackFeesExpiryTimestamp = 0) (hnone : a.buybackFeesAccrued = 0) (ops : List Op)
    (hops : Guarded (exec interval) (Allowed interval) (start a) ops) :
    let s := run (exec interval) (start a) ops
    (∀ t, s.nowTs ≤ t → match s.account.expireBuybackFees t interval with
      | .ok a' => a'.buybackFeesAccrued = availableLeft s.left (t / interval)
      | .error _ => U64_MAX < t + interval) ∧
    ∀ amount, match s.account.reduceBuybackFeesAccrued amount with
      | .ok a' => a'.buybackFeesAccrued + amount = availableLeft s.left (s.nowTs / interval)
      | .error f => f = .panic .assertion ∧ availableLeft s.left (s.nowTs / interval) < amount := by
  intro s
  have hsum : a.buybackFeesAccruedCurrent + a.buybackFeesAccruedPrevious = 0 := by
    unfold buybackFeesAccrued U64_MAX at hnone
    omega
  have hstart : Holds interval (0 / interval) a fun _ => 0 := by
    rw [Nat.zero_div]
    exact ⟨by omega, by rw [previousLeft]; omega, by omega, fun _ _ => rfl, .inr ⟨hexpiry, fun _ => rfl⟩⟩
  have hs : Holds interval (s.nowTs / interval) s.account s.left :=
    run_preserves_of_guarded (P := fun s => Holds interval (s.nowTs / interval) s.account s.left)
      (fun _ _ _ _ h hop hexec => exec_holds hinterval h hop hexec) ops _ hstart hops
  refine ⟨fun t ht => ?_, fun amount => ?_⟩
  · cases hexec : s.account.expireBuybackFees t interval with
    | ok a' => exact (hs.expire hinterval (Nat.div_le_div_right ht) hexec).1.accrued_eq
    | error f => exact expire_error hexec
  · have hreduced := hs.reduce amount
    cases hexec : s.account.reduceBuybackFeesAccrued amount with
    | ok a' =>
      rw [hexec] at hreduced
      show a'.buybackFeesAccrued + amount = _
      rw [hreduced.1.accrued_eq, hreduced.2]
    | error f =>
      rw [hexec] at hreduced
      exact hreduced

/-- Fees of two windows, used in part, and an expiry in the window after them. -/
def twoWindows : List Op := [.accrue 1000 10, .reduce 2, .accrue 1012 5, .reduce 9]

def noFees : MangoAccount where
  tokens := []
  perps := []
  perpOpenOrders := []
  buybackFeesExpiryTimestamp := 0
  buybackFeesAccruedCurrent := 0
  buybackFeesAccruedPrevious := 0
  perpOoCount_lt := by decide

theorem buybackFees_windowed_of_twoWindows :
    Guarded (exec 10) (Allowed 10) (start noFees) twoWindows ∧
    ∃ a, (run (exec 10) (start noFees) twoWindows).account.expireBuybackFees 1025 10 = .ok a ∧
      a.buybackFeesAccrued = 4 := by
  have hops : Guarded (exec 10) (Allowed 10) (start noFees) twoWindows :=
    ⟨⟨by decide, by decide⟩, trivial, ⟨by decide +kernel, by decide +kernel⟩, trivial, trivial⟩
  have hleft := (buybackFees_windowed (by decide) rfl (by decide) twoWindows hops).1 1025
    (by decide +kernel)
  exact ⟨hops, _, rfl, hleft.trans (by decide +kernel)⟩

end Buyback

end MangoV4
