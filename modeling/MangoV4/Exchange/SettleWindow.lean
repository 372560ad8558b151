/-
  MangoV4.Exchange.SettleWindow

  In which window the settle limit of a position is applied.

  The window of a position and the counter of what was settled in it are
  advanced only by `update_settle_limit`.  The machine runs the instructions
  that settle pnl on the positions of one market, and keeps for each account
  what its settlements have added to the counter, and when.  A limit is applied
  to a current position if the position is in the window of the instruction's
  time and its counter holds exactly what was settled in that window.

  `perp_settle_pnl` and `perp_liq_negative_pnl_or_bankruptcy` update the window
  first.  `perp_settle_fees` does not; as long as the position it settles is in
  the current window already, every limit is applied to a current position.
-/

import MangoV4.Exchange.SettleLimit
import MangoV4.Instructions.Settle

namespace MangoV4

open Lib Lib.Exec PerpPosition List Function PerpMarket

/-! ## The machine -/

/-- The instructions that apply settle limits. -/
inductive SettleInstruction where
  | perpSettlePnl (accountA accountB : Pubkey) (oraclePrice bMaxSettle : I80F48)
  | perpSettleFees (account : Pubkey) (oraclePrice : I80F48) (maxSettleAmount : Nat)
  | perpLiqNegativePnlOrBankruptcy (liqor liqee : Pubkey) (terms : PerpMarket.BankruptcyTerms)
      (maxLiabTransfer : Nat)

/-- An instruction with the market as it finds it and the time it runs at. -/
structure SettleCall where
  market : PerpMarket
  nowTs : Nat
  instruction : SettleInstruction

/-- What a settlement has added to the counter, and when. -/
structure Recorded where
  ts : Nat
  used : Int
deriving DecidableEq

structure Settlements where
  positions : Pubkey → PerpPosition
  /-- All settlements so far, the latest first. -/
  recorded : Pubkey → List Recorded
  /-- Time of the last instruction. -/
  clock : Nat

namespace Settlements

/-- Writes back a settled position; `limited` is the position before. -/
def record (s : Settlements) (nowTs : Nat) (pk : Pubkey) (limited p : PerpPosition) :
    Settlements where
  positions := Function.update s.positions pk p
  recorded := Function.update s.recorded pk
    (⟨nowTs, p.settlePnlLimitSettledInCurrentWindowNative -
      limited.settlePnlLimitSettledInCurrentWindowNative⟩ :: s.recorded pk)
  clock := nowTs

variable (product : I80F48 → I80F48 → Int)

/-- Returns the accounts whose limit was applied, with the position it was applied to. -/
def exec (call : SettleCall) (s : Settlements) :
    Exec (List (Pubkey × PerpPosition) × Settlements) :=
  match call.instruction with
  | .perpSettlePnl pkA pkB oraclePrice bMaxSettle => do
    require (decide (pkA ≠ pkB)) .cannotSettleWithSelf
    let ((aLimited, bLimited), a, b) ← call.market.settlePnl product (s.positions pkA)
      (s.positions pkB) oraclePrice bMaxSettle call.nowTs
    return ([(pkA, aLimited), (pkB, bLimited)],
      (s.record call.nowTs pkA aLimited a).record call.nowTs pkB bLimited b)
  | .perpSettleFees pk oraclePrice maxSettleAmount => do
    let (limited, _, p) ← call.market.settleFees product (s.positions pk) oraclePrice
      maxSettleAmount
    return ([(pk, limited)], s.record call.nowTs pk limited p)
  | .perpLiqNegativePnlOrBankruptcy liqorPk liqeePk terms maxLiabTransfer => do
    require (decide (liqorPk ≠ liqeePk)) .requireKeysNeqViolated
    let (limited, _, liqor, liqee) ← call.market.liqNegativePnlOrBankruptcy product
      (s.positions liqorPk) (s.positions liqeePk) terms maxLiabTransfer call.nowTs
    let s := s.record call.nowTs liqeePk limited liqee
    return ([(liqeePk, limited)], { s with positions := Function.update s.positions liqorPk liqor })

end Settlements

/-! ## What a counter holds -/

/-- What has been settled in a window. -/
def settledIn (windowSize window : Nat) (recorded : List Recorded) : Int :=
  ((recorded.filter fun r => decide (r.ts / windowSize = window)).map Recorded.used).sum

/-- The position is in the window of the time `ts`, and its counter holds what
    was settled in that window. -/
structure Current (windowSize ts : Nat) (recorded : List Recorded) (p : PerpPosition) : Prop where
  window : p.settlePnlLimitWindow = ts / windowSize
  used : p.settlePnlLimitSettledInCurrentWindowNative =
    settledIn windowSize (ts / windowSize) recorded

/-- The counter holds what was settled in the window of the position, and that
    window is the last in which anything was settled. -/
structure Counts (windowSize clock : Nat) (recorded : List Recorded) (p : PerpPosition) :
    Prop where
  used : p.settlePnlLimitSettledInCurrentWindowNative =
    settledIn windowSize p.settlePnlLimitWindow recorded
  past : ∀ r ∈ recorded, r.ts / windowSize ≤ p.settlePnlLimitWindow
  window : p.settlePnlLimitWindow ≤ clock / windowSize

theorem settledIn_cons (windowSize window : Nat) (r : Recorded) (recorded : List Recorded) :
    settledIn windowSize window (r :: recorded) =
      (if r.ts / windowSize = window then r.used else 0) +
        settledIn windowSize window recorded := by
  unfold settledIn
  by_cases h : r.ts / windowSize = window
  · rw [filter_cons_of_pos (by simpa using h), map_cons, sum_cons, if_pos h]
  · rw [filter_cons_of_neg (by simpa using h), if_neg h, zero_add]

theorem settledIn_of_lt {windowSize window : Nat} {recorded : List Recorded}
    (h : ∀ r ∈ recorded, r.ts / windowSize < window) : settledIn windowSize window recorded = 0 := by
  unfold settledIn
  rw [filter_eq_nil_iff.mpr, map_nil, sum_nil]
  intro r hr heq
  exact (h r hr).ne (of_decide_eq_true heq)

namespace PerpPosition

/-- The window and the counter are left alone. -/
def SameWindow (p p' : PerpPosition) : Prop :=
  p'.settlePnlLimitWindow = p.settlePnlLimitWindow ∧
    p'.settlePnlLimitSettledInCurrentWindowNative = p.settlePnlLimitSettledInCurrentWindowNative

variable {p p' p'' : PerpPosition} {market : PerpMarket} {nowTs : Nat}
  

theorem SameWindow.trans (h : p.SameWindow p') (h' : p'.SameWindow p'') : p.SameWindow p'' :=
  ⟨h'.1.trans h.1, h'.2.trans h.2⟩

theorem settleFunding_sameWindow (h : p.settleFunding market = .ok p') : p.SameWindow p' := by
  obtain ⟨_, -, h⟩ := of_bind h
  obtain ⟨_, -, h⟩ := of_bind h
  obtain ⟨_, -, h⟩ := of_bind h
  obtain rfl := ok_inj h
  exact ⟨rfl, rfl⟩

theorem recordLiquidationQuoteChange_sameWindow {change : I80F48}
    (h : p.recordLiquidationQuoteChange change = .ok p') : p.SameWindow p' := by
  obtain ⟨p₁, hquote, h⟩ := of_bind h
  obtain ⟨_, -, hquote⟩ := of_bind hquote
  obtain rfl := ok_inj hquote
  obtain ⟨_, -, h⟩ := of_bind h
  obtain rfl := ok_inj h
  exact ⟨rfl, rfl⟩

theorem recordSettle_window {s : I80F48} (h : p.recordSettle s market = .ok p') :
    p'.settlePnlLimitWindow = p.settlePnlLimitWindow := by
  obtain ⟨_, hsettled⟩ := recordSettle_settled h
  exact hsettled.window

/-- `update_settle_limit` resets the counter unless the time is in the window. -/
theorem updateSettleLimit_eq_ok (h : p.updateSettleLimit market nowTs = .ok p') :
    p'.settlePnlLimitWindow = nowTs / market.settlePnlLimitWindowSizeTs ∧
      p'.settlePnlLimitSettledInCurrentWindowNative =
        if p.settlePnlLimitWindow = nowTs / market.settlePnlLimitWindowSizeTs then
          p.settlePnlLimitSettledInCurrentWindowNative
        else 0 := by
  obtain ⟨_, -, h⟩ := of_bind h
  obtain ⟨-, h⟩ := of_checkU64 h
  obtain ⟨-, h⟩ := of_checkU64 h
  by_cases hnew : p.settlePnlLimitWindow * market.settlePnlLimitWindowSizeTs +
      market.settlePnlLimitWindowSizeTs ≤ nowTs ∨
        nowTs < p.settlePnlLimitWindow * market.settlePnlLimitWindowSizeTs
  · rw [if_pos hnew] at h
    split at h
    · cases h
    · rename_i hsize
      obtain ⟨window, hwindow, h⟩ := of_bind h
      obtain rfl := ok_inj h
      have hwindow : window = nowTs / market.settlePnlLimitWindowSizeTs := by
        have hsome := unwrap_eq_ok.mp hwindow
        split at hsome
        · exact (Option.some.inj hsome).symm
        · cases hsome
      refine ⟨hwindow, (if_neg fun heq => ?_).symm⟩
      have hwithin := (Nat.div_eq_iff (Nat.pos_of_ne_zero hsize)).mp heq.symm
      omega
  · rw [if_neg hnew] at h
    obtain rfl := ok_inj h
    have hwindow : nowTs / market.settlePnlLimitWindowSizeTs = p.settlePnlLimitWindow :=
      (Nat.div_eq_iff (by omega)).mpr (by omega)
    exact ⟨hwindow.symm, (if_pos hwindow.symm).symm⟩

end PerpPosition

section

variable {p p' : PerpPosition} {market : PerpMarket} {windowSize clock ts : Nat}
  {recorded : List Recorded}

theorem Counts.congr (h : Counts windowSize clock recorded p) (hsame : p.SameWindow p') :
    Counts windowSize clock recorded p' where
  used := by rw [hsame.1, hsame.2, h.used]
  past := by rw [hsame.1]; exact h.past
  window := by rw [hsame.1]; exact h.window

theorem Counts.later (h : Counts windowSize clock recorded p) (hts : clock ≤ ts) :
    Counts windowSize ts recorded p where
  used := h.used
  past := h.past
  window := h.window.trans (Nat.div_le_div_right hts)

/-- `update_settle_limit` makes a position current. -/
theorem Counts.updated (h : Counts windowSize clock recorded p) (hts : clock ≤ ts)
    (hsize : market.settlePnlLimitWindowSizeTs = windowSize)
    (hupdate : p.updateSettleLimit market ts = .ok p') : Current windowSize ts recorded p' := by
  obtain ⟨hwindow, hused⟩ := updateSettleLimit_eq_ok hupdate
  rw [hsize] at hwindow hused
  refine ⟨hwindow, ?_⟩
  rw [hused]
  by_cases heq : p.settlePnlLimitWindow = ts / windowSize
  · rw [if_pos heq, h.used, heq]
  · -- a new window, later than all settlements
    have hnew : p.settlePnlLimitWindow < ts / windowSize := lt_of_le_of_ne (h.later hts).window heq
    rw [if_neg heq, settledIn_of_lt fun r hr => (h.past r hr).trans_lt hnew]

/-- A position that is in the current window already is current. -/
theorem Counts.current (h : Counts windowSize clock recorded p)
    (hwindow : p.settlePnlLimitWindow = ts / windowSize) : Current windowSize ts recorded p :=
  ⟨hwindow, hwindow ▸ h.used⟩

/-- What a current position settles is recorded in its window. -/
theorem Current.counts (h : Current windowSize ts recorded p)
    (hpast : ∀ r ∈ recorded, r.ts / windowSize ≤ ts / windowSize)
    (hwindow : p'.settlePnlLimitWindow = p.settlePnlLimitWindow) :
    Counts windowSize ts
      (⟨ts, p'.settlePnlLimitSettledInCurrentWindowNative -
        p.settlePnlLimitSettledInCurrentWindowNative⟩ :: recorded) p' where
  used := by
    rw [hwindow, h.window, settledIn_cons, if_pos rfl, ← h.used]
    exact (sub_add_cancel _ _).symm
  past := by
    rw [hwindow, h.window]
    exact forall_mem_cons.mpr ⟨le_rfl, hpast⟩
  window := by rw [hwindow, h.window]

end

namespace PerpMarket

variable {product : I80F48 → I80F48 → Int} {market market' : PerpMarket} {nowTs : Nat}

/-! ## What the instructions do to the windows -/

theorem settlePnl_windows {a b aLimited bLimited a' b' : PerpPosition}
    {oraclePrice bMaxSettle : I80F48}
    (h : market.settlePnl product a b oraclePrice bMaxSettle nowTs =
      .ok ((aLimited, bLimited), a', b')) :
    (∃ a₁, a.SameWindow a₁ ∧ a₁.updateSettleLimit market nowTs = .ok aLimited) ∧
    (∃ b₁, b.SameWindow b₁ ∧ b₁.updateSettleLimit market nowTs = .ok bLimited) ∧
    a'.settlePnlLimitWindow = aLimited.settlePnlLimitWindow ∧
    b'.settlePnlLimitWindow = bLimited.settlePnlLimitWindow := by
  obtain ⟨a₁, ha₁, h⟩ := of_bind h
  obtain ⟨b₁, hb₁, h⟩ := of_bind h
  obtain ⟨_, -, h⟩ := of_bind h
  obtain ⟨_, -, h⟩ := of_bind h
  obtain ⟨_, -, h⟩ := of_bind h
  obtain ⟨_, -, h⟩ := of_bind h
  obtain ⟨a₂, ha₂, h⟩ := of_bind h
  obtain ⟨_, -, h⟩ := of_bind h
  obtain ⟨b₂, hb₂, h⟩ := of_bind h
  obtain ⟨_, -, h⟩ := of_bind h
  obtain ⟨_, -, h⟩ := of_bind h
  obtain ⟨_, -, h⟩ := of_bind h
  obtain ⟨_, -, h⟩ := of_bind h
  obtain ⟨_, -, h⟩ := of_bind h
  obtain ⟨_, -, h⟩ := of_bind h
  obtain ⟨a₃, ha₃, h⟩ := of_bind h
  obtain ⟨_, -, h⟩ := of_bind h
  obtain ⟨b₃, hb₃, h⟩ := of_bind h
  obtain ⟨hlimited, hsettled⟩ := ok_inj₂ h
  obtain ⟨rfl, rfl⟩ := Prod.mk.inj hlimited
  obtain ⟨rfl, rfl⟩ := Prod.mk.inj hsettled
  exact ⟨⟨a₁, settleFunding_sameWindow ha₁, ha₂⟩,
    ⟨b₁, settleFunding_sameWindow hb₁, hb₂⟩,
    recordSettle_window ha₃, recordSettle_window hb₃⟩

/-- `perp_settle_fees` applies the limit in the window that it finds. -/
theorem settleFees_windows {p limited p' : PerpPosition} {oraclePrice : I80F48}
    {maxSettleAmount : Nat}
    (h : market.settleFees product p oraclePrice maxSettleAmount = .ok (limited, market', p')) :
    p.SameWindow limited ∧ p'.settlePnlLimitWindow = limited.settlePnlLimitWindow := by
  obtain ⟨_, -, h⟩ := of_bind h
  obtain ⟨p₁, hp₁, h⟩ := of_bind h
  obtain ⟨_, -, h⟩ := of_bind h
  obtain ⟨_, -, h⟩ := of_bind h
  have hfunding := settleFunding_sameWindow hp₁
  split at h
  · obtain ⟨rfl, -, rfl⟩ := ok_inj₃ h
    exact ⟨hfunding, rfl⟩
  · obtain ⟨_, -, h⟩ := of_bind h
    obtain ⟨_, -, h⟩ := of_bind h
    obtain ⟨_, -, h⟩ := of_bind h
    obtain ⟨_, -, h⟩ := of_bind h
    obtain ⟨_, -, h⟩ := of_bind h
    obtain ⟨p₂, hp₂, h⟩ := of_bind h
    obtain ⟨_, -, h⟩ := of_bind h
    obtain ⟨rfl, -, rfl⟩ := ok_inj₃ h
    exact ⟨hfunding, recordSettle_window hp₂⟩

variable {liqor liqee : PerpPosition} {terms : BankruptcyTerms}

theorem takeOverNegativePnl_windows {maxLiabTransfer : Nat} {taken : TakenOver}
    (h : market.takeOverNegativePnl product liqor liqee terms maxLiabTransfer nowTs = .ok taken) :
    (∃ liqee₁, liqee.SameWindow liqee₁ ∧
      liqee₁.updateSettleLimit market nowTs = .ok taken.limited) ∧
    taken.liqee.settlePnlLimitWindow = taken.limited.settlePnlLimitWindow ∧
    liqor.SameWindow taken.liqor := by
  obtain ⟨liqee₁, hliqee, h⟩ := of_bind h
  obtain ⟨liqor₁, hliqor, h⟩ := of_bind h
  obtain ⟨_, -, h⟩ := of_bind h
  obtain ⟨_, -, h⟩ := of_bind h
  obtain ⟨limited, hlimited, h⟩ := of_bind h
  obtain ⟨_, -, h⟩ := of_bind h
  obtain ⟨_, -, h⟩ := of_bind h
  obtain ⟨_, -, h⟩ := of_bind h
  have hliqee := settleFunding_sameWindow hliqee
  have hliqor := settleFunding_sameWindow hliqor
  dsimp only at h
  split at h
  · obtain ⟨_, -, h⟩ := of_bind h
    obtain ⟨liqor₂, hquote, h⟩ := of_bind h
    obtain ⟨_, -, h⟩ := of_bind h
    obtain ⟨liqee₂, hsettle, h⟩ := of_bind h
    obtain ⟨_, -, h⟩ := of_bind h
    obtain rfl := ok_inj h
    exact ⟨⟨liqee₁, hliqee, hlimited⟩, recordSettle_window hsettle,
      hliqor.trans (recordLiquidationQuoteChange_sameWindow hquote)⟩
  · obtain rfl := ok_inj h
    exact ⟨⟨liqee₁, hliqee, hlimited⟩, rfl, hliqor⟩

theorem bankruptcy_windows {liqor' liqee' : PerpPosition} {maxLiabTransfer : I80F48}
    (h : market.bankruptcy liqor liqee terms maxLiabTransfer = .ok (market', liqor', liqee')) :
    liqee'.settlePnlLimitWindow = liqee.settlePnlLimitWindow ∧ liqor.SameWindow liqor' := by
  obtain ⟨_, -, h⟩ := of_bind h
  obtain ⟨_, -, h⟩ := of_bind h
  obtain ⟨_, -, h⟩ := of_bind h
  obtain ⟨_, -, h⟩ := of_bind h
  obtain ⟨_, -, h⟩ := of_bind h
  obtain ⟨_, -, h⟩ := of_bind h
  obtain ⟨_, -, h⟩ := of_bind h
  obtain ⟨_, -, h⟩ := of_bind h
  obtain ⟨_, -, h⟩ := of_bind h
  obtain ⟨_, -, h⟩ := of_bind h
  obtain ⟨_, -, h⟩ := of_bind h
  obtain ⟨⟨liqor₁, liqee₁⟩, hinsured, h⟩ := of_bind h
  obtain ⟨_, -, h⟩ := of_bind h
  have hfirst : liqee₁.settlePnlLimitWindow = liqee.settlePnlLimitWindow ∧
      liqor.SameWindow liqor₁ := by
    split at hinsured
    · obtain ⟨_, -, hinsured⟩ := of_bind hinsured
      obtain ⟨_, hsettle, hinsured⟩ := of_bind hinsured
      obtain ⟨_, -, hinsured⟩ := of_bind hinsured
      obtain ⟨_, hquote, hinsured⟩ := of_bind hinsured
      obtain ⟨rfl, rfl⟩ := ok_inj₂ hinsured
      exact ⟨recordSettle_window hsettle, recordLiquidationQuoteChange_sameWindow hquote⟩
    · obtain ⟨rfl, rfl⟩ := ok_inj₂ hinsured
      exact ⟨rfl, rfl, rfl⟩
  split at h
  · obtain ⟨_, -, h⟩ := of_bind h
    obtain ⟨_, -, h⟩ := of_bind h
    obtain ⟨_, -, h⟩ := of_bind h
    obtain ⟨_, hsettle, h⟩ := of_bind h
    obtain ⟨-, rfl, rfl⟩ := ok_inj₃ h
    exact ⟨(recordSettle_window hsettle).trans hfirst.1, hfirst.2⟩
  · obtain ⟨-, rfl, rfl⟩ := ok_inj₃ h
    exact hfirst

theorem liqNegativePnlOrBankruptcy_windows {limited liqor' liqee' : PerpPosition} {maxLiabTransfer : Nat}
    (h : market.liqNegativePnlOrBankruptcy product liqor liqee terms maxLiabTransfer nowTs =
      .ok (limited, market', liqor', liqee')) :
    (∃ liqee₁, liqee.SameWindow liqee₁ ∧ liqee₁.updateSettleLimit market nowTs = .ok limited) ∧
    liqee'.settlePnlLimitWindow = limited.settlePnlLimitWindow ∧ liqor.SameWindow liqor' := by
  obtain ⟨taken, htaken, h⟩ := of_bind h
  obtain ⟨hupdate, hwindow, hliqor⟩ := takeOverNegativePnl_windows htaken
  obtain ⟨_, -, h⟩ := of_bind h
  obtain ⟨_, -, h⟩ := of_bind h
  split at h
  · obtain ⟨⟨market₁, liqor₁, liqee₁⟩, hbankrupt, h⟩ := of_bind h
    obtain ⟨hwindow', hliqor'⟩ := bankruptcy_windows hbankrupt
    obtain ⟨rfl, -, rfl, rfl⟩ := ok_inj₄ h
    exact ⟨hupdate, hwindow'.trans hwindow, hliqor.trans hliqor'⟩
  · obtain ⟨rfl, -, rfl, rfl⟩ := ok_inj₄ h
    exact ⟨hupdate, hwindow, hliqor⟩

end PerpMarket

namespace Settlements

variable {product : I80F48 → I80F48 → Int} {s s' : Settlements} {windowSize ts : Nat} {pk : Pubkey}
  {limited p : PerpPosition} {call : SettleCall} {applied : List (Pubkey × PerpPosition)}

/-! ## Runs -/

/-- Every counter holds what was settled in the window of its position. -/
def Counted (windowSize : Nat) (s : Settlements) : Prop :=
  ∀ pk, Counts windowSize s.clock (s.recorded pk) (s.positions pk)

/-- Time does not run backwards, and the window size is fixed. -/
def InOrder (windowSize : Nat) (call : SettleCall) (s : Settlements) : Prop :=
  s.clock ≤ call.nowTs ∧ call.market.settlePnlLimitWindowSizeTs = windowSize

/-- And `perp_settle_fees` finds the position in the window of its time. -/
def FeesInWindow (windowSize : Nat) (call : SettleCall) (s : Settlements) : Prop :=
  InOrder windowSize call s ∧ ∀ pk oraclePrice maxSettleAmount,
    call.instruction = .perpSettleFees pk oraclePrice maxSettleAmount →
    (s.positions pk).settlePnlLimitWindow = call.nowTs / windowSize

/-- Limits are applied to current positions only. -/
def LimitsCurrent (product : I80F48 → I80F48 → Int) (windowSize : Nat) (call : SettleCall)
    (s : Settlements) : Prop :=
  ∀ applied s', exec product call s = .ok (applied, s') → ∀ pk p, (pk, p) ∈ applied →
    Current windowSize call.nowTs (s.recorded pk) p

theorem Counted.record (hs : Counted windowSize s) (hts : s.clock ≤ ts)
    (hcurrent : Current windowSize ts (s.recorded pk) limited)
    (hwindow : p.settlePnlLimitWindow = limited.settlePnlLimitWindow) :
    Counted windowSize (s.record ts pk limited p) := by
  intro pk'
  show Counts windowSize ts (update s.recorded pk _ pk')
    (update s.positions pk p pk')
  by_cases heq : pk' = pk
  · subst heq
    rw [update_self, update_self]
    have hlater := (hs pk').later hts
    exact hcurrent.counts (fun r hr => (hlater.past r hr).trans hlater.window) hwindow
  · rw [update_of_ne heq, update_of_ne heq]
    exact (hs pk').later hts

theorem recorded_record_of_ne {pk' : Pubkey} (hne : pk' ≠ pk) :
    (s.record ts pk limited p).recorded pk' = s.recorded pk' :=
  update_of_ne hne ..

theorem exec_counted (hs : Counted windowSize s) (hcall : FeesInWindow windowSize call s)
    (h : exec product call s = .ok (applied, s')) :
    Counted windowSize s' ∧
      ∀ pk p, (pk, p) ∈ applied → Current windowSize call.nowTs (s.recorded pk) p := by
  obtain ⟨⟨hclock, hsize⟩, hfees⟩ := hcall
  unfold exec at h
  cases hinstruction : call.instruction with
  | perpSettlePnl pkA pkB oraclePrice bMaxSettle =>
    rw [hinstruction] at h
    obtain ⟨_, hne, h⟩ := of_bind h
    have hne : pkA ≠ pkB := of_require hne
    obtain ⟨⟨⟨aLimited, bLimited⟩, a, b⟩, hsettle, h⟩ := of_bind h
    obtain ⟨rfl, rfl⟩ := ok_inj₂ h
    obtain ⟨⟨a₁, hsameA, hupdateA⟩, ⟨b₁, hsameB, hupdateB⟩, hwindowA, hwindowB⟩ :=
      settlePnl_windows hsettle
    have hcurrentA := ((hs pkA).congr hsameA).updated hclock hsize hupdateA
    have hcurrentB := ((hs pkB).congr hsameB).updated hclock hsize hupdateB
    refine ⟨?_, ?_⟩
    · refine (hs.record hclock hcurrentA hwindowA).record le_rfl ?_ hwindowB
      rw [recorded_record_of_ne hne.symm]
      exact hcurrentB
    · intro pk p hmem
      rcases mem_cons.mp hmem with heq | hmem
      · obtain ⟨rfl, rfl⟩ := Prod.mk.inj heq
        exact hcurrentA
      · obtain ⟨rfl, rfl⟩ := Prod.mk.inj (mem_singleton.mp hmem)
        exact hcurrentB
  | perpSettleFees pk oraclePrice maxSettleAmount =>
    rw [hinstruction] at h
    obtain ⟨⟨limited, market', p⟩, hsettle, h⟩ := of_bind h
    obtain ⟨rfl, rfl⟩ := ok_inj₂ h
    obtain ⟨hsame, hwindow⟩ := settleFees_windows hsettle
    -- the window is not updated here, so this is where the condition is needed
    have hin := hfees pk oraclePrice maxSettleAmount hinstruction
    have hcurrent := ((hs pk).congr hsame).current (hsame.1.trans hin)
    refine ⟨hs.record hclock hcurrent hwindow, ?_⟩
    intro pk' p' hmem
    obtain ⟨rfl, rfl⟩ := Prod.mk.inj (mem_singleton.mp hmem)
    exact hcurrent
  | perpLiqNegativePnlOrBankruptcy liqorPk liqeePk terms maxLiabTransfer =>
    rw [hinstruction] at h
    obtain ⟨_, hne, h⟩ := of_bind h
    have hne : liqorPk ≠ liqeePk := of_require hne
    obtain ⟨⟨limited, market', liqor, liqee⟩, hliq, h⟩ := of_bind h
    obtain ⟨rfl, rfl⟩ := ok_inj₂ h
    obtain ⟨⟨liqee₁, hsame, hupdate⟩, hwindow, hliqor⟩ :=
      liqNegativePnlOrBankruptcy_windows hliq
    have hcurrent := ((hs liqeePk).congr hsame).updated hclock hsize hupdate
    have hrecorded := hs.record hclock hcurrent hwindow
    refine ⟨fun pk => ?_, ?_⟩
    · show Counts windowSize call.nowTs (update s.recorded liqeePk _ pk)
        (update (update s.positions liqeePk liqee) liqorPk liqor pk)
      by_cases heq : pk = liqorPk
      · subst heq
        rw [update_self, update_of_ne hne]
        exact ((hs pk).later hclock).congr hliqor
      · rw [update_of_ne heq]
        exact hrecorded pk
    · intro pk p hmem
      obtain ⟨rfl, rfl⟩ := Prod.mk.inj (mem_singleton.mp hmem)
      exact hcurrent

/-- In every run in which `perp_settle_fees` only runs on positions that are in
    the window of its time, every limit is applied to a current position. -/
theorem limits_current (product : I80F48 → I80F48 → Int) (windowSize : Nat) {s : Settlements}
    (hs : Counted windowSize s) (calls : List SettleCall)
    (hcalls : Guarded (exec product) (FeesInWindow windowSize) s calls) :
    Guarded (exec product) (LimitsCurrent product windowSize) s calls :=
  hcalls.of_invariant (fun _ _ _ _ hs hcall h => (exec_counted hs hcall h).1)
    (fun _ _ hs hcall _ _ h => (exec_counted hs hcall h).2) hs

/-! ## A settlement that is forgotten -/

/-- Account 0 has gained 800 at a price of 1 and account 1 has lost as much;
    nothing has been settled yet. -/
def gainAndLoss : Settlements where
  positions pk := PerpPosition.allowed (if pk = 0 then 0 else 1600) 0 0
  recorded _ := []
  clock := 0

theorem gainAndLoss_counted : Counted 100 gainAndLoss := fun _ =>
  { used := rfl, past := fun _ hr => (not_mem_nil hr).elim, window := Nat.zero_le _ }

/-- Settles 30 between the accounts. -/
def settle30 (nowTs : Nat) : SettleCall where
  market := .eighth
  nowTs := nowTs
  instruction := .perpSettlePnl 0 1 .ONE (.ofSmall 30)

/-- Settles fees of 50 with account 1. -/
def fees50 (nowTs : Nat) : SettleCall where
  market := { PerpMarket.eighth with feesAccrued := .ofSmall 50 }
  nowTs := nowTs
  instruction := .perpSettleFees 1 .ONE 1000

/-- Fees are settled after the window of the position was updated: the run
    settles 30 and then 50, and both are in the counter. -/
theorem limits_current_of_updated :
    Guarded (exec PerpPosition.exactProduct) (FeesInWindow 100) gainAndLoss
      [settle30 150, fees50 160] ∧
    Guarded (exec PerpPosition.exactProduct) (LimitsCurrent PerpPosition.exactProduct 100)
      gainAndLoss [settle30 150, fees50 160] ∧
    ((run (exec PerpPosition.exactProduct) gainAndLoss
      [settle30 150, fees50 160]).positions 1).settlePnlLimitSettledInCurrentWindowNative =
        -80 := by
  have hfirst : FeesInWindow 100 (settle30 150) gainAndLoss :=
    ⟨⟨by decide, rfl⟩, fun _ _ _ h => nomatch h⟩
  have hsecond : FeesInWindow 100 (fees50 160)
      (stepState (exec exactProduct) (settle30 150) gainAndLoss) := by
    refine ⟨⟨by decide +kernel, rfl⟩, fun pk _ _ h => ?_⟩
    obtain ⟨rfl, -, -⟩ := SettleInstruction.perpSettleFees.inj h
    decide +kernel
  have hcalls : Guarded (exec exactProduct) (FeesInWindow 100) gainAndLoss
      [settle30 150, fees50 160] := ⟨hfirst, hsecond, trivial⟩
  exact ⟨hcalls, limits_current _ 100 gainAndLoss_counted _ hcalls, by decide +kernel⟩

/-- Fees of 50 are settled first, in the window that the position was left in.
    The next instruction of the same window resets the counter and applies the
    whole limit again. -/
theorem fees_forgotten :
    ¬ ∀ (product : I80F48 → I80F48 → Int) (windowSize : Nat) (s : Settlements)
      (calls : List SettleCall), windowSize ≠ 0 → PerpPosition.Nonneg product →
      Counted windowSize s → Guarded (exec product) (InOrder windowSize) s calls →
      Guarded (exec product) (LimitsCurrent product windowSize) s calls := by
  intro h
  have horder : Guarded (exec exactProduct) (InOrder 100) gainAndLoss
      [fees50 150, settle30 160] :=
    ⟨⟨by decide, rfl⟩, ⟨by decide +kernel, rfl⟩, trivial⟩
  have hlimits := h _ 100 gainAndLoss _ (by decide) exactProduct_nonneg
    gainAndLoss_counted horder
  obtain ⟨⟨applied, s'⟩, hexec, happlied⟩ := exists_of_any
    (x := exec exactProduct (settle30 160)
      (stepState (exec exactProduct) (fees50 150) gainAndLoss))
    (p := fun r => r.1.any fun x => decide (x.1 = 1 ∧
      x.2.settlePnlLimitSettledInCurrentWindowNative = 0)) (by decide +kernel)
  obtain ⟨⟨pk, limited⟩, hmem, hlimited⟩ := any_eq_true.mp happlied
  obtain ⟨rfl, hused⟩ := of_decide_eq_true hlimited
  have hcurrent := hlimits.2.1 applied s' hexec 1 limited hmem
  have hsettled : settledIn 100 (160 / 100)
      ((stepState (exec exactProduct) (fees50 150) gainAndLoss).recorded 1) =
        -50 := by decide +kernel
  exact absurd (hused.symm.trans (hcurrent.used.trans hsettled)) (by decide)

end Settlements

end MangoV4
