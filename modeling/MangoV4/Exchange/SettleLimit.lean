/-
  MangoV4.Exchange.SettleLimit

  How much pnl can be settled within one window (`mango_account_components.rs`).

  A settlement is paid for by three budgets: the part of the limit that comes
  from the stable value of the base position, the recurring allowance and the
  oneshot allowance.  What they and the counter of the window leave together,
  with the recurring allowance as it is stored, is `budgetUp` for gains and
  `budgetDown` for losses.  Settling takes at most that budget, and takes what
  it settles out of it up to one native unit, from any state of the position.

  The limit itself is smaller: it counts the recurring allowance only up to the
  pnl at the stable price.  `record_settle` takes the cut of the stored
  allowance out of the counter all the same, also the part of it that was no
  budget before; so the limit bounds what is settled only when the allowance is
  within the stable pnl to begin with.
-/

import MangoV4.Orderbook.Book
import MangoV4.Lib.Budget

namespace MangoV4

open Lib Lib.Exec List

/-! ## Rounding -/

/-- Whole native units that cover the positive part of a raw amount. -/
def cover (x : Int) : Int := max (-(-x / 2 ^ 48)) 0

theorem cover_nonneg (x : Int) : 0 ≤ cover x := le_max_right ..

theorem cover_of_nonpos {x : Int} (hx : x ≤ 0) : cover x = 0 := by
  unfold cover
  omega

theorem cover_of_nonneg {x : Int} (hx : 0 ≤ x) : cover x = -(-x / 2 ^ 48) := by
  unfold cover
  omega

/-- The part of a settlement that the oneshot allowance pays for. -/
def oneshotReduction (settled oneshot : Int) : Int :=
  if 0 < settled then max (min settled oneshot) 0 else min (max settled oneshot) 0

theorem oneshotReduction_neg (settled oneshot : Int) :
    oneshotReduction (-settled) (-oneshot) = -oneshotReduction settled oneshot := by
  unfold oneshotReduction
  split <;> split <;> omega

/-- What the oneshot allowance loses and the rounded rest cover the settlement
    up to one native unit. -/
theorem settled_lt_covered {settled oneshot : Int} (hsettled : 0 < settled) :
    settled + cover (oneshot - oneshotReduction settled oneshot) * 2 ^ 48 <
      (cover oneshot + (settled - oneshotReduction settled oneshot).tdiv (2 ^ 48)) * 2 ^ 48 +
        2 ^ 48 := by
  unfold oneshotReduction cover
  rw [if_pos hsettled, Int.tdiv_eq_ediv_of_nonneg (by omega)]
  -- only one of the two is rounded: either the allowance is used up, or it pays for all
  omega

/-- The counter's share of a settlement when the recurring allowance changes. -/
def compensated (used change : Int) : Int :=
  if change < 0 then if 0 < used then max (used + change) 0 else min (used - change) 0 else used

theorem le_compensated {used change : Int} (hused : 0 ≤ used) (hchange : change ≤ 0) :
    used ≤ compensated used change - change := by
  unfold compensated
  split
  · split <;> omega
  · omega

theorem compensated_le {used change : Int} (hused : used ≤ 0) (hchange : change ≤ 0) :
    compensated used change + change ≤ used := by
  unfold compensated
  split
  · split <;> omega
  · omega

namespace PerpPosition

variable {product : I80F48 → I80F48 → Int} {p p' : PerpPosition} {market : PerpMarket}
  {s pnl allowed upnl : I80F48} {minPnl maxPnl unrealized : Int}

/-! ## Specifications -/

/-- The part of the limit that comes from the base position. -/
def unrealizedLimit (product : I80F48 → I80F48 → Int) (p : PerpPosition) (market : PerpMarket) :
    Exec Int := do
  let value ← p.stableValue market
  return product market.settlePnlLimitFactor (← value.abs)

theorem unrealizedLimit_congr (hbase : p'.basePositionLots = p.basePositionLots) :
    p'.unrealizedLimit product market = p.unrealizedLimit product market := by
  unfold unrealizedLimit stableValue basePositionNative
  rw [hbase]

/-- What the allowances and the window of a position are after a step that only
    lowers the recurring allowance by `-change`. -/
structure Constrained (p p' : PerpPosition) (change : Int) : Prop where
  nonpos : change ≤ 0
  recurring : p'.recurringSettlePnlAllowance = |p.recurringSettlePnlAllowance| + change
  nonneg : 0 ≤ p'.recurringSettlePnlAllowance
  oneshot : p'.oneshotSettlePnlAllowance = p.oneshotSettlePnlAllowance
  used : p'.settlePnlLimitSettledInCurrentWindowNative =
    p.settlePnlLimitSettledInCurrentWindowNative
  window : p'.settlePnlLimitWindow = p.settlePnlLimitWindow

theorem applyConstraint_constrained {change : Int}
    (h : p.applyRecurringSettlePnlAllowanceConstraint market = .ok (change, p')) :
    p.Constrained p' change := by
  obtain ⟨before, hbefore, h⟩ := of_bind h
  obtain ⟨_, -, h⟩ := of_bind h
  obtain ⟨_, -, h⟩ := of_bind h
  obtain ⟨upnlAbs, -, h⟩ := of_bind h
  obtain ⟨c, hc, h⟩ := of_bind h
  obtain ⟨rfl, rfl⟩ := ok_inj₂ h
  obtain ⟨-, rfl⟩ := checkI64_eq_ok.mp hc
  obtain ⟨-, rfl⟩ := checkI64_eq_ok.mp hbefore
  have habs := abs_nonneg p.recurringSettlePnlAllowance
  exact {
    nonpos := by omega
    recurring := by show max _ _ = _; omega
    nonneg := le_max_right ..
    oneshot := rfl
    used := rfl
    window := rfl }

/-- What `record_settle` changes: `change` is the change of the recurring allowance. -/
structure Settles (p p' : PerpPosition) (s change : Int) : Prop where
  nonpos : change ≤ 0
  recurring : p'.recurringSettlePnlAllowance = |p.recurringSettlePnlAllowance| + change
  nonneg : 0 ≤ p'.recurringSettlePnlAllowance
  oneshot : p'.oneshotSettlePnlAllowance.raw = p.oneshotSettlePnlAllowance.raw -
    oneshotReduction s p.oneshotSettlePnlAllowance.raw
  used : p'.settlePnlLimitSettledInCurrentWindowNative =
    p.settlePnlLimitSettledInCurrentWindowNative +
      compensated (max I64_MIN (min I64_MAX
        ((s - oneshotReduction s p.oneshotSettlePnlAllowance.raw).tdiv (2 ^ 48)))) change
  window : p'.settlePnlLimitWindow = p.settlePnlLimitWindow

theorem raw_oneshotReduction (s oneshot : I80F48) :
    (if .zero < s then (s.min oneshot).max .zero else (s.max oneshot).min .zero : I80F48).raw =
      oneshotReduction s.raw oneshot.raw := by
  unfold oneshotReduction
  by_cases hs : 0 < s.raw
  · rw [if_pos hs, if_pos (Fixed.lt_iff.mpr hs), Fixed.raw_max, Fixed.raw_min, Fixed.raw_zero]
  · rw [if_neg hs, if_neg fun h => hs (Fixed.lt_iff.mp h), Fixed.raw_min, Fixed.raw_max,
      Fixed.raw_zero]

theorem used_eq_compensated {used change used' : Int}
    (h : (if change < 0 then
        if 0 < used then do return max (← checkI64 (used + change)) 0
        else do return min (← checkI64 (used - change)) 0
      else .ok used : Exec Int) = .ok used') : used' = compensated used change := by
  unfold compensated
  by_cases hchange : change < 0
  · rw [if_pos hchange] at h ⊢
    by_cases hused : 0 < used
    · rw [if_pos hused] at h ⊢
      obtain ⟨-, h⟩ := of_checkI64 h
      exact (ok_inj h).symm
    · rw [if_neg hused] at h ⊢
      obtain ⟨-, h⟩ := of_checkI64 h
      exact (ok_inj h).symm
  · rw [if_neg hchange] at h ⊢
    exact (ok_inj h).symm

theorem recordSettle_settled (h : p.recordSettle s market = .ok p') :
    ∃ change, p.Settles p' s.raw change := by
  obtain ⟨_, -, h⟩ := of_bind h
  obtain ⟨p₁, hquote, h⟩ := of_bind h
  obtain ⟨quote, -, hquote⟩ := of_bind hquote
  obtain rfl := ok_inj hquote
  obtain ⟨oneshot, honeshot, h⟩ := of_bind h
  obtain ⟨rest, hrest, h⟩ := of_bind h
  obtain ⟨⟨change, p₂⟩, hconstraint, h⟩ := of_bind h
  obtain ⟨used, hused, h⟩ := of_bind h
  obtain ⟨total, htotal, h⟩ := of_bind h
  obtain rfl := ok_inj h
  obtain ⟨-, rfl⟩ := checkI64_eq_ok.mp htotal
  have hcut := applyConstraint_constrained hconstraint
  have hrest' := Fixed.sub_eq_ok.mp hrest
  rw [raw_oneshotReduction] at hrest'
  refine ⟨change, hcut.nonpos, hcut.recurring, hcut.nonneg, ?_, ?_, hcut.window⟩
  · show p₂.oneshotSettlePnlAllowance.raw = _
    rw [hcut.oneshot, Fixed.sub_eq_ok.mp honeshot, raw_oneshotReduction]
  · show p₂.settlePnlLimitSettledInCurrentWindowNative + used = _
    rw [hcut.used, used_eq_compensated hused, Fixed.truncInt, hrest']

theorem clampToI64_ceil {x c : I80F48} (hx : .zero ≤ x) (hc : x.ceil = (.ok c : Exec I80F48)) :
    clampToI64 c = min I64_MAX (cover x.raw) := by
  have hraw : c.raw = x.ceilInt * 2 ^ 48 := Fixed.ofRaw_eq_ok.mp hc
  have hcover := cover_of_nonneg (Fixed.le_iff.mp hx)
  have hnonneg := cover_nonneg x.raw
  unfold clampToI64 Fixed.toInt
  rw [hraw, Int.mul_ediv_cancel _ (by decide), Fixed.ceilInt, ← hcover]
  unfold I64_MAX I64_MIN
  omega

theorem clampToI64_floor {x c : I80F48} (hx : x < .zero) (hc : x.floor = (.ok c : Exec I80F48)) :
    clampToI64 c = max I64_MIN (-cover (-x.raw)) := by
  have hraw : c.raw = x.toInt * 2 ^ 48 := Fixed.ofRaw_eq_ok.mp hc
  have hneg : x.raw < 0 := Fixed.lt_iff.mp hx
  unfold clampToI64 Fixed.toInt
  rw [hraw, Int.mul_ediv_cancel _ (by decide), Fixed.toInt]
  unfold I64_MAX I64_MIN cover
  omega

/-- The limit that is the same in both directions. -/
theorem settleLimit_eq_ok (hfactor : .zero ≤ market.settlePnlLimitFactor)
    (h : p.settleLimit product market = .ok (minPnl, maxPnl)) :
    ∃ unrealized upnl limit, p.unrealizedLimit product market = .ok unrealized ∧
      p.unsettledPnl market market.stablePrice = .ok upnl ∧
      limit = unrealized + min |p.recurringSettlePnlAllowance| (cover |upnl.raw|) ∧
      minPnl = min (saturatingAddI64 (-limit)
        (max I64_MIN (-cover (-p.oneshotSettlePnlAllowance.raw)))) 0 ∧
      maxPnl = max (saturatingAddI64 limit
        (min I64_MAX (cover p.oneshotSettlePnlAllowance.raw))) 0 := by
  obtain ⟨_, hmarket, h⟩ := of_bind h
  rw [if_neg (Fixed.not_lt.mpr hfactor)] at h
  obtain ⟨value, hvalue, h⟩ := of_bind h
  obtain ⟨valueAbs, habs, h⟩ := of_bind h
  obtain ⟨upnl, hupnl, h⟩ := of_bind h
  obtain ⟨upnlAbs, hupnlAbs, h⟩ := of_bind h
  obtain ⟨-, h⟩ := of_checkI64 h
  obtain ⟨-, h⟩ := of_checkI64 h
  obtain ⟨limit, hlimit, h⟩ := of_bind h
  obtain ⟨hrange, hlimit⟩ := checkI64_eq_ok.mp hlimit
  obtain ⟨hrange', h⟩ := of_checkI64 h
  obtain ⟨base, hbase, hvalue⟩ := of_bind hvalue
  refine ⟨_, upnl, limit, bind_eq_ok.mpr ⟨value, bind_eq_ok.mpr ⟨base, hbase, hvalue⟩,
    bind_eq_ok.mpr ⟨valueAbs, habs, rfl⟩⟩, ?_, ?_, ?_⟩
  · refine bind_eq_ok.mpr ⟨(), require_eq_ok.mpr (assert_eq_ok.mp hmarket),
      bind_eq_ok.mpr ⟨base, hbase, bind_eq_ok.mpr ⟨value, ?_, hupnl⟩⟩⟩
    rw [Fixed.mul_eq_ok, Fixed.mul_eq_ok.mp hvalue, mul_comm]
  · have hraw : upnlAbs.raw = |upnl.raw| := by
      rw [Fixed.ofRaw_eq_ok.mp hupnlAbs, Int.natCast_natAbs]
    rw [hlimit, Fixed.ceilInt, hraw, cover_of_nonneg (abs_nonneg _)]
  · by_cases honeshot : .zero ≤ p.oneshotSettlePnlAllowance
    · have hnonneg := Fixed.le_iff.mp honeshot
      rw [if_pos honeshot] at h
      obtain ⟨c, hc, h⟩ := of_bind h
      obtain ⟨rfl, rfl⟩ := ok_inj₂ h
      rw [clampToI64_ceil honeshot hc, cover_of_nonpos (by simpa using hnonneg)]
      refine ⟨?_, rfl⟩
      unfold saturatingAddI64 I64_MIN I64_MAX
      omega
    · have hneg := Fixed.not_le.mp honeshot
      rw [if_neg honeshot] at h
      obtain ⟨c, hc, h⟩ := of_bind h
      obtain ⟨rfl, rfl⟩ := ok_inj₂ h
      rw [clampToI64_floor hneg hc, cover_of_nonpos (Fixed.lt_iff.mp hneg).le]
      refine ⟨rfl, ?_⟩
      unfold saturatingAddI64 I64_MIN I64_MAX
      omega

/-- What the limit allows lies in the range that is still available. -/
theorem applyPnlSettleLimit_eq_ok (hfactor : .zero ≤ market.settlePnlLimitFactor)
    (h : p.applyPnlSettleLimit product market pnl = .ok allowed) :
    ∃ minPnl maxPnl, p.settleLimit product market = .ok (minPnl, maxPnl) ∧
      min (saturatingSubI64 minPnl p.settlePnlLimitSettledInCurrentWindowNative) 0 * 2 ^ 48 ≤
        allowed.raw ∧
      allowed.raw ≤
        max (saturatingSubI64 maxPnl p.settlePnlLimitSettledInCurrentWindowNative) 0 * 2 ^ 48 := by
  unfold applyPnlSettleLimit at h
  rw [if_neg (Fixed.not_lt.mpr hfactor)] at h
  obtain ⟨⟨lo, hi⟩, havailable, h⟩ := of_bind h
  obtain ⟨_, -, havailable⟩ := of_bind havailable
  rw [if_neg (Fixed.not_lt.mpr hfactor)] at havailable
  obtain ⟨⟨minPnl, maxPnl⟩, hlimit, havailable⟩ := of_bind havailable
  obtain ⟨rfl, rfl⟩ := ok_inj₂ havailable
  refine ⟨minPnl, maxPnl, hlimit, ?_⟩
  by_cases hpnl : pnl < .zero
  · have hneg : pnl.raw < 0 := Fixed.lt_iff.mp hpnl
    dsimp only at h
    rw [if_pos hpnl] at h
    obtain ⟨bound, hbound, h⟩ := of_bind h
    obtain rfl := ok_inj h
    rw [Fixed.raw_max, Fixed.ofRaw_eq_ok.mp hbound]
    omega
  · have hnonneg : 0 ≤ pnl.raw := Fixed.le_iff.mp (Fixed.not_lt.mp hpnl)
    dsimp only at h
    rw [if_neg hpnl] at h
    obtain ⟨bound, hbound, h⟩ := of_bind h
    obtain rfl := ok_inj h
    rw [Fixed.raw_min, Fixed.ofRaw_eq_ok.mp hbound]
    omega

/-! ## The budgets -/

/-- What is left for settling gains in this window. -/
def budgetUp (unrealized : Int) (p : PerpPosition) : Int :=
  unrealized + |p.recurringSettlePnlAllowance| + cover p.oneshotSettlePnlAllowance.raw -
    p.settlePnlLimitSettledInCurrentWindowNative

/-- What is left for settling losses in this window. -/
def budgetDown (unrealized : Int) (p : PerpPosition) : Int :=
  unrealized + |p.recurringSettlePnlAllowance| + cover (-p.oneshotSettlePnlAllowance.raw) +
    p.settlePnlLimitSettledInCurrentWindowNative

/-- A settlement is taken out of the budget up to one native unit. -/
theorem Settles.paid_up {x change : Int} (h : p.Settles p' x change) (hx : 0 < x)
    (hle : x ≤ I64_MAX * 2 ^ 48) :
    p'.budgetUp unrealized * 2 ^ 48 + x ≤ p.budgetUp unrealized * 2 ^ 48 + 2 ^ 48 := by
  have hcovered := @settled_lt_covered x p.oneshotSettlePnlAllowance.raw hx
  have hrest : 0 ≤ x - oneshotReduction x p.oneshotSettlePnlAllowance.raw ∧
      x - oneshotReduction x p.oneshotSettlePnlAllowance.raw ≤ I64_MAX * 2 ^ 48 := by
    unfold oneshotReduction
    omega
  have hround : 0 ≤ (x - oneshotReduction x p.oneshotSettlePnlAllowance.raw).tdiv (2 ^ 48) ∧
      (x - oneshotReduction x p.oneshotSettlePnlAllowance.raw).tdiv (2 ^ 48) ≤ I64_MAX := by
    rw [Int.tdiv_eq_ediv_of_nonneg hrest.1]
    omega
  have hused := h.used
  rw [min_eq_right hround.2, max_eq_right (by unfold I64_MIN; omega)] at hused
  have hcompensated := le_compensated hround.1 h.nonpos
  unfold budgetUp
  rw [abs_of_nonneg h.nonneg, h.recurring, h.oneshot, hused]
  omega

theorem Settles.paid_down {x change : Int} (h : p.Settles p' x change) (hx : x < 0)
    (hle : I64_MIN * 2 ^ 48 ≤ x) :
    p'.budgetDown unrealized * 2 ^ 48 + -x ≤ p.budgetDown unrealized * 2 ^ 48 + 2 ^ 48 := by
  have hcovered := @settled_lt_covered (-x) (-p.oneshotSettlePnlAllowance.raw) (by omega)
  -- the mirror image of a gain
  rw [oneshotReduction_neg, neg_sub_neg, neg_sub_neg, ← neg_sub x, Int.neg_tdiv] at hcovered
  have hrest : x - oneshotReduction x p.oneshotSettlePnlAllowance.raw ≤ 0 ∧
      I64_MIN * 2 ^ 48 ≤ x - oneshotReduction x p.oneshotSettlePnlAllowance.raw := by
    unfold oneshotReduction
    omega
  have hround : (x - oneshotReduction x p.oneshotSettlePnlAllowance.raw).tdiv (2 ^ 48) ≤ 0 ∧
      I64_MIN ≤ (x - oneshotReduction x p.oneshotSettlePnlAllowance.raw).tdiv (2 ^ 48) := by
    have hneg := Int.neg_tdiv (x - oneshotReduction x p.oneshotSettlePnlAllowance.raw) (2 ^ 48)
    rw [Int.tdiv_eq_ediv_of_nonneg (by omega)] at hneg
    omega
  have hused := h.used
  rw [min_eq_right (by unfold I64_MAX; omega), max_eq_right hround.2] at hused
  have hcompensated := compensated_le hround.1 h.nonpos
  unfold budgetDown
  rw [abs_of_nonneg h.nonneg, h.recurring, h.oneshot, hused, neg_sub]
  omega

/-! ## Sequences of settlements -/

/-- A gain of at most what the limit allows of the pnl at some price is settled. -/
def SettlesUp (product : I80F48 → I80F48 → Int) (market : PerpMarket) (p : PerpPosition)
    (s : I80F48) (p' : PerpPosition) : Prop :=
  .zero < s ∧ ∃ price pnl allowed, p.unsettledPnl market price = .ok pnl ∧
    p.applyPnlSettleLimit product market pnl = .ok allowed ∧ s ≤ allowed ∧
    p.recordSettle s market = .ok p'

/-- A loss of at most what the limit allows of the pnl at some price is settled. -/
def SettlesDown (product : I80F48 → I80F48 → Int) (market : PerpMarket) (p : PerpPosition)
    (s : I80F48) (p' : PerpPosition) : Prop :=
  s < .zero ∧ ∃ price pnl allowed, p.unsettledPnl market price = .ok pnl ∧
    p.applyPnlSettleLimit product market pnl = .ok allowed ∧ allowed ≤ s ∧
    p.recordSettle s market = .ok p'

/-- The product of a factor and a value that are not negative is not negative. -/
def Nonneg (product : I80F48 → I80F48 → Int) : Prop :=
  ∀ factor value : I80F48, .zero ≤ factor → .zero ≤ value → 0 ≤ product factor value

theorem unrealizedLimit_nonneg (hproduct : Nonneg product)
    (hfactor : .zero ≤ market.settlePnlLimitFactor)
    (h : p.unrealizedLimit product market = .ok unrealized) : 0 ≤ unrealized := by
  obtain ⟨value, -, h⟩ := of_bind h
  obtain ⟨valueAbs, habs, h⟩ := of_bind h
  obtain rfl := ok_inj h
  refine hproduct _ _ hfactor (Fixed.le_iff.mpr ?_)
  rw [Fixed.ofRaw_eq_ok.mp habs, Fixed.raw_zero]
  exact Int.natCast_nonneg _

theorem unrealizedLimit_of_recordSettle (h : p.recordSettle s market = .ok p') :
    p'.unrealizedLimit product market = p.unrealizedLimit product market :=
  unrealizedLimit_congr (congrArg Ledger.base (recordSettle_books h).1.2)

/-- The limit never allows more than the budgets. -/
theorem allowed_within (hfactor : .zero ≤ market.settlePnlLimitFactor) (hnonneg : 0 ≤ unrealized)
    (hunrealized : p.unrealizedLimit product market = .ok unrealized)
    (h : p.applyPnlSettleLimit product market pnl = .ok allowed) :
    (0 < allowed.raw → allowed.raw ≤ p.budgetUp unrealized * 2 ^ 48 ∧
      allowed.raw ≤ I64_MAX * 2 ^ 48) ∧
    (allowed.raw < 0 → -allowed.raw ≤ p.budgetDown unrealized * 2 ^ 48 ∧
      I64_MIN * 2 ^ 48 ≤ allowed.raw) := by
  obtain ⟨minPnl, maxPnl, hlimit, hlo, hhi⟩ := applyPnlSettleLimit_eq_ok hfactor h
  obtain ⟨u, upnl, limit, hu, -, hlimit, hmin, hmax⟩ := settleLimit_eq_ok hfactor hlimit
  obtain rfl := ok_unique hu hunrealized
  have hrecurring := abs_nonneg p.recurringSettlePnlAllowance
  have honeshot := cover_nonneg p.oneshotSettlePnlAllowance.raw
  have honeshot' := cover_nonneg (-p.oneshotSettlePnlAllowance.raw)
  unfold budgetUp budgetDown
  unfold saturatingAddI64 at hmin hmax
  unfold saturatingSubI64 at hlo hhi
  unfold I64_MAX I64_MIN at *
  constructor
  · intro hpos
    omega
  · intro hneg
    omega

theorem budgeted_up (hproduct : Nonneg product) (hfactor : .zero ≤ market.settlePnlLimitFactor) :
    Budgeted (SettlesUp product market) (fun p => p.unrealizedLimit product market = .ok unrealized)
      Fixed.raw (fun p => p.budgetUp unrealized * 2 ^ 48) (2 ^ 48) where
  keeps hp h := by
    obtain ⟨-, _, _, _, -, -, -, hsettle⟩ := h
    rw [unrealizedLimit_of_recordSettle hsettle, hp]
  within hp h := by
    obtain ⟨hpos, _, _, allowed, -, hallowed, hle, -⟩ := h
    have hpos := Fixed.lt_iff.mp hpos
    have hle := Fixed.le_iff.mp hle
    have hwithin := (allowed_within hfactor (unrealizedLimit_nonneg hproduct hfactor hp) hp
      hallowed).1 (hpos.trans_le hle)
    exact hle.trans hwithin.1
  paid hp h := by
    obtain ⟨hpos, _, _, allowed, -, hallowed, hle, hsettle⟩ := h
    have hpos := Fixed.lt_iff.mp hpos
    have hle := Fixed.le_iff.mp hle
    have hwithin := (allowed_within hfactor (unrealizedLimit_nonneg hproduct hfactor hp) hp
      hallowed).1 (hpos.trans_le hle)
    obtain ⟨change, hsettled⟩ := recordSettle_settled hsettle
    exact hsettled.paid_up hpos (hle.trans hwithin.2)

theorem budgeted_down (hproduct : Nonneg product)
    (hfactor : .zero ≤ market.settlePnlLimitFactor) :
    Budgeted (SettlesDown product market)
      (fun p => p.unrealizedLimit product market = .ok unrealized)
      (fun s => -s.raw) (fun p => p.budgetDown unrealized * 2 ^ 48) (2 ^ 48) where
  keeps hp h := by
    obtain ⟨-, _, _, _, -, -, -, hsettle⟩ := h
    rw [unrealizedLimit_of_recordSettle hsettle, hp]
  within hp h := by
    obtain ⟨hneg, _, _, allowed, -, hallowed, hle, -⟩ := h
    have hneg := Fixed.lt_iff.mp hneg
    have hle := Fixed.le_iff.mp hle
    have hwithin := (allowed_within hfactor (unrealizedLimit_nonneg hproduct hfactor hp) hp
      hallowed).2 (hle.trans_lt hneg)
    exact (neg_le_neg hle).trans hwithin.1
  paid hp h := by
    obtain ⟨hneg, _, _, allowed, -, hallowed, hle, hsettle⟩ := h
    have hneg := Fixed.lt_iff.mp hneg
    have hle := Fixed.le_iff.mp hle
    have hwithin := (allowed_within hfactor (unrealizedLimit_nonneg hproduct hfactor hp) hp
      hallowed).2 (hle.trans_lt hneg)
    obtain ⟨change, hsettled⟩ := recordSettle_settled hsettle
    exact hsettled.paid_down hneg (hwithin.2.trans hle)

/-- The recurring allowance is within the pnl at the stable price, and the
    three parts of the limit add up to an `i64`. -/
def Capped (product : I80F48 → I80F48 → Int) (p : PerpPosition) (market : PerpMarket) : Prop :=
  ∀ upnl unrealized, p.unsettledPnl market market.stablePrice = .ok upnl →
    p.unrealizedLimit product market = .ok unrealized →
    |p.recurringSettlePnlAllowance| ≤ cover |upnl.raw| ∧
    unrealized + |p.recurringSettlePnlAllowance| + cover |p.oneshotSettlePnlAllowance.raw| ≤ I64_MAX

/-- The limit of a capped position is the whole budget of an unused window. -/
theorem settleLimit_of_capped (hproduct : Nonneg product)
    (hfactor : .zero ≤ market.settlePnlLimitFactor) (hcapped : p.Capped product market)
    (hlimit : p.settleLimit product market = .ok (minPnl, maxPnl)) :
    ∃ unrealized, p.unrealizedLimit product market = .ok unrealized ∧
      maxPnl = p.budgetUp unrealized + p.settlePnlLimitSettledInCurrentWindowNative ∧
      minPnl = p.settlePnlLimitSettledInCurrentWindowNative - p.budgetDown unrealized := by
  obtain ⟨u, upnl, limit, hu, hupnl, hlimit, hmin, hmax⟩ := settleLimit_eq_ok hfactor hlimit
  obtain ⟨hwithin, hsum⟩ := hcapped upnl u hupnl hu
  have hnonneg := unrealizedLimit_nonneg hproduct hfactor hu
  have hrecurring := abs_nonneg p.recurringSettlePnlAllowance
  have hup : cover p.oneshotSettlePnlAllowance.raw ≤ cover |p.oneshotSettlePnlAllowance.raw| := by
    unfold cover
    have habs := le_abs_self p.oneshotSettlePnlAllowance.raw
    omega
  have hdown : cover (-p.oneshotSettlePnlAllowance.raw) ≤
      cover |p.oneshotSettlePnlAllowance.raw| := by
    unfold cover
    have habs := neg_le_abs p.oneshotSettlePnlAllowance.raw
    omega
  have hup' := cover_nonneg p.oneshotSettlePnlAllowance.raw
  have hdown' := cover_nonneg (-p.oneshotSettlePnlAllowance.raw)
  refine ⟨u, hu, ?_, ?_⟩
  · unfold budgetUp
    unfold saturatingAddI64 at hmax
    unfold I64_MAX I64_MIN at *
    omega
  · unfold budgetDown
    unfold saturatingAddI64 at hmin
    unfold I64_MAX I64_MIN at *
    omega

/-- Gains that are settled in a window in which no losses have been settled
    before add up to at most `max_pnl` of the settle limit at the start, and one
    native unit for each settlement; and losses to at most `min_pnl`. -/
theorem settled_within_limit (hproduct : Nonneg product)
    (hfactor : .zero ≤ market.settlePnlLimitFactor) (hcapped : p.Capped product market)
    (hlimit : p.settleLimit product market = .ok (minPnl, maxPnl)) (settled : List I80F48) :
    (0 ≤ p.settlePnlLimitSettledInCurrentWindowNative →
      Spends (SettlesUp product market) p settled p' →
      (settled.map Fixed.raw).sum ≤ (maxPnl + settled.length) * 2 ^ 48) ∧
    (p.settlePnlLimitSettledInCurrentWindowNative ≤ 0 →
      Spends (SettlesDown product market) p settled p' →
      (minPnl - settled.length) * 2 ^ 48 ≤ (settled.map Fixed.raw).sum) := by
  obtain ⟨u, hu, hmax, hmin⟩ := settleLimit_of_capped hproduct hfactor hcapped hlimit
  obtain ⟨_, _, _, -, -, -, hmin', hmax'⟩ := settleLimit_eq_ok hfactor hlimit
  constructor
  · intro hused hruns
    cases settled with
    | nil =>
      rw [map_nil, sum_nil, length_nil]
      omega
    | cons s rest =>
      have htotal := hruns.total_le (budgeted_up hproduct hfactor) hu (cons_ne_nil s rest)
      omega
  · intro hused hruns
    cases settled with
    | nil =>
      rw [map_nil, sum_nil, length_nil]
      omega
    | cons s rest =>
      have htotal := hruns.total_le (budgeted_down hproduct hfactor) hu (cons_ne_nil s rest)
      have hneg : ((s :: rest).map fun x => -x.raw).sum = -((s :: rest).map Fixed.raw).sum := by
        rw [sum_neg, map_map]
        rfl
      omega

/-! ## Settlements on both sides of the limit -/

/-- The product without the rounding of `f64`. -/
def exactProduct (factor value : I80F48) : Int := factor.raw * value.raw / 2 ^ 96

theorem exactProduct_nonneg : Nonneg exactProduct := fun _ _ hfactor hvalue =>
  Int.ediv_nonneg (mul_nonneg (Fixed.le_iff.mp hfactor) (Fixed.le_iff.mp hvalue)) (by decide)

end PerpPosition

/-- A market with stable price 1 that allows an eighth of the position's value
    to be settled in each window. -/
def PerpMarket.eighth : PerpMarket :=
  { PerpMarket.plain 0 with
    stablePrice := .ONE
    settlePnlLimitFactor := ⟨2 ^ 45, by decide⟩
    settlePnlLimitWindowSizeTs := 100 }

/-- 800 lots that owe `debt`, with a recurring allowance and a used limit. -/
def PerpPosition.allowed (debt : Fin (2 ^ 32)) (recurring used : Int) : PerpPosition :=
  { PerpPosition.default with
    marketIndex := 0
    basePositionLots := 800
    quotePositionNative := ⟨-(I80F48.ofSmall debt).raw, by
      have h := debt.isLt
      unfold I80F48.ofSmall
      constructor <;> dsimp only <;> omega⟩
    recurringSettlePnlAllowance := recurring
    settlePnlLimitSettledInCurrentWindowNative := used }

namespace PerpPosition

theorem allowed_capped : (allowed 900 100 0).Capped exactProduct .eighth := by
  intro upnl unrealized hupnl hunrealized
  have hstable : (allowed 900 100 0).unsettledPnl .eighth PerpMarket.eighth.stablePrice =
      .ok ⟨-100 * 2 ^ 48, by decide⟩ := by decide +kernel
  have hvalue : (allowed 900 100 0).unrealizedLimit exactProduct .eighth = .ok 100 := by
    decide +kernel
  obtain rfl := ok_unique hstable hupnl
  obtain rfl := ok_unique hvalue hunrealized
  constructor <;> decide

/-- Gains of 200 use up the limit, and so do losses. -/
theorem settled_within_limit_of_allowed :
    (∃ p', Spends (SettlesUp exactProduct .eighth) (allowed 900 100 0) [.ofSmall 200] p') ∧
    (∃ p', Spends (SettlesDown exactProduct .eighth) (allowed 900 100 0)
      [⟨-200 * 2 ^ 48, by decide⟩] p') ∧
    ((I80F48.ofSmall 200).raw ≤ (200 + 1) * 2 ^ 48 ∧ (-200 - 1) * 2 ^ 48 ≤ -200 * 2 ^ 48) := by
  have hlimit : (allowed 900 100 0).settleLimit exactProduct .eighth = .ok (-200, 200) := by
    decide +kernel
  have hup : Spends (SettlesUp exactProduct .eighth) (allowed 900 100 0) [.ofSmall 200]
      (allowed 1100 100 200) :=
    .cons ⟨by decide, .ofSmall 2, .ofSmall 700, .ofSmall 200, by decide +kernel,
      by decide +kernel, by decide, by decide +kernel⟩ (.nil _)
  have hdown : Spends (SettlesDown exactProduct .eighth) (allowed 900 100 0)
      [⟨-200 * 2 ^ 48, by decide⟩] (allowed 700 100 (-200)) :=
    .cons ⟨by decide, .zero, ⟨-900 * 2 ^ 48, by decide⟩, ⟨-200 * 2 ^ 48, by decide⟩,
      by decide +kernel, by decide +kernel, by decide, by decide +kernel⟩ (.nil _)
  have hgains := (settled_within_limit exactProduct_nonneg (by decide) allowed_capped hlimit
    [.ofSmall 200]).1 (by decide) hup
  have hlosses := (settled_within_limit exactProduct_nonneg (by decide) allowed_capped hlimit
    [⟨-200 * 2 ^ 48, by decide⟩]).2 (by decide) hdown
  exact ⟨⟨_, hup⟩, ⟨_, hdown⟩, hgains, hlosses⟩

/-- The stable pnl has fallen to 0 since the allowance of 1000 was stored, and
    the limit is 100.  Settling 100 cuts the allowance to 100; the cut of 900
    keeps the counter at 0, although it was no budget before, and the next
    limit is 200. -/
theorem settled_beyond_limit :
    ¬ ∀ (product : I80F48 → I80F48 → Int) (market : PerpMarket) (p p' : PerpPosition)
      (settled : List I80F48) (minPnl maxPnl : Int), Nonneg product →
      .zero ≤ market.settlePnlLimitFactor → p.settleLimit product market = .ok (minPnl, maxPnl) →
      p.settlePnlLimitSettledInCurrentWindowNative = 0 →
      Spends (SettlesUp product market) p settled p' →
      (settled.map Fixed.raw).sum ≤ (maxPnl + settled.length) * 2 ^ 48 := by
  intro h
  have hlimit : (allowed 800 1000 0).settleLimit exactProduct .eighth = .ok (-100, 100) := by
    decide +kernel
  have hfirst : SettlesUp exactProduct .eighth (allowed 800 1000 0) (.ofSmall 100)
      (allowed 900 100 0) :=
    ⟨by decide, .ofSmall 2, .ofSmall 800, .ofSmall 100, by decide +kernel, by decide +kernel,
      by decide, by decide +kernel⟩
  have hsecond : SettlesUp exactProduct .eighth (allowed 900 100 0) (.ofSmall 200)
      (allowed 1100 100 200) :=
    ⟨by decide, .ofSmall 2, .ofSmall 700, .ofSmall 200, by decide +kernel, by decide +kernel,
      by decide, by decide +kernel⟩
  have htotal := h exactProduct .eighth _ _ _ _ _ exactProduct_nonneg (by decide) hlimit rfl
    (.cons hfirst (.cons hsecond (.nil _)))
  exact absurd htotal (by decide)

end PerpPosition

end MangoV4
