/-
  MangoV4.Tokens.Totals

  A bank and all the token positions that are kept in it.

  The bank only knows its totals.  They are exactly the sums over the
  positions, whichever operations have run: every operation moves the totals
  and one position by the same indexed amount, although it decides on native
  amounts and rounds.
-/

import MangoV4.State.BankNative
import MangoV4.Lib.Run

namespace MangoV4

open Lib Lib.Exec List Bank TokenPosition

/-- A bank and the positions in its token. -/
structure BankBook where
  bank : Bank
  positions : List TokenPosition

namespace BankBook

/-- The operations of a bank; positions are given by their number. -/
inductive Op where
  | deposit (i : Nat) (nativeAmount : I80F48) (nowTs : Nat)
  | depositWithDusting (i : Nat) (nativeAmount : I80F48) (nowTs : Nat)
  | withdrawWithoutFee (i : Nat) (nativeAmount : I80F48) (nowTs : Nat)
  | withdrawWithoutFeeWithDusting (i : Nat) (nativeAmount : I80F48) (nowTs : Nat)
  | withdrawWithFee (i : Nat) (nativeAmount : I80F48) (nowTs : Nat)
  | withdrawLoanOriginationFee (i : Nat) (alreadyBorrowedNativeAmount : I80F48) (nowTs : Nat)
  | changeWithFee (i : Nat) (nativeAmount : I80F48) (nowTs : Nat)
  | changeWithoutFee (i : Nat) (nativeAmount : I80F48) (nowTs : Nat)
  | dustIfPossible (i : Nat) (nowTs : Nat)
  | checkedTransferWithFee (source : Nat) (sourceAmount : I80F48) (target : Nat)
      (targetAmount : I80F48) (nowTs : Nat) (oraclePrice : I80F48)

def load (s : BankBook) (i : Nat) : Exec TokenPosition :=
  match s.positions[i]? with
  | some p => .ok p
  | none => fail .tokenPositionDoesNotExist

/-- Writes back the bank and a loaded position. -/
def store (s : BankBook) (bank : Bank) (i : Nat) (p : TokenPosition) : BankBook where
  bank := bank
  positions := s.positions.set i p

/-- An operation on one position. -/
def change {α : Type} (s : BankBook) (i : Nat)
    (f : TokenPosition → Exec (α × Bank × TokenPosition)) : Exec (Unit × BankBook) := do
  let (_, bank, p) ← f (← s.load i)
  return ((), s.store bank i p)

def exec : Op → BankBook → Exec (Unit × BankBook)
  | .deposit i amount nowTs, s => s.change i (s.bank.deposit · amount nowTs)
  | .depositWithDusting i amount nowTs, s => s.change i (s.bank.depositWithDusting · amount nowTs)
  | .withdrawWithoutFee i amount nowTs, s => s.change i (s.bank.withdrawWithoutFee · amount nowTs)
  | .withdrawWithoutFeeWithDusting i amount nowTs, s =>
    s.change i (s.bank.withdrawWithoutFeeWithDusting · amount nowTs)
  | .withdrawWithFee i amount nowTs, s => s.change i (s.bank.withdrawWithFee · amount nowTs)
  | .withdrawLoanOriginationFee i amount nowTs, s =>
    s.change i (s.bank.withdrawLoanOriginationFee · amount nowTs)
  | .changeWithFee i amount nowTs, s => s.change i (s.bank.changeWithFee · amount nowTs)
  | .changeWithoutFee i amount nowTs, s => s.change i (s.bank.changeWithoutFee · amount nowTs)
  | .dustIfPossible i nowTs, s => s.change i (s.bank.dustIfPossible · nowTs)
  | .checkedTransferWithFee i sourceAmount j targetAmount nowTs oraclePrice, s => do
    -- source and target are borrowed mutably at the same time
    require (decide (i ≠ j)) .requireNeqViolated
    let source ← s.load i
    let target ← s.load j
    let (_, bank, source, target) ←
      s.bank.checkedTransferWithFee source sourceAmount target targetAmount nowTs oraclePrice
    return ((), (s.store bank i source).store bank j target)

/-! ## The totals -/

/-- The totals are the sums over the positions; the indices are positive. -/
structure Exact (s : BankBook) : Prop where
  indexed : s.bank.Indexed
  deposits : s.bank.indexedDeposits.raw = (s.positions.map TokenPosition.deposited).sum
  borrows : s.bank.indexedBorrows.raw = (s.positions.map TokenPosition.borrowed).sum

variable {s : BankBook} {i : Nat} {p : TokenPosition}

theorem load_eq_ok :
    s.load i = .ok p ↔ s.positions[i]? = some p := by
  unfold load
  cases s.positions[i]? with
  | none => simp [fail]
  | some p' => simp

/-- How replacing one entry changes a sum. -/
theorem sum_map_set {f : TokenPosition → Int} {positions : List TokenPosition} (h : positions[i]? = some p) (p' : TokenPosition) :
    ((positions.set i p').map f).sum = (positions.map f).sum + (f p' - f p) := by
  obtain ⟨hlt, rfl⟩ := List.getElem?_eq_some_iff.mp h
  rw [List.map_set, List.sum_set', dif_pos (by simpa using hlt), List.getElem_map]
  omega

theorem Exact.store (hs : s.Exact) {p' : TokenPosition} {bank : Bank}
    (hp : s.positions[i]? = some p) (hposts : s.bank.Posts p bank p') :
    (s.store bank i p').Exact where
  indexed := hposts.indexed_iff.mpr hs.indexed
  deposits := by
    have hmove := hposts.deposits hs.indexed
    have htotal := hs.deposits
    show bank.indexedDeposits.raw = ((s.positions.set i p').map deposited).sum
    rw [sum_map_set hp]
    omega
  borrows := by
    have hmove := hposts.borrows hs.indexed
    have htotal := hs.borrows
    show bank.indexedBorrows.raw = ((s.positions.set i p').map borrowed).sum
    rw [sum_map_set hp]
    omega

theorem Exact.change {α : Type} {s' : BankBook} (hs : s.Exact)
    {f : TokenPosition → Exec (α × Bank × TokenPosition)}
    (hf : ∀ p r bank p', f p = .ok (r, bank, p') → s.bank.Posts p bank p')
    (h : s.change i f = .ok ((), s')) : s'.Exact := by
  obtain ⟨p, hp, h⟩ := of_bind h
  obtain ⟨⟨r, bank, p'⟩, hr, h⟩ := of_bind h
  obtain ⟨-, rfl⟩ := ok_inj₂ h
  exact hs.store (load_eq_ok.mp hp) (hf p r bank p' hr)

/-- Every operation keeps the totals exact. -/
theorem Exact.exec {s' : BankBook} {op : Op} (hs : s.Exact) (h : exec op s = .ok ((), s')) :
    s'.Exact := by
  cases op with
  | deposit i amount nowTs =>
    exact hs.change (fun _ _ _ _ hr => (deposit_changes hr).posts) h
  | depositWithDusting i amount nowTs =>
    exact hs.change (fun _ _ _ _ hr => (depositWithDusting_changes hr).posts) h
  | withdrawWithoutFee i amount nowTs =>
    exact hs.change (fun _ _ _ _ hr => (withdrawWithoutFee_changes hr).posts) h
  | withdrawWithoutFeeWithDusting i amount nowTs =>
    exact hs.change (fun _ _ _ _ hr => (withdrawWithoutFeeWithDusting_changes hr).posts) h
  | withdrawWithFee i amount nowTs =>
    exact hs.change (fun _ _ _ _ hr => (withdrawWithFee_changes hr).posts) h
  | withdrawLoanOriginationFee i amount nowTs =>
    exact hs.change (fun _ _ _ _ hr => (withdrawLoanOriginationFee_changes hr).1.posts) h
  | changeWithFee i amount nowTs =>
    exact hs.change (fun _ _ _ _ hr => (changeWithFee_changes hr).posts) h
  | changeWithoutFee i amount nowTs =>
    exact hs.change (fun _ _ _ _ hr => (changeWithoutFee_changes hr).1.posts) h
  | dustIfPossible i nowTs =>
    exact hs.change (fun _ _ _ _ hr => (dustIfPossible_changes hr).1.posts) h
  | checkedTransferWithFee i sourceAmount j targetAmount nowTs oraclePrice =>
    obtain ⟨_, hreq, h⟩ := of_bind h
    have hij : i ≠ j := of_require hreq
    obtain ⟨source, hsource, h⟩ := of_bind h
    obtain ⟨target, htarget, h⟩ := of_bind h
    obtain ⟨⟨r, bank, source', target'⟩, hr, h⟩ := of_bind h
    obtain ⟨-, rfl⟩ := ok_inj₂ h
    obtain ⟨_, bank₁, _, hfirst, hsecond, -, -⟩ := checkedTransferWithFee_parts hr
    -- the source is written first, with the books in between
    have hmid := hs.store (load_eq_ok.mp hsource) (withdrawFromSource_changes hfirst).1.posts
    have htarget' : (s.store bank₁ i source').positions[j]? = some target := by
      show (s.positions.set i source')[j]? = some target
      rw [getElem?_set_ne hij]
      exact load_eq_ok.mp htarget
    exact hmid.store htarget' (depositToTarget_changes hsecond).1.posts

theorem sum_deposited_nonneg (positions : List TokenPosition) :
    0 ≤ (positions.map deposited).sum :=
  sum_nonneg fun x hx => by
    obtain ⟨p, -, rfl⟩ := mem_map.mp hx
    exact le_max_right _ _

theorem sum_borrowed_nonneg (positions : List TokenPosition) :
    0 ≤ (positions.map borrowed).sum :=
  sum_nonneg fun x hx => by
    obtain ⟨p, -, rfl⟩ := mem_map.mp hx
    exact le_max_right _ _

/-- A bank that has just been registered: no totals, and all positions are empty. -/
structure Empty (s : BankBook) : Prop where
  deposits : s.bank.indexedDeposits = .zero
  borrows : s.bank.indexedBorrows = .zero
  positions : ∀ p ∈ s.positions, p.indexedPosition = .zero

theorem Empty.exact (hs : s.Empty) (hb : s.bank.Indexed) : s.Exact where
  indexed := hb
  deposits := by
    rw [hs.deposits]
    refine (sum_eq_zero fun x hx => ?_).symm
    obtain ⟨p, hp, rfl⟩ := mem_map.mp hx
    rw [deposited, hs.positions p hp]
    rfl
  borrows := by
    rw [hs.borrows]
    refine (sum_eq_zero fun x hx => ?_).symm
    obtain ⟨p, hp, rfl⟩ := mem_map.mp hx
    rw [borrowed, hs.positions p hp]
    rfl

/-- After every sequence of bank operations the totals of the bank are exactly
    the sums of the positive and of the negative positions, so neither is ever
    negative.  A withdrawal from any position of at most its native balance
    leaves no borrow, whatever was rounded. -/
theorem totals_exact {s s' : BankBook} (hs : s.Empty) (hb : s.bank.Indexed) (ops : List Op)
    (hrun : run exec s ops = s') :
    s'.bank.indexedDeposits.raw =
        (s'.positions.map fun p => max p.indexedPosition.raw 0).sum ∧
      s'.bank.indexedBorrows.raw = (s'.positions.map fun p => max (-p.indexedPosition.raw) 0).sum ∧
      .zero ≤ s'.bank.indexedDeposits ∧ .zero ≤ s'.bank.indexedBorrows ∧
      ∀ p ∈ s'.positions, ∀ native amount withFee allowDusting nowTs result bank p',
        p.native s'.bank = .ok native → amount ≤ native →
        s'.bank.withdrawInternalWrapper p amount withFee allowDusting nowTs =
          .ok (result, bank, p') →
        .zero ≤ p'.indexedPosition := by
  have hexact : s'.Exact :=
    hrun ▸ run_preserves (fun _ _ _ _ hs hex => hs.exec hex) ops (hs.exact hb)
  refine ⟨hexact.deposits, hexact.borrows, ?_, ?_, ?_⟩
  · rw [Fixed.le_iff, hexact.deposits]
    exact sum_deposited_nonneg _
  · rw [Fixed.le_iff, hexact.borrows]
    exact sum_borrowed_nonneg _
  · intro p _ native amount withFee allowDusting nowTs result bank p' hnative hle hwithdraw
    exact withdrawInternalWrapper_nonneg hexact.indexed hnative hle hwithdraw

/-- Three empty positions, the last of them in use, in a bank whose indices do
    not divide anything. -/
def threePositions : BankBook where
  bank := { Bank.plain 0 with
    depositIndex := ⟨2 ^ 48 + 7, by decide⟩
    borrowIndex := ⟨2 ^ 48 + 11, by decide⟩ }
  positions := [{ tokenIndex := 0, inUseCount := 0 }, { tokenIndex := 0, inUseCount := 0 },
    { tokenIndex := 0, inUseCount := 1 }]

/-- Deposits, a withdrawal that borrows with a fee, a transfer that repays, and
    a withdrawal that leaves dust. -/
def mixedOps : List Op :=
  [.deposit 0 (.ofSmall 1000) 5, .withdrawWithFee 1 (.ofSmall 300) 5,
    .depositWithDusting 2 (.ofSmall 40) 6,
    .checkedTransferWithFee 0 (.ofSmall 500) 1 (.ofSmall 100) 7 (.ofSmall 1),
    .withdrawLoanOriginationFee 1 (.ofSmall 300) 8, .changeWithoutFee 2 (.ofSmall 3) 8,
    .withdrawWithoutFeeWithDusting 2 (.ofSmall 43) 9, .dustIfPossible 0 9]

/-- The first position ends with deposits, the second with borrows, the third
    has been dusted. -/
theorem mixedOps_exact :
    ((run exec threePositions mixedOps).positions.map fun p => p.indexedPosition.raw.sign) =
        [1, -1, 0] ∧
      (run exec threePositions mixedOps).bank.indexedDeposits.raw =
        ((run exec threePositions mixedOps).positions.map
          fun p => max p.indexedPosition.raw 0).sum :=
  ⟨by decide +kernel, (totals_exact ⟨rfl, rfl, by decide⟩ (by decide) mixedOps rfl).1⟩

end BankBook

end MangoV4
