/-
  MangoV4.Lib.Returns

  Computations that end with a value.

  `Returns x Q` is total correctness: `x` neither fails nor panics, and its
  value is in `Q`.  Arithmetic returns where its exact result is in range.
-/

import MangoV4.Lib.Fixed

namespace MangoV4.Lib

variable {ε α β : Type}

/-- The computation ends with a value in `Q`. -/
def Returns (x : Exec ε α) (Q : α → Prop) : Prop := ∃ a, x = .ok a ∧ Q a

namespace Returns

variable {P : α → Prop} {Q : β → Prop}

theorem pure {a : α} (h : P a) : Returns (.ok a : Exec ε α) P := ⟨a, rfl, h⟩

theorem bind {x : Exec ε α} {f : α → Exec ε β} (hx : Returns x P)
    (hf : ∀ a, P a → Returns (f a) Q) : Returns (x >>= f) Q := by
  obtain ⟨a, rfl, ha⟩ := hx
  exact hf a ha

theorem ofRaw {n : Int} (h : 0 ≤ n) (hlt : n < 2 ^ 127) :
    Returns (Fixed.ofRaw n : Exec ε (Fixed 128 48)) fun z => z.raw = n :=
  ⟨⟨n, by omega, hlt⟩, Fixed.ofRaw_eq_ok.mpr rfl, rfl⟩

theorem div {x y : Fixed 128 48} (hx : 0 ≤ x.raw) (hy : 0 < y.raw)
    (hlt : x.raw * 2 ^ 48 / y.raw < 2 ^ 127) :
    Returns (x.div y : Exec ε _) fun z => z.raw = x.raw * 2 ^ 48 / y.raw := by
  unfold Fixed.div
  rw [if_neg hy.ne', Int.tdiv_eq_ediv_of_nonneg (by positivity)]
  exact ofRaw (by positivity) hlt

theorem toU64 {x : Fixed 128 48} (hx : 0 ≤ x.raw) (hlt : x.raw < 2 ^ 112) :
    Returns (x.toU64 : Exec ε Nat) fun n => (n : Int) = x.raw / 2 ^ 48 := by
  have hnonneg : 0 ≤ x.toInt := by
    unfold Fixed.toInt
    positivity
  refine ⟨x.toInt.toNat, ?_, Int.toNat_of_nonneg hnonneg⟩
  unfold Fixed.toU64
  rw [if_pos hnonneg]
  unfold Fixed.toInt at hnonneg ⊢
  exact Exec.checkU64_eq_ok.mpr ⟨by omega, rfl⟩

end Returns

end MangoV4.Lib
