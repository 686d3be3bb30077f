import Abacus.Decimal.Basic
import Mathlib

/-!
# The value of a decimal

A decimal stands for the rational number `unscaled * 10 ^ (-scale)`.
-/

namespace Abacus.Decimal

/-- The number that a decimal stands for. -/
def value (x : Decimal) : ℚ := x.unscaled * (10 : ℚ) ^ (-x.scale)

/-- At a scale that is large enough the coefficient is exact. -/
theorem unscaledAt_cast {x : Decimal} {scale : Int} (h : x.scale ≤ scale) :
    (x.unscaledAt scale : ℚ) = x.value * (10 : ℚ) ^ scale := by
  have hnat : ((scale - x.scale).toNat : Int) = scale - x.scale := by omega
  have hpow : (10 : ℚ) ^ (scale - x.scale).toNat = (10 : ℚ) ^ (scale - x.scale) := by
    rw [← zpow_natCast, hnat]
  rw [unscaledAt, value]
  push_cast
  rw [hpow, sub_eq_neg_add, zpow_add₀ (by norm_num), mul_assoc]

/-- A coefficient stands for the same number when it is written at a larger scale. -/
theorem value_unscaledAt {x : Decimal} {scale : Int} (h : x.scale ≤ scale) :
    value ⟨x.unscaledAt scale, scale⟩ = x.value := by
  rw [value, unscaledAt_cast h, mul_assoc, ← zpow_add₀ (by norm_num)]
  simp

/-- A value written at one scale has one coefficient there. -/
theorem eq_of_value_of_scale {x y : Decimal} (hvalue : x.value = y.value)
    (hscale : x.scale = y.scale) : x = y := by
  have hunscaled : x.unscaledAt y.scale = y.unscaledAt y.scale := by
    rw [← Int.cast_inj (α := ℚ), unscaledAt_cast hscale.le, unscaledAt_cast le_rfl, hvalue]
  rw [← hscale, unscaledAt_self, hscale, unscaledAt_self] at hunscaled
  calc x = ⟨x.unscaled, x.scale⟩ := rfl
    _ = ⟨y.unscaled, y.scale⟩ := by rw [hunscaled, hscale]

end Abacus.Decimal
