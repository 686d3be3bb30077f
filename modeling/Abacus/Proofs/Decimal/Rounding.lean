import Abacus.Decimal.Division
import Abacus.Proofs.Decimal.Arithmetic

/-!
# Rounding depends on the ratio

Two integers that are divided and rounded give what their ratio gives: a common factor changes
neither the truncated quotient, nor the sign, nor which half the dropped fraction is in.  So rounding
is a function of rational numbers, `Rounding.ofRat`, and what decimals are rounded to depends on their
values only: `rescale_eq`, `divScaled_eq` and `value_rem`.
-/

namespace Abacus

/-! ## Common factors -/

theorem roundQuotient_mul_of_pos (mode : Rounding) {k : Int} (hk : 0 < k) (a b : Int) :
    roundQuotient mode (k * a) (k * b) = roundQuotient mode a b := by
  have hnat : 0 < k.natAbs := Int.natAbs_pos.mpr hk.ne'
  have hhalf : ∀ r : Int, compare (2 * (k * r).natAbs) (k * b).natAbs =
      compare (2 * r.natAbs) b.natAbs := by
    intro r
    rw [Int.natAbs_mul, Int.natAbs_mul, Nat.mul_left_comm]
    exact compare_congr (Nat.mul_lt_mul_left hnat) (Nat.mul_lt_mul_left hnat)
  have hneg : ∀ n : Int, decide (k * n < 0) = decide (n < 0) := by
    intro n
    rw [decide_eq_decide, mul_neg_iff]
    omega
  simp only [roundQuotient, Int.mul_tdiv_mul_of_pos _ _ hk, Int.mul_tmod_mul_of_pos _ _ hk, hneg,
    hhalf, mul_eq_zero, hk.ne', false_or]

/-- Changing the sign of a number other than zero changes whether it is negative. -/
theorem decide_neg_lt_zero {n : Int} (hn : n ≠ 0) : decide (-n < 0) = !decide (n < 0) := by
  rw [← decide_not, decide_eq_decide]
  omega

theorem roundQuotient_neg_neg (mode : Rounding) {a b : Int} (hb : b ≠ 0) :
    roundQuotient mode (-a) (-b) = roundQuotient mode a b := by
  by_cases ha : a = 0
  · simp [ha, roundQuotient]
  · have hsign : (decide (-a < 0) == decide (-b < 0)) = (decide (a < 0) == decide (b < 0)) := by
      rw [decide_neg_lt_zero ha, decide_neg_lt_zero hb]
      cases decide (a < 0) <;> cases decide (b < 0) <;> rfl
    simp only [roundQuotient, Int.neg_tdiv_neg, Int.tmod_neg, Int.neg_tmod, Int.natAbs_neg,
      neg_eq_zero, hsign]

theorem roundQuotient_mul (mode : Rounding) {k b : Int} (hk : k ≠ 0) (hb : b ≠ 0) (a : Int) :
    roundQuotient mode (k * a) (k * b) = roundQuotient mode a b := by
  rcases lt_or_gt_of_ne hk with hneg | hpos
  · have hkb : k * b ≠ 0 := mul_ne_zero hk hb
    rw [← roundQuotient_neg_neg mode hkb, ← neg_mul, ← neg_mul,
      roundQuotient_mul_of_pos mode (neg_pos.mpr hneg)]
  · exact roundQuotient_mul_of_pos mode hpos a b

/-- A rational number rounded to an integer. -/
def Rounding.ofRat (mode : Rounding) (ratio : ℚ) : Int :=
  roundQuotient mode ratio.num ratio.den

/-- Rounding a quotient is rounding the ratio. -/
theorem roundQuotient_eq (mode : Rounding) {a b : Int} (hb : b ≠ 0) :
    roundQuotient mode a b = mode.ofRat (a / b) := by
  set ratio : ℚ := a / b with hratio
  have hden : (ratio.den : Int) ≠ 0 := by exact_mod_cast ratio.den_nz
  have hcross : b * ratio.num = ratio.den * a := by
    have hb' : (b : ℚ) ≠ 0 := by exact_mod_cast hb
    have hden' : (ratio.den : ℚ) ≠ 0 := by exact_mod_cast ratio.den_nz
    have hq : (ratio.num : ℚ) / ratio.den = a / b := by rw [Rat.num_div_den, hratio]
    rw [div_eq_div_iff hden' hb'] at hq
    have hcast : (b * ratio.num : ℚ) = ratio.den * a := by linarith
    exact_mod_cast hcast
  calc roundQuotient mode a b = roundQuotient mode (ratio.den * a) (ratio.den * b) :=
        (roundQuotient_mul mode hden hb a).symm
    _ = roundQuotient mode (b * ratio.num) (b * ratio.den) := by
        rw [← hcross, mul_comm (ratio.den : Int) b]
    _ = mode.ofRat ratio := roundQuotient_mul mode hb hden _

/-- Rounding towards zero is dropping the fraction. -/
theorem roundQuotient_down (a b : Int) : roundQuotient .down a b = a.tdiv b := by
  simp [roundQuotient, Rounding.awayFromZero]

theorem tdiv_eq {a b : Int} (hb : b ≠ 0) : a.tdiv b = Rounding.down.ofRat (a / b) := by
  rw [← roundQuotient_down, roundQuotient_eq .down hb]

@[simp] theorem Rounding.ofRat_intCast (mode : Rounding) (n : Int) : mode.ofRat n = n := by
  simp [Rounding.ofRat, roundQuotient]

namespace Decimal

/-! ## Rounded decimals -/

/-- The coefficient of `x` over a power of ten is the value at a smaller scale. -/
theorem unscaled_div_pow {x : Decimal} {scale : Int} (h : scale ≤ x.scale) :
    (x.unscaled : ℚ) / (10 ^ (x.scale - scale).toNat : Int) = x.value * 10 ^ scale := by
  have hnat : ((x.scale - scale).toNat : Int) = x.scale - scale := by omega
  have hpow : (10 : ℚ) ^ (x.scale - scale).toNat = 10 ^ (x.scale - scale) := by
    rw [← zpow_natCast, hnat]
  push_cast
  rw [hpow, value, div_eq_mul_inv, ← zpow_neg, neg_sub, sub_eq_neg_add, zpow_add₀ (by norm_num),
    mul_assoc]

theorem rescale_eq (x : Decimal) (scale : Int) (mode : Rounding) :
    x.rescale scale mode = ⟨mode.ofRat (x.value * 10 ^ scale), scale⟩ := by
  unfold rescale
  split
  · rename_i h
    rw [← unscaledAt_cast h, Rounding.ofRat_intCast]
  · rename_i h
    rw [roundQuotient_eq mode (by positivity), unscaled_div_pow (not_le.mp h).le]

/-- A power of ten with either sign of the exponent, as a quotient of natural powers. -/
theorem pow_div_pow_neg (k : Int) : (10 : ℚ) ^ k.toNat / 10 ^ (-k).toNat = 10 ^ k := by
  cases k with
  | ofNat n => simp
  | negSucc n => simp [Int.neg_negSucc, zpow_negSucc]

/-- The two shifted coefficients have the ratio of the values at the scale. -/
theorem shifted_ratio (x y : Decimal) (scale : Int) :
    ((x.unscaled * 10 ^ (x.divisionShift y scale).toNat : Int) : ℚ) /
      (y.unscaled * 10 ^ (-x.divisionShift y scale).toNat : Int) =
        x.value / y.value * 10 ^ scale := by
  have hten : (10 : ℚ) ≠ 0 := by norm_num
  have hshift : (10 : ℚ) ^ x.divisionShift y scale =
      10 ^ (-x.scale) / 10 ^ (-y.scale) * 10 ^ scale := by
    rw [← zpow_sub₀ hten, ← zpow_add₀ hten, divisionShift]
    congr 1
    omega
  push_cast
  rw [mul_div_mul_comm, pow_div_pow_neg, hshift, value, value, mul_div_mul_comm, mul_assoc]

theorem round_eq (x : Decimal) (scale : Int) (mode : Rounding) :
    x.round scale mode = checked ⟨mode.ofRat (x.value * 10 ^ scale), scale⟩ := by
  simp only [round, rescale_eq, checkScale, checked]
  split <;> rfl

theorem divScaled_eq {x y : Decimal} (hy : y.unscaled ≠ 0) (scale : Int) (mode : Rounding) :
    x.divScaled y scale mode =
      checked ⟨mode.ofRat (x.value / y.value * 10 ^ scale), scale⟩ := by
  have hround : ∀ scale, roundQuotient mode (x.unscaled * 10 ^ (x.divisionShift y scale).toNat)
      (y.unscaled * 10 ^ (-x.divisionShift y scale).toNat) =
        mode.ofRat (x.value / y.value * 10 ^ scale) := by
    intro scale
    rw [roundQuotient_eq mode (mul_ne_zero hy (by positivity)), shifted_ratio]
  simp only [divScaled, hy, if_false, hround, checkScale, checked]
  split <;> rfl

/-- A remainder is what is left of the value without the whole multiples of the divisor. -/
theorem rem_eq_ok {x y : Decimal} (hy : y.unscaled ≠ 0) :
    ∃ z, x.rem y = .ok z ∧
      z.value = x.value - y.value * Rounding.down.ofRat (x.value / y.value) := by
  have hx : x.scale ≤ x.commonScale y := le_max_left ..
  have hy' : y.scale ≤ x.commonScale y := le_max_right ..
  have hpow : (10 : ℚ) ^ x.commonScale y ≠ 0 := zpow_ne_zero _ (by norm_num)
  have hnonzero : y.unscaledAt (x.commonScale y) ≠ 0 := mul_ne_zero hy (by positivity)
  have hratio : (x.unscaledAt (x.commonScale y) : ℚ) / y.unscaledAt (x.commonScale y) =
      x.value / y.value := by
    rw [unscaledAt_cast hx, unscaledAt_cast hy', mul_div_mul_right _ _ hpow]
  refine ⟨_, if_neg hy, ?_⟩
  rw [Int.tmod_def, tdiv_eq hnonzero, hratio, value]
  simp only [Int.cast_sub, Int.cast_mul, unscaledAt_cast hx, unscaledAt_cast hy', zpow_neg]
  field_simp

end Decimal

end Abacus
