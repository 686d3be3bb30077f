import Abacus.Decimal.Root
import Abacus.Proofs.Decimal.Whole

/-!
# Operations depend on values

Numbers of one value may be written at different scales.  An operation on the one writing and on the
other gives numbers of one value, or fails in the same way; only whether a scale is out of range
depends on the writing.  That is `Agree`, and it holds of every operation but the square root and what
is computed in floating point.
-/

namespace Abacus

namespace Decimal

/-- Two results are numbers of one value or one error, as far as scales are in range. -/
inductive Agree : Except ArithmeticError Decimal → Except ArithmeticError Decimal → Prop
  | ok {z z' : Decimal} (h : z.value = z'.value) : Agree (.ok z) (.ok z')
  | error (error : ArithmeticError) : Agree (.error error) (.error error)
  | overflowLeft (result : Except ArithmeticError Decimal) : Agree (.error .scaleOverflow) result
  | overflowRight (result : Except ArithmeticError Decimal) : Agree result (.error .scaleOverflow)

theorem Agree.refl (result : Except ArithmeticError Decimal) : Agree result result := by
  cases result with
  | ok z => exact .ok rfl
  | error error => exact .error error

theorem Agree.checked {z z' : Decimal} (h : z.value = z'.value) :
    Agree (checked z) (checked z') := by
  unfold Decimal.checked
  split
  · split
    · exact .ok h
    · exact .overflowRight _
  · exact .overflowLeft _

theorem Agree.bind {r r' : Except ArithmeticError Decimal}
    {f f' : Decimal → Except ArithmeticError Decimal} (h : Agree r r')
    (hf : ∀ z z', z.value = z'.value → Agree (f z) (f' z')) : Agree (r >>= f) (r' >>= f') := by
  cases h with
  | ok hvalue => exact hf _ _ hvalue
  | error error => exact .error error
  | overflowLeft result => exact .overflowLeft _
  | overflowRight result => exact .overflowRight _

variable {x x' y y' : Decimal}

theorem unscaled_eq_zero_congr (hx : x.value = x'.value) : x.unscaled = 0 ↔ x'.unscaled = 0 := by
  rw [← value_eq_zero_iff, hx, value_eq_zero_iff]

theorem mul_agree (hx : x.value = x'.value) (hy : y.value = y'.value) :
    Agree (x.mul y) (x'.mul y') := by
  obtain ⟨z, hvalue, hmul⟩ := mul_outcome x y
  obtain ⟨z', hvalue', hmul'⟩ := mul_outcome x' y'
  rw [hmul, hmul']
  exact .checked (by rw [hvalue, hvalue', hx, hy])

theorem pow_agree (hx : x.value = x'.value) (exponent : Nat) :
    Agree (x.pow exponent) (x'.pow exponent) := by
  obtain ⟨z, hvalue, hpow⟩ := pow_outcome x exponent
  obtain ⟨z', hvalue', hpow'⟩ := pow_outcome x' exponent
  rw [hpow, hpow']
  exact .checked (by rw [hvalue, hvalue', hx])

/-- Exact quotients exist together, and are then checked for their scales only. -/
theorem div_together (hx : x.value = x'.value) (hy : y.value = y'.value)
    (hnonzero : y.unscaled ≠ 0) :
    x.div y = .error .nonTerminating ∧ x'.div y' = .error .nonTerminating ∨
      ∃ z z' : Decimal, z.value = z'.value ∧ x.div y = checked z ∧ x'.div y' = checked z' := by
  have hnonzero' : y'.unscaled ≠ 0 := mt (unscaled_eq_zero_congr hy).mpr hnonzero
  rcases div_outcome x hnonzero with ⟨hdiv, hnone⟩ | ⟨z, hvalue, hdiv⟩
  · rcases div_outcome x' hnonzero' with ⟨hdiv', _⟩ | ⟨z', hvalue', _⟩
    · exact .inl ⟨hdiv, hdiv'⟩
    · exact absurd (by rw [hvalue', hx, hy]) (hnone z')
  · rcases div_outcome x' hnonzero' with ⟨_, hnone'⟩ | ⟨z', hvalue', hdiv'⟩
    · exact absurd (by rw [hvalue, hx, hy]) (hnone' z)
    · exact .inr ⟨z, z', by rw [hvalue, hvalue', hx, hy], hdiv, hdiv'⟩

theorem div_agree (hx : x.value = x'.value) (hy : y.value = y'.value) :
    Agree (x.div y) (x'.div y') := by
  by_cases hzero : y.unscaled = 0
  · rw [div, div, if_pos hzero, if_pos ((unscaled_eq_zero_congr hy).mp hzero)]
    exact .error _
  · rcases div_together hx hy hzero with ⟨hdiv, hdiv'⟩ | ⟨z, z', hvalue, hdiv, hdiv'⟩
    · rw [hdiv, hdiv']
      exact .error _
    · rw [hdiv, hdiv']
      exact .checked hvalue

/-- Scaled quotients are the same down to their digits. -/
theorem divScaled_congr (hx : x.value = x'.value) (hy : y.value = y'.value) (scale : Int)
    (mode : Rounding) : x.divScaled y scale mode = x'.divScaled y' scale mode := by
  by_cases hzero : y.unscaled = 0
  · rw [divScaled, divScaled, if_pos hzero, if_pos ((unscaled_eq_zero_congr hy).mp hzero)]
  · rw [divScaled_eq hzero, divScaled_eq (mt (unscaled_eq_zero_congr hy).mpr hzero), hx, hy]

theorem divScaled_agree (hx : x.value = x'.value) (hy : y.value = y'.value) (scale : Int)
    (mode : Rounding) : Agree (x.divScaled y scale mode) (x'.divScaled y' scale mode) := by
  rw [divScaled_congr hx hy]
  exact .refl _

theorem division_agree (division : Division) (hx : x.value = x'.value) (hy : y.value = y'.value) :
    Agree (division.apply x y) (division.apply x' y') := by
  cases division with
  | exact => exact div_agree hx hy
  | scaled scale mode => exact divScaled_agree hx hy scale mode

theorem rem_agree (hx : x.value = x'.value) (hy : y.value = y'.value) :
    Agree (x.rem y) (x'.rem y') := by
  by_cases hzero : y.unscaled = 0
  · rw [rem, rem, if_pos hzero, if_pos ((unscaled_eq_zero_congr hy).mp hzero)]
    exact .error _
  · obtain ⟨z, hrem, hvalue⟩ := rem_eq_ok (x := x) hzero
    obtain ⟨z', hrem', hvalue'⟩ := rem_eq_ok (x := x') (mt (unscaled_eq_zero_congr hy).mpr hzero)
    rw [hrem, hrem']
    exact .ok (by rw [hvalue, hvalue', hx, hy])

theorem rescale_congr (hx : x.value = x'.value) (scale : Int) (mode : Rounding) :
    x.rescale scale mode = x'.rescale scale mode := by
  rw [rescale_eq, rescale_eq, hx]

theorem round_congr (hx : x.value = x'.value) (scale : Int) (mode : Rounding) :
    x.round scale mode = x'.round scale mode := by
  rw [round_eq, round_eq, hx]

/-! ## Powers -/

theorem isInteger_congr (hx : x.value = x'.value) : x.isInteger = x'.isInteger := by
  rw [Bool.eq_iff_iff, isInteger_iff, isInteger_iff, hx]

theorem toInt64?_congr (hx : x.value = x'.value) : x.toInt64? = x'.toInt64? := by
  rw [toInt64?_eq, toInt64?_eq, hx]

theorem smallInteger?_congr (hx : x.value = x'.value) : x.smallInteger? = x'.smallInteger? := by
  rw [smallInteger?, smallInteger?, isInteger_congr hx, toInt64?_congr hx]

/-- An exact reciprocal is taken as it is. -/
theorem reciprocal_of_div {z : Decimal} (h : one.div x = Decimal.checked z) (precision : Nat) :
    x.reciprocal precision = Decimal.checked z := by
  rw [reciprocal, h]
  by_cases hscale : ScaleInRange z.scale
  · rw [Decimal.checked, if_pos hscale]
  · rw [Decimal.checked, if_neg hscale]

theorem reciprocal_agree (hx : x.value = x'.value) (precision : Nat) :
    Agree (x.reciprocal precision) (x'.reciprocal precision) := by
  by_cases hzero : x.unscaled = 0
  · have hzero' := (unscaled_eq_zero_congr hx).mp hzero
    simp only [reciprocal, div, hzero, hzero', if_true]
    exact .error _
  · rcases div_together (x := one) rfl hx hzero with ⟨hdiv, hdiv'⟩ | ⟨z, z', hvalue, hdiv, hdiv'⟩
    · simp only [reciprocal, hdiv, hdiv']
      exact divScaled_agree rfl hx precision .halfEven
    · rw [reciprocal_of_div hdiv, reciprocal_of_div hdiv']
      exact .checked hvalue

/-- A power with a small whole exponent is not computed in floating point. -/
theorem powDecimal_agree_of_small (hx : x.value = x'.value) (hy : y.value = y'.value) {n : Int}
    (hn : y.smallInteger? = some n) (precision : Nat) :
    Agree (x.powDecimal y precision) (x'.powDecimal y' precision) := by
  have hn' : y'.smallInteger? = some n := (smallInteger?_congr hy).symm.trans hn
  unfold powDecimal
  rw [hn, hn']
  cases n with
  | ofNat n => exact pow_agree hx n
  | negSucc n =>
    exact (pow_agree hx (n + 1)).bind fun z z' hvalue => reciprocal_agree hvalue precision

/-- Powers depend on the values too, if the operands of a power that is computed in floating point
are converted to the same binary numbers. -/
theorem powDecimal_agree (hx : x.value = x'.value) (hy : y.value = y'.value)
    (hxbits : x.toBits = x'.toBits) (hybits : y.toBits = y'.toBits) (precision : Nat) :
    Agree (x.powDecimal y precision) (x'.powDecimal y' precision) := by
  cases hn : y.smallInteger? with
  | some n => exact powDecimal_agree_of_small hx hy hn precision
  | none =>
    have hn' : y'.smallInteger? = none := (smallInteger?_congr hy).symm.trans hn
    unfold powDecimal
    rw [hn, hn', toFloat, toFloat, toFloat, toFloat, hxbits, hybits]
    exact .refl _

/-! ## Square roots -/

/-- The square roots have one value, or there are none. -/
def SameRoot (precision : Nat) (x x' : Decimal) : Prop :=
  (x.sqrtWithPrecision precision).map value = (x'.sqrtWithPrecision precision).map value

theorem rootScale_nonneg (x : Decimal) (precision : Nat) : 0 ≤ x.rootScale precision := by
  rw [rootScale]
  omega

/-- Twice the scale of the root is enough to write the number itself. -/
theorem scale_le_two_mul_rootScale (x : Decimal) (precision : Nat) :
    x.scale ≤ 2 * x.rootScale precision := by
  rw [rootScale]
  omega

/-- The integer whose root is taken is the value at twice the scale of the root. -/
theorem radicand_eq (x : Decimal) (precision : Nat) :
    x.unscaled.natAbs * 10 ^ (2 * x.rootScale precision - x.scale).toNat =
      (x.unscaledAt (2 * x.rootScale precision)).natAbs := by
  rw [unscaledAt, Int.natAbs_mul, Int.natAbs_pow]
  rfl

/-- The root depends on the scale only through the number of digits after the point. -/
theorem sameRoot_of_scale (hx : x.value = x'.value) (hscale : max x.scale 0 = max x'.scale 0)
    (precision : Nat) : x.SameRoot precision x' := by
  have hroot : x.rootScale precision = x'.rootScale precision := by
    rw [rootScale, rootScale, hscale]
  have hle : x.scale ≤ 2 * x.rootScale precision := scale_le_two_mul_rootScale x precision
  have hle' : x'.scale ≤ 2 * x.rootScale precision := by
    rw [hroot]
    exact scale_le_two_mul_rootScale x' precision
  have hunscaled : x.unscaledAt (2 * x.rootScale precision) =
      x'.unscaledAt (2 * x.rootScale precision) := by
    rw [← Int.cast_inj (α := ℚ), unscaledAt_cast hle, unscaledAt_cast hle', hx]
  have hsign : x.unscaled.sign = x'.unscaled.sign := by
    rw [← unscaledAt_sign x (2 * x.rootScale precision), hunscaled, unscaledAt_sign]
  have hnegative : x.unscaled < 0 ↔ x'.unscaled < 0 := by
    rw [← Int.sign_eq_neg_one_iff_neg, hsign, Int.sign_eq_neg_one_iff_neg]
  have hradicand : x.unscaled.natAbs * 10 ^ (2 * x'.rootScale precision - x.scale).toNat =
      x'.unscaled.natAbs * 10 ^ (2 * x'.rootScale precision - x'.scale).toNat := by
    rw [radicand_eq x', ← hroot, radicand_eq x, hunscaled]
  simp only [SameRoot, sqrtWithPrecision, hroot, hradicand, hnegative]

end Decimal

end Abacus
