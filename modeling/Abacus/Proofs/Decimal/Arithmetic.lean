import Abacus.Decimal.Power
import Abacus.Proofs.Decimal.Value

/-!
# Values of exact results

The operations that never round compute with values: each of them has the value that its operands
give in the rational numbers, at whatever scales these are written.  Likewise the order of decimals
is the order of their values (`compare_eq`), and dropping zeros keeps the value.
-/

namespace Abacus

/-- Two pairs with the same strict order compare in the same way. -/
theorem compare_congr {α β : Type} [LinearOrder α] [LinearOrder β] {a b : α} {c d : β}
    (hlt : a < b ↔ c < d) (hgt : b < a ↔ d < c) : compare a b = compare c d := by
  rcases lt_trichotomy a b with h | h | h
  · rw [compare_lt_iff_lt.mpr h, compare_lt_iff_lt.mpr (hlt.mp h)]
  · have hle : ¬c < d := fun hcd => (hlt.mpr hcd).ne h
    have hge : ¬d < c := fun hdc => (hgt.mpr hdc).ne h.symm
    have heq : c = d := le_antisymm (not_lt.mp hge) (not_lt.mp hle)
    rw [compare_eq_iff_eq.mpr h, compare_eq_iff_eq.mpr heq]
  · rw [compare_gt_iff_gt.mpr h, compare_gt_iff_gt.mpr (hgt.mp h)]

namespace Decimal

/-! ## Sums, differences and products -/

@[simp] theorem value_ofInt (n : Int) : (ofInt n).value = n := by
  simp [ofInt, value]

@[simp] theorem value_zero : zero.value = 0 := by
  simp [zero]

@[simp] theorem value_one : one.value = 1 := by
  simp [one]

theorem value_eq_zero_iff {x : Decimal} : x.value = 0 ↔ x.unscaled = 0 := by
  have hpow : (10 : ℚ) ^ (-x.scale) ≠ 0 := zpow_ne_zero _ (by norm_num)
  rw [value, mul_eq_zero, or_iff_left hpow, Int.cast_eq_zero]

@[simp] theorem value_add (x y : Decimal) : (x + y).value = x.value + y.value := by
  have hx : x.scale ≤ x.commonScale y := le_max_left ..
  have hy : y.scale ≤ x.commonScale y := le_max_right ..
  rw [← value_unscaledAt hx, ← value_unscaledAt hy]
  change value ⟨_, _⟩ = _
  simp only [value, Int.cast_add]
  ring

@[simp] theorem value_sub (x y : Decimal) : (x - y).value = x.value - y.value := by
  have hx : x.scale ≤ x.commonScale y := le_max_left ..
  have hy : y.scale ≤ x.commonScale y := le_max_right ..
  rw [← value_unscaledAt hx, ← value_unscaledAt hy]
  change value ⟨_, _⟩ = _
  simp only [value, Int.cast_sub]
  ring

@[simp] theorem value_abs (x : Decimal) : x.abs.value = |x.value| := by
  have hpow : (0 : ℚ) < 10 ^ (-x.scale) := zpow_pos (by norm_num) _
  rw [value, value, abs_mul, abs_of_pos hpow, ← Int.cast_abs, Int.abs_eq_natAbs]
  rfl

/-- A sum that was started has the values of all further terms added to it. -/
theorem value_foldl_add (xs : List Decimal) (start : Decimal) :
    (xs.foldl add start).value = start.value + (xs.map value).sum := by
  induction xs generalizing start with
  | nil => simp
  | cons x xs ih =>
    have hadd : (start.add x).value = start.value + x.value := value_add start x
    rw [List.foldl_cons, ih, hadd, List.map_cons, List.sum_cons, add_assoc]

@[simp] theorem value_sum (xs : List Decimal) : (sum xs).value = (xs.map value).sum := by
  rw [sum, value_foldl_add, value_zero, zero_add]

/-- A result, unless its scale is out of range. -/
def checked (z : Decimal) : Except ArithmeticError Decimal :=
  if ScaleInRange z.scale then .ok z else .error .scaleOverflow

theorem checked_eq_ok_iff {z result : Decimal} :
    checked z = .ok result ↔ ScaleInRange z.scale ∧ result = z := by
  unfold checked
  split
  · rename_i h
    simp [h, eq_comm]
  · rename_i h
    simp [h]

theorem checked_eq_error_iff {z : Decimal} :
    checked z = .error .scaleOverflow ↔ ¬ScaleInRange z.scale := by
  unfold checked
  by_cases h : ScaleInRange z.scale
  · simp [h]
  · simp [h]

/-- Checking the scale that a result is to have is checking the result. -/
theorem checkScale_bind (unscaled scale : Int) :
    (checkScale scale >>= fun scale => pure (⟨unscaled, scale⟩ : Decimal)) =
      checked ⟨unscaled, scale⟩ := by
  unfold checkScale checked
  split <;> rfl

/-- A product is the product of the values, if its scale is in range. -/
theorem mul_outcome (x y : Decimal) :
    ∃ z : Decimal, z.value = x.value * y.value ∧ x.mul y = checked z := by
  refine ⟨_, ?_, checkScale_bind (x.unscaled * y.unscaled) (x.scale + y.scale)⟩
  simp only [value, Int.cast_mul, neg_add, zpow_add₀ (show (10 : ℚ) ≠ 0 by norm_num)]
  ring

theorem value_pow (x : Decimal) (exponent : Nat) :
    value ⟨x.unscaled ^ exponent, x.scale * exponent⟩ = x.value ^ exponent := by
  simp only [value, Int.cast_pow, mul_pow, ← neg_mul, zpow_mul, zpow_natCast]

/-- A power is the power of the value, if its scale is in range. -/
theorem pow_outcome (x : Decimal) (exponent : Nat) :
    ∃ z : Decimal, z.value = x.value ^ exponent ∧ x.pow exponent = checked z :=
  ⟨_, value_pow x exponent, checkScale_bind (x.unscaled ^ exponent) (x.scale * exponent)⟩

/-! ## The order -/

theorem unscaledAt_sign (x : Decimal) (scale : Int) :
    (x.unscaledAt scale).sign = x.unscaled.sign := by
  have hpow : (10 ^ (scale - x.scale).toNat : Int).sign = 1 :=
    Int.sign_eq_one_of_pos (by positivity)
  rw [unscaledAt, Int.sign_mul, hpow, mul_one]

theorem sign_cases (n : Int) :
    n < 0 ∧ n.sign = -1 ∨ n = 0 ∧ n.sign = 0 ∨ 0 < n ∧ n.sign = 1 := by
  rcases lt_trichotomy n 0 with h | h | h
  · exact .inl ⟨h, Int.sign_eq_neg_one_of_neg h⟩
  · exact .inr (.inl ⟨h, by simp [h]⟩)
  · exact .inr (.inr ⟨h, Int.sign_eq_one_of_pos h⟩)

/-- Numbers that their signs order are ordered in the same way. -/
theorem lt_of_sign_lt_sign {a b : Int} (h : a.sign < b.sign) : a < b := by
  have ha := sign_cases a
  have hb := sign_cases b
  omega

theorem compare_sign_then (a b : Int) :
    (Ord.compare a.sign b.sign).then (Ord.compare a b) = Ord.compare a b := by
  rcases lt_trichotomy a.sign b.sign with h | h | h
  · simp [compare_lt_iff_lt.mpr h, compare_lt_iff_lt.mpr (lt_of_sign_lt_sign h)]
  · simp [h]
  · simp [compare_gt_iff_gt.mpr h, compare_gt_iff_gt.mpr (lt_of_sign_lt_sign h)]

/-- The order of decimals is that of their values. -/
theorem compare_eq (x y : Decimal) : x.compare y = Ord.compare x.value y.value := by
  have hx : x.scale ≤ x.commonScale y := le_max_left ..
  have hy : y.scale ≤ x.commonScale y := le_max_right ..
  have hpow : (0 : ℚ) < 10 ^ x.commonScale y := zpow_pos (by norm_num) _
  have hcompare : x.compare y =
      Ord.compare (x.unscaledAt (x.commonScale y)) (y.unscaledAt (x.commonScale y)) := by
    rw [compare, ← unscaledAt_sign x (x.commonScale y), ← unscaledAt_sign y (x.commonScale y)]
    exact compare_sign_then _ _
  have hlt : ∀ a b : Decimal, a.scale ≤ x.commonScale y → b.scale ≤ x.commonScale y →
      (a.unscaledAt (x.commonScale y) < b.unscaledAt (x.commonScale y) ↔ a.value < b.value) := by
    intro a b ha hb
    rw [← Int.cast_lt (R := ℚ), unscaledAt_cast ha, unscaledAt_cast hb]
    exact mul_lt_mul_iff_of_pos_right hpow
  rw [hcompare]
  exact compare_congr (hlt x y hx hy) (hlt y x hy hx)

theorem sameValue_iff {x y : Decimal} : x.sameValue y = true ↔ x.value = y.value := by
  rw [sameValue, beq_iff_eq, compare_eq, compare_eq_iff_eq]

@[simp] theorem value_max (x y : Decimal) : (x.max y).value = max x.value y.value := by
  simp only [Decimal.max, compare_eq, compare_gt_iff_gt]
  split
  · rename_i h
    rw [max_eq_left h.le]
  · rename_i h
    rw [max_eq_right (not_lt.mp h)]

@[simp] theorem value_min (x y : Decimal) : (x.min y).value = min x.value y.value := by
  simp only [Decimal.min, compare_eq, compare_gt_iff_gt]
  split
  · rename_i h
    rw [min_eq_right h.le]
  · rename_i h
    rw [min_eq_left (not_lt.mp h)]

/-! ## Trailing zeros -/

@[simp] theorem value_dropZeros (x : Decimal) (limit : Nat) :
    (x.dropZeros limit).value = x.value := by
  have hstrip := pow_mul_stripFactor 10 limit x.unscaled.natAbs
  generalize hresult : stripFactor 10 limit x.unscaled.natAbs = result at hstrip
  obtain ⟨count, rest⟩ := result
  have hunscaled : (x.unscaled : ℚ) = x.unscaled.sign * (10 ^ count * rest : ℕ) := by
    rw [hstrip, ← Int.cast_natCast, ← Int.cast_mul, Int.sign_mul_natAbs]
  have hscale : -(x.scale - count) = -x.scale + count := by omega
  rw [value, value, hunscaled, dropZeros, hresult]
  simp only [hscale, zpow_add₀ (show (10 : ℚ) ≠ 0 by norm_num), zpow_natCast]
  push_cast
  ring

@[simp] theorem value_stripZeros (x : Decimal) (least : Int) :
    (x.stripZeros least).value = x.value := by
  unfold stripZeros
  split
  · rename_i h
    rw [value_eq_zero_iff.mpr h]
    simp [value]
  · exact value_dropZeros x _

@[simp] theorem value_normalized (x : Decimal) : x.normalized.value = x.value := by
  unfold normalized
  split
  · rename_i h
    rw [value_eq_zero_iff.mpr h, value_zero]
  · exact value_dropZeros x _

end Decimal

end Abacus
