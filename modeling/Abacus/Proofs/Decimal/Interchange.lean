import Abacus.Proofs.Decimal.NormalForm
import Abacus.Proofs.Decimal.ScaleRange

/-!
# Equal numbers are interchangeable

Two decimals are equal if they compare as equal, however they are written.  Then no operation tells
them apart: in its operands equal numbers may be put for one another, and the result is an equal number,
the same error or the same answer.  Only whether a scale is out of range depends on the writing, in the
operations that compute one from the scales of their operands.

A value has one normalized form (`normalized_congr`).  It is what stands for the number in a table, so
equal numbers are one entry there.  The main statement is `interchangeable_of_sameValue`.
-/

namespace Abacus.Decimal

variable {x x' y y' : Decimal}

/-- Two results are equal: equal numbers or one error. -/
def SameResult : Except ArithmeticError Decimal → Except ArithmeticError Decimal → Prop
  | .ok z, .ok z' => z.sameValue z' = true
  | .error error, .error error' => error = error'
  | _, _ => False

/-- Two results are equal, unless a scale is out of range in one of them. -/
def SameUnlessOverflow (result result' : Except ArithmeticError Decimal) : Prop :=
  result = .error .scaleOverflow ∨ result' = .error .scaleOverflow ∨ SameResult result result'

theorem Agree.sameUnlessOverflow {result result' : Except ArithmeticError Decimal}
    (h : Agree result result') : SameUnlessOverflow result result' := by
  cases h with
  | ok hvalue => exact .inr (.inr (sameValue_iff.mpr hvalue))
  | error error => exact .inr (.inr rfl)
  | overflowLeft result' => exact .inl rfl
  | overflowRight result => exact .inr (.inl rfl)

/-- What the operations on two numbers, or on the first of them, cannot tell apart. -/
structure Interchangeable (x y x' y' : Decimal) : Prop where
  add : (x + y).sameValue (x' + y') = true
  sub : (x - y).sameValue (x' - y') = true
  rem : SameResult (x.rem y) (x'.rem y')
  neg : (-x).sameValue (-x') = true
  abs : x.abs.sameValue x'.abs = true
  min : (x.min y).sameValue (x'.min y') = true
  max : (x.max y).sameValue (x'.max y') = true
  mul : SameUnlessOverflow (x.mul y) (x'.mul y')
  div : SameUnlessOverflow (x.div y) (x'.div y')
  pow (exponent : Nat) : SameUnlessOverflow (x.pow exponent) (x'.pow exponent)
  powDecimal {n : Int} (hvalue : y.value = n) (hn : -2147483648 ≤ n ∧ n ≤ 2147483647)
    (precision : Nat) : SameUnlessOverflow (x.powDecimal y precision) (x'.powDecimal y' precision)
  round (scale : Int) (mode : Rounding) : x.round scale mode = x'.round scale mode
  divScaled (scale : Int) (mode : Rounding) :
    x.divScaled y scale mode = x'.divScaled y' scale mode
  compare : x.compare y = x'.compare y'
  isZero : x.isZero = x'.isZero
  isNegative : x.isNegative = x'.isNegative
  isPositive : x.isPositive = x'.isPositive
  isInteger : x.isInteger = x'.isInteger
  toInt64? : x.toInt64? = x'.toInt64?
  normalized : x.normalized = x'.normalized

/-! ## Signs and forms -/

theorem value_neg (x : Decimal) : (-x).value = -x.value := by
  change value ⟨-x.unscaled, x.scale⟩ = _
  rw [value, value, Int.cast_neg, neg_mul]

theorem isZero_congr (hx : x.value = x'.value) : x.isZero = x'.isZero := by
  rw [Bool.eq_iff_iff, isZero, isZero, beq_iff_eq, beq_iff_eq]
  exact unscaled_eq_zero_congr hx

theorem isNegative_congr (hx : x.value = x'.value) : x.isNegative = x'.isNegative := by
  rw [isNegative, isNegative, decide_eq_decide, ← not_le, ← not_le, ← value_nonneg_iff,
    ← value_nonneg_iff, hx]

theorem isPositive_congr (hx : x.value = x'.value) : x.isPositive = x'.isPositive := by
  have hpositive : ∀ a : Decimal, 0 < a.unscaled ↔ 0 < a.value := by
    intro a
    rw [lt_iff_le_and_ne, lt_iff_le_and_ne, value_nonneg_iff, ne_comm, ne_comm (a := (0 : ℚ)),
      Ne, Ne, value_eq_zero_iff]
  rw [isPositive, isPositive, decide_eq_decide, hpositive, hpositive, hx]

/-! ## Operations -/

/-- A remainder needs no scale but those of its operands. -/
theorem rem_same (hx : x.value = x'.value) (hy : y.value = y'.value) :
    SameResult (x.rem y) (x'.rem y') := by
  have hchecked : ∀ a b : Decimal, a.rem b ≠ .error .scaleOverflow := by
    intro a b
    rw [Decimal.rem]
    split <;> simp
  rcases (rem_agree hx hy).sameUnlessOverflow with hover | hover | hsame
  · exact absurd hover (hchecked x y)
  · exact absurd hover (hchecked x' y')
  · exact hsame

/-- Equal numbers can be put for one another in every operation. -/
theorem interchangeable_of_sameValue (hx : x.sameValue x' = true) (hy : y.sameValue y' = true) :
    Interchangeable x y x' y' := by
  rw [sameValue_iff] at hx hy
  exact {
    add := sameValue_iff.mpr (by rw [value_add, value_add, hx, hy])
    sub := sameValue_iff.mpr (by rw [value_sub, value_sub, hx, hy])
    rem := rem_same hx hy
    neg := sameValue_iff.mpr (by rw [value_neg, value_neg, hx])
    abs := sameValue_iff.mpr (by rw [value_abs, value_abs, hx])
    min := sameValue_iff.mpr (by rw [value_min, value_min, hx, hy])
    max := sameValue_iff.mpr (by rw [value_max, value_max, hx, hy])
    mul := (mul_agree hx hy).sameUnlessOverflow
    div := (div_agree hx hy).sameUnlessOverflow
    pow := fun exponent => (pow_agree hx exponent).sameUnlessOverflow
    powDecimal := fun hvalue hn precision =>
      have hsmall := smallInteger?_of_value hvalue hn
      (powDecimal_agree_of_small hx hy hsmall precision).sameUnlessOverflow
    round := round_congr hx
    divScaled := divScaled_congr hx hy
    compare := by rw [compare_eq, compare_eq, hx, hy]
    isZero := isZero_congr hx
    isNegative := isNegative_congr hx
    isPositive := isPositive_congr hx
    isInteger := isInteger_congr hx
    toInt64? := toInt64?_congr hx
    normalized := normalized_congr hx }

/-- Zeros on both sides of the point, in a number and in a negative whole exponent. -/
theorem interchangeable_of_zeros :
    (⟨25, -1⟩ : Decimal).sameValue ⟨25000, 2⟩ = true ∧ (⟨-3, 0⟩ : Decimal).sameValue ⟨-300, 2⟩ = true ∧
      Interchangeable ⟨25, -1⟩ ⟨-3, 0⟩ ⟨25000, 2⟩ ⟨-300, 2⟩ ∧
      SameUnlessOverflow (powDecimal ⟨25, -1⟩ ⟨-3, 0⟩ 4) (powDecimal ⟨25000, 2⟩ ⟨-300, 2⟩ 4) := by
  have hx : (⟨25, -1⟩ : Decimal).sameValue ⟨25000, 2⟩ = true := by decide
  have hy : (⟨-3, 0⟩ : Decimal).sameValue ⟨-300, 2⟩ = true := by decide
  have hboth := interchangeable_of_sameValue hx hy
  have hexponent : (⟨-3, 0⟩ : Decimal).value = (-3 : Int) := value_ofInt (-3)
  exact ⟨hx, hy, hboth, hboth.powDecimal hexponent (by decide) 4⟩

end Abacus.Decimal
