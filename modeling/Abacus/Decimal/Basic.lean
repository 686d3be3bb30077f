/-!
# Exact decimals

A decimal is an integer coefficient with a scale, `unscaled * 10 ^ (-scale)`.  The scale is part of
the number that is written, not of its value: `1.50` and `1.5` are two decimals of one value.

This module holds the type, the checked range of scales, the operations that never round, the
order by value, and `stripZeros` / `normalized`, which choose among the decimals of one value.
-/

namespace Abacus

-- powers are those of the core library, with or without other instances in scope
attribute [local instance (2000)] instPowNat

/-- Why an operation on decimals has no answer. -/
inductive ArithmeticError where
  /-- The divisor of a quotient or remainder is zero. -/
  | divisionByZero
  /-- An exact quotient has no finite decimal expansion. -/
  | nonTerminating
  /-- A floating-point computation gave infinity or no number at all. -/
  | notFinite
  /-- The scale of the result is out of range. -/
  | scaleOverflow
deriving DecidableEq

/-- The text that reports an arithmetic error. -/
def ArithmeticError.message : ArithmeticError → String
  | .divisionByZero => "Division by zero"
  | .nonTerminating => "Non-terminating decimal expansion; no exact representable result"
  | .notFinite => "Result is not a finite number"
  | .scaleOverflow => "Scale of the result is out of range"

/-- Scales of results are kept within the signed 32-bit integers. -/
def ScaleInRange (scale : Int) : Prop :=
  -2147483648 ≤ scale ∧ scale ≤ 2147483647

instance (scale : Int) : Decidable (ScaleInRange scale) := by
  unfold ScaleInRange; infer_instance

/-- The scale itself, if it is in range. -/
def checkScale (scale : Int) : Except ArithmeticError Int :=
  if ScaleInRange scale then .ok scale else .error .scaleOverflow

/-- `stripFactor f limit n` divides `n` by `f` while `f` divides it, at most `limit` times.  The
pair says how often that was and what is left. -/
def stripFactor (f : Nat) : Nat → Nat → Nat × Nat
  | 0, n => (0, n)
  | limit + 1, n =>
    if n % f = 0 then
      let (count, rest) := stripFactor f limit (n / f)
      (count + 1, rest)
    else (0, n)

/-- What is divided out and what is left multiply to the number. -/
theorem pow_mul_stripFactor (f limit n : Nat) :
    f ^ (stripFactor f limit n).1 * (stripFactor f limit n).2 = n := by
  induction limit generalizing n with
  | zero => simp [stripFactor]
  | succ limit ih =>
    simp only [stripFactor]
    split
    · rename_i h
      rw [Nat.pow_succ, Nat.mul_right_comm, ih]
      exact Nat.div_mul_cancel (Nat.dvd_of_mod_eq_zero h)
    · simp

theorem stripFactor_count_le (f limit n : Nat) : (stripFactor f limit n).1 ≤ limit := by
  induction limit generalizing n with
  | zero => simp [stripFactor]
  | succ limit ih =>
    simp only [stripFactor]
    split
    · exact Nat.succ_le_succ (ih (n / f))
    · exact Nat.zero_le _

/-- Short of the limit, the factor does not divide what is left. -/
theorem stripFactor_rest_mod_ne_zero {f limit n : Nat} (h : (stripFactor f limit n).1 < limit) :
    (stripFactor f limit n).2 % f ≠ 0 := by
  induction limit generalizing n with
  | zero => exact absurd h (Nat.not_lt_zero _)
  | succ limit ih =>
    simp only [stripFactor] at h ⊢
    split at h
    · rename_i hf
      simp only [hf, if_true]
      exact ih (Nat.lt_of_succ_lt_succ h)
    · rename_i hf
      simp [hf]

/-- The exact decimal `unscaled * 10 ^ (-scale)`.  Equality of this type is equality of what is
written; `Decimal.compare` compares values. -/
structure Decimal where
  /-- All digits, with the sign. -/
  unscaled : Int
  /-- How many of the digits stand after the point; negative for numbers such as `2.5e3`. -/
  scale : Int
deriving DecidableEq

namespace Decimal

/-- The whole number `n`, with scale zero. -/
def ofInt (n : Int) : Decimal := ⟨n, 0⟩

/-- Zero with scale zero. -/
def zero : Decimal := ofInt 0

/-- One with scale zero. -/
def one : Decimal := ofInt 1

instance : Inhabited Decimal := ⟨zero⟩

/-- The number is zero, at whatever scale. -/
def isZero (x : Decimal) : Bool := x.unscaled == 0

/-- The number is strictly less than zero. -/
def isNegative (x : Decimal) : Bool := x.unscaled < 0

/-- The number is strictly greater than zero. -/
def isPositive (x : Decimal) : Bool := 0 < x.unscaled

/-- The coefficient of `x` written at `scale`.  It is exact when `x.scale ≤ scale`. -/
def unscaledAt (x : Decimal) (scale : Int) : Int :=
  x.unscaled * 10 ^ (scale - x.scale).toNat

@[simp] theorem unscaledAt_self (x : Decimal) : x.unscaledAt x.scale = x.unscaled := by
  simp [unscaledAt]

/-- The scale at which both numbers can be written exactly. -/
def commonScale (x y : Decimal) : Int := max x.scale y.scale

/-- The exact sum, at the larger of the two scales. -/
def add (x y : Decimal) : Decimal :=
  let scale := x.commonScale y
  ⟨x.unscaledAt scale + y.unscaledAt scale, scale⟩

/-- The exact difference, at the larger of the two scales. -/
def sub (x y : Decimal) : Decimal :=
  let scale := x.commonScale y
  ⟨x.unscaledAt scale - y.unscaledAt scale, scale⟩

/-- The negated number, at the same scale. -/
def neg (x : Decimal) : Decimal := ⟨-x.unscaled, x.scale⟩

/-- The absolute value, at the same scale. -/
def abs (x : Decimal) : Decimal := ⟨x.unscaled.natAbs, x.scale⟩

instance : Add Decimal := ⟨add⟩

instance : Sub Decimal := ⟨sub⟩

instance : Neg Decimal := ⟨neg⟩

/-- The exact product.  Its scale is the sum of the scales, if that is in range. -/
def mul (x y : Decimal) : Except ArithmeticError Decimal := do
  let scale ← checkScale (x.scale + y.scale)
  return ⟨x.unscaled * y.unscaled, scale⟩

/-- The exact sum of a list, from the left, starting at zero with scale zero. -/
def sum (xs : List Decimal) : Decimal := xs.foldl add zero

/-- The order of the values.  Signs decide first, so numbers of different sign are never brought
to a common scale. -/
def compare (x y : Decimal) : Ordering :=
  (Ord.compare x.unscaled.sign y.unscaled.sign).then
    (let scale := x.commonScale y
     Ord.compare (x.unscaledAt scale) (y.unscaledAt scale))

/-- The two numbers have one value. -/
def sameValue (x y : Decimal) : Bool := x.compare y == .eq

/-- The value of `x` is less than that of `y`. -/
def isLess (x y : Decimal) : Bool := x.compare y == .lt

/-- The value of `x` is at most that of `y`. -/
def isAtMost (x y : Decimal) : Bool := x.compare y != .gt

/-- The greater of two numbers; `y` if their values are equal. -/
protected def max (x y : Decimal) : Decimal := if x.compare y = .gt then x else y

/-- The lesser of two numbers; `x` if their values are equal. -/
protected def min (x y : Decimal) : Decimal := if x.compare y = .gt then y else x

/-- The numbers in ascending order of value.  Numbers of one value keep their order. -/
def sort (xs : List Decimal) : List Decimal := xs.mergeSort isAtMost

/-- The number with up to `limit` trailing zeros of its coefficient removed, its value kept. -/
def dropZeros (x : Decimal) (limit : Nat) : Decimal :=
  let (count, rest) := stripFactor 10 limit x.unscaled.natAbs
  ⟨x.unscaled.sign * rest, x.scale - count⟩

/-- Removes trailing zeros while the scale stays at or above `least`.  Zero has no digits to keep
and gets the scale `max least 0`. -/
def stripZeros (x : Decimal) (least : Int) : Decimal :=
  if x.unscaled = 0 then ⟨0, max least 0⟩ else x.dropZeros (x.scale - least).toNat

/-- The one representative of a value: all trailing zeros removed, and zero with scale zero. -/
def normalized (x : Decimal) : Decimal :=
  if x.unscaled = 0 then zero else x.dropZeros x.unscaled.natAbs

/-- What a number gives to a hasher, in this order: the coefficient and the scale of its normalized
form. -/
def hashData (x : Decimal) : Int × Int := (x.normalized.unscaled, x.normalized.scale)

/-- How many different values are in the list: equal values share their normalized form. -/
def countDistinct (xs : List Decimal) : Nat := (xs.map normalized).eraseDups.length

/-- The value has no fractional part. -/
def isInteger (x : Decimal) : Bool := x.normalized.scale ≤ 0

/-- The value truncated towards zero, if it fits into a signed 64-bit integer.  A number other
than zero whose scale is below `-18` has more than nineteen digits and cannot fit. -/
def toInt64? (x : Decimal) : Option Int :=
  if x.unscaled = 0 then some 0
  else if x.scale < -18 then none
  else
    let whole := if x.scale ≤ 0 then x.unscaledAt 0 else x.unscaled.tdiv (10 ^ x.scale.toNat)
    if -9223372036854775808 ≤ whole ∧ whole ≤ 9223372036854775807 then some whole else none

end Decimal

end Abacus
