import Abacus.Decimal.Basic

/-!
# Rounding

Seven ways to round a quotient of integers to an integer, and rounding of a decimal to a given
scale.  `roundQuotient` starts from the quotient truncated towards zero and moves it by at most one
unit away from zero.
-/

namespace Abacus

-- powers are those of the core library, with or without other instances in scope
attribute [local instance (2000)] instPowNat

/-- Which integer stands for a quotient that is not whole. -/
inductive Rounding where
  /-- Away from zero. -/
  | up
  /-- Towards zero. -/
  | down
  /-- Towards positive infinity. -/
  | ceiling
  /-- Towards negative infinity. -/
  | floor
  /-- To the nearest; a half goes away from zero. -/
  | halfUp
  /-- To the nearest; a half goes towards zero. -/
  | halfDown
  /-- To the nearest; a half goes to the even neighbour. -/
  | halfEven
deriving DecidableEq

instance : Inhabited Rounding := ⟨.halfEven⟩

/-- Whether a quotient that is not whole moves away from zero.  `positive` is its sign, `half` the
order of its dropped fraction and one half, and `truncated` the quotient without the fraction. -/
def Rounding.awayFromZero (mode : Rounding) (positive : Bool) (half : Ordering)
    (truncated : Int) : Bool :=
  match mode with
  | .up => true
  | .down => false
  | .ceiling => positive
  | .floor => !positive
  | .halfUp => half != .lt
  | .halfDown => half == .gt
  | .halfEven => half == .gt || (half == .eq && truncated % 2 != 0)

/-- The quotient of two integers, rounded to an integer. -/
def roundQuotient (mode : Rounding) (numerator denominator : Int) : Int :=
  let truncated := numerator.tdiv denominator
  let remainder := numerator.tmod denominator
  if remainder = 0 then truncated
  else
    let positive := decide (numerator < 0) == decide (denominator < 0)
    let half := compare (2 * remainder.natAbs) denominator.natAbs
    if mode.awayFromZero positive half truncated then
      if positive then truncated + 1 else truncated - 1
    else truncated

namespace Decimal

/-- The number written with exactly `scale` digits after the point, for a scale in range. -/
def rescale (x : Decimal) (scale : Int) (mode : Rounding) : Decimal :=
  if x.scale ≤ scale then ⟨x.unscaledAt scale, scale⟩
  else ⟨roundQuotient mode x.unscaled (10 ^ (x.scale - scale).toNat), scale⟩

/-- The number written with exactly `scale` digits after the point, if the scale is in range. -/
def round (x : Decimal) (scale : Int) (mode : Rounding) : Except ArithmeticError Decimal := do
  let scale ← checkScale scale
  return x.rescale scale mode

/-- Rounds to two digits after the point; a half goes to the even neighbour. -/
def roundToCents (x : Decimal) : Decimal := x.rescale 2 .halfEven

end Decimal

end Abacus
