import Abacus.Decimal.Rounding

/-!
# Quotients and remainders

`Decimal.div` is the exact quotient, which exists when the reduced divisor has no prime factor but
two and five.  `Decimal.divScaled` is the quotient rounded to a given scale, and `Decimal.rem` the
remainder of the quotient truncated towards zero.  A `Division` is the choice between the first
two.
-/

namespace Abacus

-- powers are those of the core library, with or without other instances in scope
attribute [local instance (2000)] instPowNat

namespace Decimal

/-- The exact quotient.  Its scale is the least one at or above the difference of the scales at
which it can be written. -/
def div (x y : Decimal) : Except ArithmeticError Decimal :=
  if y.unscaled = 0 then .error .divisionByZero
  else
    let preferred := x.scale - y.scale
    if x.unscaled = 0 then do
      let scale ← checkScale (max preferred 0)
      return ⟨0, scale⟩
    else
      let common : Int := Int.gcd x.unscaled y.unscaled
      let numerator := x.unscaled.tdiv common * y.unscaled.sign
      let denominator := (y.unscaled.tdiv common).natAbs
      let (twos, rest) := stripFactor 2 denominator denominator
      let (fives, rest) := stripFactor 5 rest rest
      if rest ≠ 1 then .error .nonTerminating
      else
        let extra := max twos fives
        let unscaled := (numerator * 10 ^ extra).tdiv denominator
        let quotient := (⟨unscaled, preferred + extra⟩ : Decimal).stripZeros preferred
        do
          let scale ← checkScale quotient.scale
          return ⟨quotient.unscaled, scale⟩

/-- How many places the dividend's coefficient moves before the coefficients are divided. -/
def divisionShift (x y : Decimal) (scale : Int) : Int := scale - x.scale + y.scale

/-- The quotient with exactly `scale` digits after the point. -/
def divScaled (x y : Decimal) (scale : Int) (mode : Rounding) : Except ArithmeticError Decimal :=
  if y.unscaled = 0 then .error .divisionByZero
  else do
    let scale ← checkScale scale
    let shift := x.divisionShift y scale
    return ⟨roundQuotient mode (x.unscaled * 10 ^ shift.toNat) (y.unscaled * 10 ^ (-shift).toNat),
      scale⟩

/-- The remainder of the quotient truncated towards zero, at the larger of the two scales.  It has
the sign of the dividend. -/
def rem (x y : Decimal) : Except ArithmeticError Decimal :=
  if y.unscaled = 0 then .error .divisionByZero
  else
    let scale := x.commonScale y
    .ok ⟨(x.unscaledAt scale).tmod (y.unscaledAt scale), scale⟩

end Decimal

/-- What the operator `/` makes of a quotient. -/
inductive Division where
  /-- Only exact quotients are given. -/
  | exact
  /-- Quotients are rounded to a fixed number of digits after the point. -/
  | scaled (scale : Int) (mode : Rounding)
deriving DecidableEq

/-- The quotient under a choice of division. -/
def Division.apply (division : Division) (x y : Decimal) : Except ArithmeticError Decimal :=
  match division with
  | .exact => x.div y
  | .scaled scale mode => x.divScaled y scale mode

end Abacus
