import Abacus.Decimal.Binary64
import Abacus.Decimal.Division

/-!
# Powers

Powers with a whole exponent in the signed 32-bit range are exact, or, for negative exponents, a
quotient rounded to the precision.  All other powers are approximated in floating point.
-/

namespace Abacus

-- powers are those of the core library, with or without other instances in scope
attribute [local instance (2000)] instPowNat

namespace Decimal

/-- The exact power with a natural exponent.  The scale is multiplied by the exponent and has to
stay in range. -/
def pow (x : Decimal) (exponent : Nat) : Except ArithmeticError Decimal := do
  let scale ← checkScale (x.scale * exponent)
  return ⟨x.unscaled ^ exponent, scale⟩

/-- The exact square. -/
def square (x : Decimal) : Except ArithmeticError Decimal := x.pow 2

/-- The whole number in the signed 32-bit range that an exponent stands for, however it is
written. -/
def smallInteger? (exponent : Decimal) : Option Int := do
  if !exponent.isInteger then none
  let n ← exponent.toInt64?
  if -2147483648 ≤ n ∧ n ≤ 2147483647 then some n else none

/-- One divided by `x`, exactly if that terminates and else rounded to `precision` digits. -/
def reciprocal (x : Decimal) (precision : Nat) : Except ArithmeticError Decimal :=
  match one.div x with
  | .error .nonTerminating => one.divScaled x precision .halfEven
  | quotient => quotient

/-- The power with a decimal exponent. -/
def powDecimal (x exponent : Decimal) (precision : Nat) : Except ArithmeticError Decimal :=
  match exponent.smallInteger? with
  | some (.ofNat n) => x.pow n
  | some (.negSucc n) => do
    let denominator ← x.pow (n + 1)
    denominator.reciprocal precision
  | none =>
    match approximate? (Float.pow x.toFloat exponent.toFloat) precision with
    | some power => .ok power
    | none => .error .notFinite

end Decimal

end Abacus
