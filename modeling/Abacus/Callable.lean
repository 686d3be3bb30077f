import Abacus.Decimal.Binary64
import Abacus.Decimal.Root
import Abacus.EvalError
import Abacus.Value

/-!
# Functions that expressions call

A callable takes decimals and gives a value or an error.  It says how many arguments it accepts, and
checks their number before it is run: most do so by their arity, and what such a function would give
on another number of arguments is of no account.  What depends on chance depends on a draw, which
every call is given anew.
-/

namespace Abacus

/-- A function that an expression can call by name. -/
structure Callable where
  /-- How many arguments it accepts. -/
  arity : Arity
  /-- The value that a call gives, with its draw, on arguments whose number passed the check. -/
  run : (draw : Nat) → List Decimal → Except CallError Value
  /-- Refuses a number of arguments.  The name is the one that the call used. -/
  checkArity : (name : String) → (count : Nat) → Except EvalError Unit := arity.check

namespace Callable

/-- A function of one argument. -/
def ofUnary (f : Decimal → Except CallError Value) : Callable where
  arity := .exactly 1
  run
    | _, [x] => f x
    | _, _ => .ok .void

/-- A function of two arguments. -/
def ofBinary (f : Decimal → Decimal → Except CallError Value) : Callable where
  arity := .exactly 2
  run
    | _, [x, y] => f x y
    | _, _ => .ok .void

/-- The absolute value. -/
def abs : Callable := ofUnary fun x => .ok (.number x.abs)

/-- The greater of two numbers. -/
def max : Callable := ofBinary fun x y => .ok (.number (x.max y))

/-- The lesser of two numbers. -/
def min : Callable := ofBinary fun x y => .ok (.number (x.min y))

/-- The sum of one or more numbers. -/
def sum : Callable where
  arity := .atLeast 1
  run _ xs := .ok (.number (Decimal.sum xs))

/-- The square root with the given precision; the missing value if there is none. -/
def sqrt (precision : Nat) : Callable :=
  ofUnary fun x => .ok (((x.sqrtWithPrecision precision).map Value.number).getD .void)

/-- Rounds `x` to the number of digits after the point that `scale` gives. -/
def roundTo (x scale : Decimal) : Except CallError Value :=
  if !scale.isInteger then .error (.fractionalScale scale)
  else
    match scale.toInt64? with
    | none => .error (.arithmetic .scaleOverflow)
    | some digits =>
      match x.round digits .halfEven with
      | .ok value => .ok (.number value)
      | .error error => .error (.arithmetic error)

/-- Rounding of a half to even, to two digits after the point or to the given number of them. -/
def round : Callable where
  arity := .between 1 2
  run
    | _, [x] => .ok (.number x.roundToCents)
    | _, [x, scale] => roundTo x scale
    | _, _ => .ok .void

/-- A binary number rounded to decimal digits as the value of a function. -/
def ofFloat (value : Float) (precision : Nat) : Except CallError Value :=
  match Decimal.approximate? value precision with
  | some x => .ok (.number x)
  | none => .error (.arithmetic .notFinite)

/-- A number of the unit interval, below one.  It is the last 53 bits of the draw of the call, in
units of `2 ^ (-53)`. -/
def random : Callable where
  arity := .exactly 0
  run draw _ :=
    match Decimal.ofFloat? (Float.ofNat (draw % 9007199254740992) / 9007199254740992) with
    | some x => .ok (.number x)
    | none => .error (.arithmetic .notFinite)

end Callable

/-- A function of an angle, computed in floating point and rounded. -/
structure Trigonometric where
  /-- The usual name of the function. -/
  name : String
  /-- The function on binary numbers. -/
  function : Float → Float
  /-- The number of digits after the point that are kept. -/
  precision : Nat

namespace Trigonometric

/-- The sine. -/
def sin (precision : Nat) : Trigonometric := ⟨"sin", Float.sin, precision⟩

/-- The cosine. -/
def cos (precision : Nat) : Trigonometric := ⟨"cos", Float.cos, precision⟩

/-- The tangent. -/
def tan (precision : Nat) : Trigonometric := ⟨"tan", Float.tan, precision⟩

/-- The function as one that expressions call. -/
def toCallable (f : Trigonometric) : Callable :=
  Callable.ofUnary fun x => Callable.ofFloat (f.function x.toFloat) f.precision

end Trigonometric

end Abacus
