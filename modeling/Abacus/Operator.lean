import Abacus.Decimal.Power
import Abacus.EvalError
import Abacus.Value

/-!
# Operators

An operator has a symbol, a precedence and a rule for values.  There are three families:
arithmetical operators take their operands as numbers and put a neutral element in the place of a
missing one, relational operators test the order of their operands, and logical operators take them
as truth values.
-/

namespace Abacus

/-- An operator.  On one operand it is applied with the missing value on the left. -/
structure Operator where
  /-- What writes the operator. -/
  symbol : String
  /-- How tightly it binds. -/
  precedence : UInt64
  /-- It also works on one operand. -/
  isUnary : Bool
  /-- The rule that it applies. -/
  apply : (lhs rhs : Value) → Except EvalError Value

/-- An operator that computes with decimals. -/
structure Arithmetical where
  /-- What writes the operator. -/
  symbol : String
  /-- How tightly it binds. -/
  precedence : UInt64
  /-- It also works on one operand. -/
  isUnary : Bool
  /-- What stands for a missing operand. -/
  neutral : Decimal
  /-- The computation. -/
  compute : (x y : Decimal) → Except ArithmeticError Decimal

namespace Arithmetical

/-- The number that an operand stands for. -/
def operand (op : Arithmetical) (value : Value) : Except EvalError Decimal := do
  return (← value.toDecimal?).getD op.neutral

/-- The rule of the operator.  A wrong left operand is reported before a wrong right one. -/
def apply (op : Arithmetical) (lhs rhs : Value) : Except EvalError Value := do
  let x ← op.operand lhs
  let y ← op.operand rhs
  match op.compute x y with
  | .ok value => return .number value
  | .error error => throw (.arithmetic error)

/-- The operator among those of all families. -/
def toOperator (op : Arithmetical) : Operator :=
  ⟨op.symbol, op.precedence, op.isUnary, op.apply⟩

/-- Addition, and the sign plus. -/
def add : Arithmetical := ⟨"+", 5, true, .zero, fun x y => .ok (x + y)⟩

/-- Subtraction, and the sign minus. -/
def sub : Arithmetical := ⟨"-", 5, true, .zero, fun x y => .ok (x - y)⟩

/-- Multiplication. -/
def mul : Arithmetical := ⟨"*", 6, false, .one, Decimal.mul⟩

/-- Division, exact or rounded. -/
def div (division : Division) : Arithmetical := ⟨"/", 6, false, .one, division.apply⟩

/-- The remainder of the truncated quotient. -/
def rem : Arithmetical := ⟨"%", 6, false, .one, Decimal.rem⟩

/-- Powers, with a precision for those that are not exact. -/
def pow (precision : Nat) : Arithmetical :=
  ⟨"^", 7, false, .one, fun x y => x.powDecimal y precision⟩

end Arithmetical

namespace Operator

/-- The precedence of all relational operators. -/
def relationalPrecedence : UInt64 := 4

/-- The operator that tests the order of its operands. -/
def relational (symbol : String) (test : Ordering → Bool) : Operator :=
  ⟨symbol, relationalPrecedence, false, fun lhs rhs => .ok (.bool (test (lhs.compare rhs)))⟩

/-- Less. -/
def less : Operator := relational "<" (· == .lt)

/-- Less or equal. -/
def lessOrEqual : Operator := relational "<=" (· != .gt)

/-- Greater. -/
def greater : Operator := relational ">" (· == .gt)

/-- Greater or equal. -/
def greaterOrEqual : Operator := relational ">=" (· != .lt)

/-- Equal. -/
def equal : Operator := relational "==" (· == .eq)

/-- Not equal. -/
def notEqual : Operator := relational "!=" (· != .eq)

/-- The operator on truth values. -/
def logical (symbol : String) (precedence : UInt64) (isUnary : Bool)
    (combine : Bool → Bool → Bool) : Operator :=
  ⟨symbol, precedence, isUnary, fun lhs rhs => .ok (.bool (combine lhs.isTruthy rhs.isTruthy))⟩

/-- Both operands are true. -/
def conjunction : Operator := logical "&&" 2 false (· && ·)

/-- One of the operands is true. -/
def disjunction : Operator := logical "||" 1 false (· || ·)

/-- The right operand is not true. -/
def negation : Operator := logical "!" 7 true fun _ y => !y

/-- The six relational operators. -/
def relationals : List Operator := [less, lessOrEqual, greater, greaterOrEqual, equal, notEqual]

/-- The three logical operators. -/
def logicals : List Operator := [conjunction, disjunction, negation]

end Operator

end Abacus
