import Abacus.Decimal.Text
import Abacus.Expr.Basic

/-!
# Written forms of expressions

Two canonical texts of an expression: the infix form with parentheses around every operation, which
no choice of priorities can read differently, and the reverse Polish form, which needs none.
-/

namespace Abacus

namespace Expr

mutual

/-- The infix form with parentheses around every operation. -/
def toInfix : Expr → String
  | .number _ value => value.toText
  | .var _ name => name
  | .call _ name args => name.val ++ "(" ++ ", ".intercalate (toInfixAll args) ++ ")"
  | .unary _ op operand => "(" ++ op.val.symbol ++ operand.toInfix ++ ")"
  | .binary _ lhs op rhs =>
    "(" ++ lhs.toInfix ++ " " ++ op.val.symbol ++ " " ++ rhs.toInfix ++ ")"

/-- The infix forms of a list of expressions. -/
def toInfixAll : List Expr → List String
  | [] => []
  | arg :: args => arg.toInfix :: toInfixAll args

end

mutual

/-- The terms of the reverse Polish form: operands come before their operator.  An operator of one
operand is marked with `u`, and a function with the number of its arguments. -/
def polishTerms : Expr → List String
  | .number _ value => [value.toText]
  | .var _ name => [name]
  | .call _ name args => polishTermsAll args ++ [name.val ++ "/" ++ toString args.length]
  | .unary _ op operand => operand.polishTerms ++ ["u" ++ op.val.symbol]
  | .binary _ lhs op rhs => lhs.polishTerms ++ rhs.polishTerms ++ [op.val.symbol]

/-- The terms of a list of expressions, one expression after the other. -/
def polishTermsAll : List Expr → List String
  | [] => []
  | arg :: args => arg.polishTerms ++ polishTermsAll args

end

end Expr

namespace Statement

/-- The infix form of a statement. -/
def toInfix : Statement → String
  | .expression value => value.toInfix
  | .assignment _ target value => target.val ++ " = " ++ value.toInfix

/-- The reverse Polish form of a statement, its terms separated by spaces. -/
def toPolish : Statement → String
  | .expression value => " ".intercalate value.polishTerms
  | .assignment _ target value => " ".intercalate (target.val :: value.polishTerms ++ ["="])

end Statement

end Abacus
