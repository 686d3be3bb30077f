import Abacus.Arity
import Abacus.Decimal.Basic
import Abacus.Decimal.Text
import Abacus.Value

/-!
# Evaluation errors

Why an expression has no value, a value is refused by a variable, or a function by its arguments.
-/

namespace Abacus

/-- Why a function gave no value. -/
inductive CallError where
  /-- Its arithmetic has no answer. -/
  | arithmetic (error : ArithmeticError)
  /-- A number of digits to round to has a fraction. -/
  | fractionalScale (scale : Decimal)
  /-- A function of the user's own failed with a message. -/
  | custom (message : String)
deriving DecidableEq

/-- The text that reports why a function gave no value. -/
def CallError.message : CallError → String
  | .arithmetic error => error.message
  | .fractionalScale scale => "Rounding scale must be an integer, got " ++ scale.toText
  | .custom message => message

/-- Why an evaluation failed. -/
inductive EvalError where
  /-- A variable has no entry, and no positional value is left for it. -/
  | undefinedVariable
  /-- A function is not known by its name. -/
  | undefinedFunction
  /-- An operator is not known by its symbol. -/
  | undefinedOperator (symbol : String)
  /-- An operator does not work on one operand. -/
  | notUnary (symbol : String)
  /-- A function does not take this many arguments. -/
  | arityMismatch (name : String) (expected : Arity) (actual : Nat)
  /-- The arithmetic of an operator or function has no answer. -/
  | arithmetic (error : ArithmeticError)
  /-- The target of an assignment is a constant. -/
  | constantTarget
  /-- A value does not read as a number. -/
  | notANumber (type : ValueType) (text : String)
  /-- An argument of a function is the missing value. -/
  | missingArgument
  /-- A value is not of the type of its variable. -/
  | typeMismatch (expected actual : ValueType)
  /-- A text cannot be the name of a variable. -/
  | invalidName (name : String)
  /-- A function failed for a reason of its own. -/
  | functionFailed (reason : String)
deriving DecidableEq

namespace EvalError

/-- The error of a call as an evaluation error: arithmetic errors stay what they are. -/
def ofCall : CallError → EvalError
  | .arithmetic error => .arithmetic error
  | error => .functionFailed error.message

/-- The text that reports an evaluation error. -/
def message : EvalError → String
  | .undefinedVariable => "Variable is not defined"
  | .undefinedFunction => "Function is not defined"
  | .undefinedOperator symbol => "Operator `" ++ symbol ++ "` is not defined"
  | .notUnary symbol => "Operator `" ++ symbol ++ "` is not unary"
  | .arityMismatch name expected actual =>
    "The function " ++ name ++ " requires " ++ expected.text ++ " argument(s), but "
      ++ toString actual ++ " were supplied"
  | .arithmetic error => error.message
  | .constantTarget => "Cannot assign to a constant"
  | .notANumber type text => "Cannot convert " ++ type.name ++ " `" ++ text ++ "` to a number"
  | .missingArgument => "Missing value cannot be used as a function argument"
  | .typeMismatch expected actual =>
    "Cannot assign " ++ actual.name ++ " to a variable of type " ++ expected.name
  | .invalidName name => "Invalid variable name `" ++ name ++ "`"
  | .functionFailed reason => "Failed executing function: " ++ reason

end EvalError

/-- Refuses a number of arguments that is not accepted.  The name is the one that the call used. -/
def Arity.check (arity : Arity) (name : String) (count : Nat) : Except EvalError Unit :=
  if arity.accepts count then .ok () else .error (.arityMismatch name arity count)

/-- The number that a value is or reads as, or nothing for the missing value. -/
def Value.toDecimal? (value : Value) : Except EvalError (Option Decimal) :=
  match value.toNumeral with
  | .number x => .ok (some x)
  | .missing => .ok none
  | .notANumber => .error (.notANumber value.type value.toText)

end Abacus
