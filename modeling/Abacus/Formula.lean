import Abacus.Evaluation
import Abacus.Expr.Printer
import Abacus.Report

/-!
# Formulas

A formula is a source text together with the scope that it is evaluated in.  Its text is read at
every evaluation, with the priorities of the scope's registry, and what an evaluation assigns stays
in the scope.  Two formulas can be composed into one.  Errors are reported with the text that they
are about; an overflow of a priority is none of them, and is passed on as it is.
-/

namespace Abacus

/-- A source text with the scope that it is evaluated in. -/
structure Formula where
  /-- The source text. -/
  source : String
  /-- What its names mean. -/
  scope : Scope

namespace Formula

/-- The formula of a source text with the standard operators and functions. -/
def ofSource (source : String) : Formula :=
  ⟨source, .ofRegistry (.standard .default)⟩

/-- The statement that the source text makes. -/
def statement (formula : Formula) : Except (Failure Report) Statement :=
  let source := formula.source.toList
  (Statement.parse? formula.scope.registry.grammar source).mapError (.map (.ofSyntax source))

/-- Evaluates the formula, with values for variables that have no entry.  Gives the value and the
formula with what was bound and assigned. -/
def evaluateWith (formula : Formula) (draws : Draws) (supply : List Value) :
    Except (Failure Report) (Value × Formula) := do
  let statement ← formula.statement
  let (value, scope) ← (formula.scope.evaluateWith draws statement supply).mapError fun error =>
    .refused (.ofEval formula.source.toList error)
  return (value, { formula with scope })

/-- Evaluates the formula with the variables that it has. -/
def evaluate (formula : Formula) (draws : Draws) : Except (Failure Report) (Value × Formula) :=
  formula.evaluateWith draws []

/-- The formula with parentheses around every operation. -/
def toInfix (formula : Formula) : Except (Failure Report) String := do
  return (← formula.statement).toInfix

/-- The formula in reverse Polish form. -/
def toPolish (formula : Formula) : Except (Failure Report) String := do
  return (← formula.statement).toPolish

/-- The formula with a variable. -/
def withVariable (formula : Formula) (v : Except EvalError Variable) : Except Report Formula := do
  let v ← v.mapError .unlocated
  return { formula with scope := formula.scope.insert v }

/-- The formula with a function of its own. -/
def withCallable (formula : Formula) (name : String) (callee : Callable) : Formula :=
  { formula with scope := formula.scope.withCallable name callee }

/-- The formula that joins two others by an operator.  It has the variables and functions of both;
where both have one, that of the first. -/
def compose (op : BinaryOp) (first second : Formula) : Formula where
  source := "(" ++ first.source ++ ") " ++ op.symbol ++ " (" ++ second.source ++ ")"
  scope := first.scope.inheritFrom second.scope

/-- The product of two formulas. -/
def multiply : Formula → Formula → Formula := compose .mul

/-- The quotient of two formulas. -/
def divide : Formula → Formula → Formula := compose .div

/-- One formula to the power of another. -/
def power : Formula → Formula → Formula := compose .pow

end Formula

/-- The value of a source text with values for its variables, in the order in which they are met. -/
def evaluate (source : String) (draws : Draws) (supply : List Value) :
    Except (Failure Report) Value :=
  (·.1) <$> (Formula.ofSource source).evaluateWith draws supply

end Abacus
