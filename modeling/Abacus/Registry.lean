import Abacus.Callable
import Abacus.Expr.Parser
import Abacus.Operator
import Abacus.Table

/-!
# Registries

A registry knows operators by their symbols and functions by their names.  It also sets the grammar
of expressions, as the operators have the priorities.
-/

namespace Abacus

/-- What the standard operators and functions leave open. -/
structure Settings where
  /-- What the operator `/` makes of a quotient. -/
  division : Division
  /-- The number of digits after the point that approximate operations give. -/
  precision : Nat

/-- Exact division and the default precision. -/
def Settings.default : Settings := ⟨.exact, Decimal.defaultPrecision⟩

/-- Operators and functions. -/
structure Registry where
  /-- The operators by their symbols. -/
  operators : Table Operator
  /-- The functions by their names. -/
  callables : Table Callable

namespace Registry

/-- Nothing is known. -/
def empty : Registry := ⟨∅, ∅⟩

/-- The registry with an operator, which replaces one with the same symbol. -/
def withOperator (registry : Registry) (op : Operator) : Registry :=
  { registry with operators := registry.operators.insert op.symbol op }

/-- The registry with a function, which replaces one with the same name. -/
def withCallable (registry : Registry) (name : String) (callee : Callable) : Registry :=
  { registry with callables := registry.callables.insert name callee }

/-- The operator with a symbol. -/
def operator? (registry : Registry) (symbol : String) : Option Operator :=
  registry.operators[symbol]?

/-- The function with a name. -/
def callable? (registry : Registry) (name : String) : Option Callable :=
  registry.callables[name]?

/-- How tightly an operation binds: as its operator says, if there is one. -/
def priority (registry : Registry) (op : BinaryOp) : UInt64 :=
  match registry.operator? op.symbol with
  | some operator => operator.precedence
  | none => op.defaultPriority

/-- The grammar with the priorities of the registry. -/
def grammar (registry : Registry) : Grammar := ⟨registry.priority, true⟩

/-- The standard operators. -/
def standardOperators (settings : Settings) : List Operator :=
  [Arithmetical.add, .sub, .mul, .div settings.division, .rem, .pow settings.precision].map
      Arithmetical.toOperator
    ++ Operator.relationals ++ Operator.logicals

/-- The standard functions with their names. -/
def standardCallables (settings : Settings) : List (String × Callable) :=
  [("abs", .abs), ("max", .max), ("min", .min), ("sum", .sum),
    ("sqrt", .sqrt settings.precision), ("round", .round),
    ("sin", (Trigonometric.sin settings.precision).toCallable),
    ("cos", (Trigonometric.cos settings.precision).toCallable),
    ("tan", (Trigonometric.tan settings.precision).toCallable),
    ("random", .random)]

/-- The registry of the standard operators and functions. -/
def standard (settings : Settings) : Registry :=
  let operators := (standardOperators settings).foldl withOperator empty
  (standardCallables settings).foldl
    (fun registry (name, callee) => registry.withCallable name callee) operators

end Registry

end Abacus
