import Abacus.Registry
import Abacus.Variable

/-!
# Scopes

What names mean in an expression: variables, functions of the scope's own, and the registry behind
them.
-/

namespace Abacus

/-- The meaning of names. -/
structure Scope where
  /-- The operators, and the functions that every scope has. -/
  registry : Registry
  /-- The variables by their names. -/
  vars : Table Variable
  /-- The functions of this scope. -/
  callables : Table Callable

namespace Scope

/-- The scope without variables and functions of its own. -/
def ofRegistry (registry : Registry) : Scope := ⟨registry, ∅, ∅⟩

/-- The variable with a name. -/
def entry? (scope : Scope) (name : String) : Option Variable := scope.vars[name]?

/-- The value of the variable with a name, if it has one. -/
def value? (scope : Scope) (name : String) : Option Value := do
  (← scope.entry? name).value

/-- The scope with a variable, which replaces one with the same name, even a constant. -/
def insert (scope : Scope) (v : Variable) : Scope :=
  { scope with vars := scope.vars.insert v.name v }

/-- The scope with a variable for values of every type. -/
def define (scope : Scope) (name : String) (value : Value) : Except EvalError Scope := do
  return scope.insert (← Variable.untyped name value)

/-- The scope with a constant. -/
def defineConstant (scope : Scope) (name : String) (value : Value) : Except EvalError Scope := do
  return scope.insert (← Variable.constant name value)

/-- The scope with a function of its own. -/
def withCallable (scope : Scope) (name : String) (callee : Callable) : Scope :=
  { scope with callables := scope.callables.insert name callee }

/-- The scope without its variables.  Constants and functions stay. -/
def clear (scope : Scope) : Scope :=
  { scope with vars := scope.vars.filter fun _ v => v.isConstant }

/-- The function that a name means: one of the scope's own before one of the registry. -/
def callable? (scope : Scope) (name : String) : Option Callable :=
  scope.callables[name]? <|> scope.registry.callable? name

/-- The scope with the variables and functions of another one that it does not have itself. -/
def inheritFrom (scope other : Scope) : Scope :=
  { scope with
    vars := other.vars.override scope.vars
    callables := other.callables.override scope.callables }

end Scope

end Abacus
