import Abacus.EvalError
import Abacus.Text.Blank
import Abacus.Value

/-!
# Variables

A named place for a value, with a declared type that the value has to fit.  The missing value fits
every type.  A constant keeps its value in all assignments.
-/

namespace Abacus

/-- A value of type `actual` fits a variable of type `expected`. -/
def ValueType.accepts (expected actual : ValueType) : Bool :=
  expected == .any || actual == .void || actual == expected

/-- A variable. -/
structure Variable where
  /-- The name that expressions use. -/
  name : String
  /-- The value, if there has been one yet. -/
  value : Option Value
  /-- The type that values have to fit. -/
  type : ValueType
  /-- Assignments are refused. -/
  isConstant : Bool
deriving DecidableEq

namespace Variable

/-- A text can be the name of a variable: it starts with an ASCII letter and has no blanks. -/
def isName (name : String) : Bool :=
  match name.toList with
  | [] => false
  | first :: rest => first.isAlpha && !(first :: rest).any isBlank

/-- Refuses a text that cannot be a name. -/
def checkName (name : String) : Except EvalError Unit :=
  if isName name then .ok () else .error (.invalidName name)

/-- Refuses a value that does not fit a type. -/
def checkType (type : ValueType) (value : Value) : Except EvalError Unit :=
  if type.accepts value.type then .ok () else .error (.typeMismatch type value.type)

/-- A variable with a value, for values of one type only.  A wrong name is reported before a wrong
value. -/
def typed (name : String) (value : Value) (type : ValueType) : Except EvalError Variable := do
  checkName name
  checkType type value
  return ⟨name, some value, type, false⟩

/-- A variable with a value, for values of every type. -/
def untyped (name : String) (value : Value) : Except EvalError Variable := typed name value .any

/-- A variable without a value. -/
def declared (name : String) (type : ValueType) : Except EvalError Variable := do
  checkName name
  return ⟨name, none, type, false⟩

/-- A variable that keeps its value. -/
def constant (name : String) (value : Value) : Except EvalError Variable := do
  let v ← untyped name value
  return { v with isConstant := true }

/-- The variable with a new value. -/
def setValue (target : Variable) (value : Value) : Except EvalError Variable := do
  if target.isConstant then throw .constantTarget
  checkType target.type value
  return { target with value := some value }

/-- An assignment changes the value and nothing else. -/
theorem setValue_eq_ok_iff {target result : Variable} {value : Value} :
    target.setValue value = .ok result ↔
      target.isConstant = false ∧ target.type.accepts value.type ∧
        result = { target with value := some value } := by
  cases hc : target.isConstant <;> cases ht : target.type.accepts value.type <;>
    simp [setValue, checkType, hc, ht, bind, Except.bind, pure, Except.pure, eq_comm, throw,
      throwThe, MonadExceptOf.throw]

/-- What the use of the variable in an expression gives. -/
def content (source : Variable) : Value := source.value.getD .void

end Variable

end Abacus
