import Abacus.Draws
import Abacus.Scope

/-!
# Evaluation

Evaluation walks an expression from left to right.  It reads the scope but does not change it:
variables that it binds or assigns are kept in a session, and the session becomes part of the scope
only when the whole statement has a value.

A variable without an entry is bound to the next of the values that were supplied by position.

What functions draw is fixed by a table of draws, which is split along the expression.
-/

namespace Abacus

/-- What one evaluation has bound so far. -/
structure Session where
  /-- The variables bound or assigned by this evaluation. -/
  bound : Table Variable
  /-- The supplied values that are not bound yet. -/
  supply : List Value

/-- A computation that may bind variables, and may fail at a place in the source. -/
abbrev Evaluation := StateT Session (Except (Located EvalError))

namespace Evaluation

/-- Fails at a place. -/
def raise (span : Span) (error : EvalError) : Evaluation α := throw ⟨span, error⟩

/-- The result of a rule, whose error is reported at a place. -/
def located (span : Span) : Except EvalError α → Evaluation α
  | .ok value => pure value
  | .error error => raise span error

/-- The variable that a name means now: one of the session before one of the scope. -/
def lookup? (scope : Scope) (name : String) : Evaluation (Option Variable) := do
  return (← get).bound[name]? <|> scope.entry? name

/-- Puts a variable into the session, under the name that the source uses for it. -/
def keep (name : String) (v : Variable) : Evaluation Unit :=
  modify fun session => { session with bound := session.bound.insert name v }

/-- The next supplied value. -/
def takeSupplied? : Evaluation (Option Value) := do
  let session ← get
  match session.supply with
  | [] => return none
  | value :: supply =>
    set { session with supply }
    return some value

/-- The value of a variable at its use.  A variable without an entry is bound there. -/
def useVariable (scope : Scope) (span : Span) (name : String) : Evaluation Value := do
  match ← lookup? scope name with
  | some v => return v.content
  | none =>
    match ← takeSupplied? with
    | none => raise span .undefinedVariable
    | some value =>
      keep name (← located span (Variable.untyped name value))
      return value

/-- Assigns a value.  A variable without an entry is created for values of every type. -/
def assign (scope : Scope) (target : Located String) (value : Value) : Evaluation Unit := do
  match ← lookup? scope target.val with
  | some v => keep target.val (← located target.span (v.setValue value))
  | none => keep target.val (← located target.span (Variable.untyped target.val value))

/-- An argument as a decimal. -/
def argument (value : Value) : Except EvalError Decimal := do
  match ← value.toDecimal? with
  | some x => return x
  | none => throw .missingArgument

/-- The arguments of a function as decimals. -/
def arguments : List (Located Value) → Evaluation (List Decimal)
  | [] => pure []
  | value :: values => do
    let x ← located value.span (argument value.val)
    return x :: (← arguments values)

/-- The operator with a symbol, used at a place. -/
def operatorAt (scope : Scope) (span : Span) (symbol : String) : Evaluation Operator :=
  match scope.registry.operator? symbol with
  | some operator => pure operator
  | none => raise span (.undefinedOperator symbol)

/-- Runs a function on evaluated arguments.  Their number is checked before any of them is taken as
a number. -/
def applyCallable (callee : Callable) (draw : Nat) (span : Span) (name : String)
    (values : List (Located Value)) : Evaluation Value := do
  located span (callee.checkArity name values.length)
  let numbers ← arguments values
  located span ((callee.run draw numbers).mapError .ofCall)

end Evaluation

open Evaluation

namespace Expr

mutual

/-- The value of an expression.  A function is looked up before its arguments are evaluated, and an
operator after its operands. -/
def evaluate (scope : Scope) (draws : Draws) : Expr → Evaluation Value
  | .number _ value => return .number value
  | .var span name => useVariable scope span name
  | .call span name args =>
    match scope.callable? name.val with
    | none => raise name.span .undefinedFunction
    | some callee => do
      let values ← evaluateAll scope draws args
      applyCallable callee draws.own span name.val values
  | .unary span op operand => do
    let value ← operand.evaluate scope draws.first
    let operator ← operatorAt scope op.span op.val.symbol
    if !operator.isUnary then raise op.span (.notUnary op.val.symbol)
    located span (operator.apply .void value)
  | .binary span lhs op rhs => do
    let x ← lhs.evaluate scope draws.first
    let y ← rhs.evaluate scope draws.second
    let operator ← operatorAt scope op.span op.val.symbol
    located span (operator.apply x y)

/-- The values of a list of expressions, from left to right, each with its place. -/
def evaluateAll (scope : Scope) (draws : Draws) : List Expr → Evaluation (List (Located Value))
  | [] => return []
  | arg :: args => do
    let value ← arg.evaluate scope draws.first
    let values ← evaluateAll scope draws.second args
    return ⟨arg.span, value⟩ :: values

end

end Expr

/-- The value of a statement; that of an assignment is the value assigned. -/
def Statement.evaluate (scope : Scope) (draws : Draws) : Statement → Evaluation Value
  | .expression value => value.evaluate scope draws
  | .assignment _ target value => do
    let value ← value.evaluate scope draws
    assign scope target value
    return value

namespace Scope

/-- The scope after an evaluation that succeeded. -/
def commit (scope : Scope) (session : Session) : Scope :=
  { scope with vars := scope.vars.override session.bound }

/-- Evaluates a statement, with values for variables that have no entry, in the order in which they
are met.  Gives the value and the scope with what was bound and assigned. -/
def evaluateWith (scope : Scope) (draws : Draws) (statement : Statement) (supply : List Value) :
    Except (Located EvalError) (Value × Scope) := do
  let (value, session) ← (statement.evaluate scope draws).run ⟨∅, supply⟩
  return (value, scope.commit session)

/-- Evaluates a statement in which every variable has an entry. -/
def evaluate (scope : Scope) (draws : Draws) (statement : Statement) :
    Except (Located EvalError) (Value × Scope) :=
  scope.evaluateWith draws statement []

/-- Runs a statement in a scope that is held on to: its outcome, and the scope afterwards.  A
statement without a value leaves no trace. -/
def execute (scope : Scope) (draws : Draws) (statement : Statement) (supply : List Value) :
    Except (Located EvalError) Value × Scope :=
  match scope.evaluateWith draws statement supply with
  | .ok (value, after) => (.ok value, after)
  | .error error => (.error error, scope)

end Scope

end Abacus
