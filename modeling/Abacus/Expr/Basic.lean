import Abacus.Decimal.Basic
import Abacus.Span

/-!
# Expressions

The tree of an arithmetic expression.  Every node carries the span of source text it was read from,
and so do the operator of an operation and the name in a call or an assignment.  An assignment is
no expression: it can only be the whole of a statement.
-/

namespace Abacus

/-- An operation on two operands. -/
inductive BinaryOp where
  | add
  | sub
  | mul
  | div
  | rem
  | pow
deriving DecidableEq

namespace BinaryOp

/-- All operations on two operands. -/
def all : List BinaryOp := [.add, .sub, .mul, .div, .rem, .pow]

/-- The character that writes the operation. -/
def symbol : BinaryOp → String
  | .add => "+"
  | .sub => "-"
  | .mul => "*"
  | .div => "/"
  | .rem => "%"
  | .pow => "^"

/-- How tightly the operation binds where no registry says otherwise. -/
def defaultPriority : BinaryOp → UInt64
  | .add | .sub => 5
  | .mul | .div | .rem => 6
  | .pow => 7

/-- Powers group to the right and all other operations to the left. -/
def isRightGrouping (op : BinaryOp) : Bool := op == .pow

/-- The operation that a symbol writes. -/
def ofSymbol? (symbol : String) : Option BinaryOp := all.find? (·.symbol == symbol)

@[simp] theorem ofSymbol?_symbol (op : BinaryOp) : ofSymbol? op.symbol = some op := by
  cases op <;> decide

end BinaryOp

/-- An operation on one operand, written before it. -/
inductive UnaryOp where
  | plus
  | minus
deriving DecidableEq

namespace UnaryOp

/-- All operations on one operand. -/
def all : List UnaryOp := [.plus, .minus]

/-- The character that writes the operation. -/
def symbol : UnaryOp → String
  | .plus => "+"
  | .minus => "-"

end UnaryOp

/-- An arithmetic expression. -/
inductive Expr where
  /-- A numeric literal. -/
  | number (span : Span) (value : Decimal)
  /-- The use of a variable. -/
  | var (span : Span) (name : String)
  /-- A function applied to arguments. -/
  | call (span : Span) (name : Located String) (args : List Expr)
  /-- An operation on one operand. -/
  | unary (span : Span) (op : Located UnaryOp) (operand : Expr)
  /-- An operation on two operands. -/
  | binary (span : Span) (lhs : Expr) (op : Located BinaryOp) (rhs : Expr)

namespace Expr

instance : Inhabited Expr := ⟨.var ⟨0, 0, 1⟩ ""⟩

/-- The place of the whole expression. -/
def span : Expr → Span
  | .number span _ | .var span _ | .call span _ _ | .unary span _ _ | .binary span _ _ _ => span

/-- The expression after it was put into parentheses that cover the span `outer`.  It takes their
place into its own, but a variable remains where its name stands. -/
def parenthesized (outer : Span) : Expr → Expr
  | .number _ value => .number outer value
  | .var span name => .var span name
  | .call _ name args => .call outer name args
  | .unary _ op operand => .unary outer op operand
  | .binary _ lhs op rhs => .binary outer lhs op rhs

end Expr

/-- What a source text states: a value, or that a variable gets a value. -/
inductive Statement where
  /-- An expression. -/
  | expression (value : Expr)
  /-- The assignment of a value to a variable. -/
  | assignment (span : Span) (target : Located String) (value : Expr)

/-- The place of the whole statement. -/
def Statement.span : Statement → Span
  | .expression value => value.span
  | .assignment span _ _ => span

end Abacus
