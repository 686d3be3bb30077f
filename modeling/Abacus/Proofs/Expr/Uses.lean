import Abacus.Proofs.Expr.Alike

/-!
# The variables of an expression

The uses of variables in an expression, from left to right, with their places.  The target of an
assignment and the names of functions are not among them.
-/

namespace Abacus

mutual

/-- The uses of variables in an expression, from left to right. -/
def Expr.uses : Expr → List (Located String)
  | .number _ _ => []
  | .var span name => [⟨span, name⟩]
  | .call _ _ args => usesAll args
  | .unary _ _ operand => operand.uses
  | .binary _ lhs _ rhs => lhs.uses ++ rhs.uses

/-- The uses of variables in several expressions, from left to right. -/
def usesAll : List Expr → List (Located String)
  | [] => []
  | arg :: args => arg.uses ++ usesAll args

end

theorem mem_usesAll {args : List Expr} {use : Located String} :
    use ∈ usesAll args ↔ ∃ arg ∈ args, use ∈ arg.uses := by
  induction args with
  | nil => simp [usesAll]
  | cons arg args ih => simp [usesAll, ih]

/-- The uses of variables in a statement. -/
def Statement.uses : Statement → List (Located String)
  | .expression value | .assignment _ _ value => value.uses

/-- The variable that a statement assigns to. -/
def Statement.target? : Statement → Option String
  | .expression _ => none
  | .assignment _ target _ => some target.val

end Abacus
