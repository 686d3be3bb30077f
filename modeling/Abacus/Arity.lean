/-!
# Arities

How many arguments a function takes.
-/

namespace Abacus

/-- The numbers of arguments that a function accepts. -/
inductive Arity where
  /-- One number only. -/
  | exactly (count : Nat)
  /-- A number and all above it. -/
  | atLeast (least : Nat)
  /-- All numbers from one to another, both included. -/
  | between (least greatest : Nat)
deriving DecidableEq

namespace Arity

/-- The number of arguments is accepted. -/
def accepts (arity : Arity) (count : Nat) : Bool :=
  match arity with
  | .exactly n => count == n
  | .atLeast least => least ≤ count
  | .between least greatest => least ≤ count && count ≤ greatest

/-- The arity in messages. -/
def text : Arity → String
  | .exactly count => toString count
  | .atLeast least => "at least " ++ toString least
  | .between least greatest => toString least ++ " to " ++ toString greatest

end Arity

end Abacus
