/-!
# Failures

Two ways in which a computation can end without a result.  An error is an answer: it is reported, and
whoever asked can go on from it.  A number that does not fit its machine word is none: the whole
computation is given up there.
-/

namespace Abacus

/-- Why there is no result. -/
inductive Failure (ε : Type) where
  /-- What was given is refused, for a reason that is reported. -/
  | refused (error : ε)
  /-- A number does not fit its machine word. -/
  | overflow
deriving DecidableEq

namespace Failure

variable {ε ε' : Type}

/-- The failure with its error in another form. -/
def map (f : ε → ε') : Failure ε → Failure ε'
  | .refused error => .refused (f error)
  | .overflow => .overflow

end Failure

end Abacus
