import Abacus.Failure
import Abacus.Span
import Abacus.Token

/-!
# Syntax errors

What can be wrong with a source text before it is evaluated.  Lexical errors end the reading at
once; the others only end the alternative in which they were met.
-/

namespace Abacus

/-- The part of a statement that was being read. -/
inductive Context where
  /-- The target of an assignment. -/
  | assignment
  /-- A call of a function. -/
  | call
  /-- Any other part of an expression. -/
  | expression
deriving DecidableEq

/-- The name of a part of a statement in messages. -/
def Context.text : Context → String
  | .assignment => "assignment"
  | .call => "function call"
  | .expression => "arithmetic expression"

/-- Why a source text is no statement. -/
inductive SyntaxError where
  /-- No token starts with this character. -/
  | unexpectedChar
  /-- The exponent or the scale of a numeric literal is out of range. -/
  | malformedNumber
  /-- One kind of token was needed and another one is there. -/
  | mismatched (context : Context) (expected found : TokenKind)
  /-- No alternative starts with a token of this kind. -/
  | noViableAlternative (context : Context) (found : TokenKind)
deriving DecidableEq

namespace SyntaxError

/-- The text that reports a syntax error. -/
def message : SyntaxError → String
  | .unexpectedChar => "Unexpected character"
  | .malformedNumber => "Malformed number literal"
  | .mismatched context expected found =>
    "Mismatched input in " ++ context.text ++ ": expected " ++ expected.text ++ ", found "
      ++ found.text
  | .noViableAlternative context found =>
    "No viable alternative in " ++ context.text ++ " at " ++ found.text

/-- The error is lexical, and no other alternative is tried after it. -/
def isLexical : SyntaxError → Bool
  | .unexpectedChar | .malformedNumber => true
  | .mismatched .. | .noViableAlternative .. => false

end SyntaxError

/-- Why the reading of a source text gives nothing. -/
abbrev SyntaxFailure := Failure (Located SyntaxError)

/-- No other alternative is tried after the failure. -/
def SyntaxFailure.isFatal : SyntaxFailure → Bool
  | .refused error => error.val.isLexical
  | .overflow => true

namespace SyntaxFailure

@[simp] theorem isFatal_refused (error : Located SyntaxError) :
    isFatal (.refused error) = error.val.isLexical := rfl

@[simp] theorem isFatal_overflow : isFatal .overflow = true := rfl

end SyntaxFailure

end Abacus
