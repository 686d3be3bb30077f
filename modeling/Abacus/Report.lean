import Abacus.EvalError
import Abacus.Expr.SyntaxError
import Abacus.Span

/-!
# Reports

An error as it is reported: its kind, its message, and its place in the source text with the text
that stands there.  A report holds all that it shows, and outlives the source text.
-/

namespace Abacus

/-- The kinds of errors. -/
inductive ErrorKind where
  | lexical
  | mismatchedToken
  | noViableAlternative
  | undefinedVariable
  | undefinedFunction
  | undefinedOperator
  | arity
  | arithmetic
  | constant
  | typeMismatch
  | invalidName
  | function
deriving DecidableEq

/-- The name of a kind of error. -/
def ErrorKind.text : ErrorKind → String
  | .lexical => "lexical error"
  | .mismatchedToken => "mismatched token"
  | .noViableAlternative => "no viable alternative"
  | .undefinedVariable => "undefined variable"
  | .undefinedFunction => "undefined function"
  | .undefinedOperator => "undefined operator"
  | .arity => "arity mismatch"
  | .arithmetic => "arithmetic error"
  | .constant => "assignment to constant"
  | .typeMismatch => "type mismatch"
  | .invalidName => "invalid variable name"
  | .function => "function error"

/-- The kind of a syntax error. -/
def SyntaxError.kind : SyntaxError → ErrorKind
  | .unexpectedChar | .malformedNumber => .lexical
  | .mismatched .. => .mismatchedToken
  | .noViableAlternative .. => .noViableAlternative

/-- The kind of an evaluation error. -/
def EvalError.kind : EvalError → ErrorKind
  | .undefinedVariable => .undefinedVariable
  | .undefinedFunction => .undefinedFunction
  | .undefinedOperator _ | .notUnary _ => .undefinedOperator
  | .arityMismatch .. => .arity
  | .arithmetic _ => .arithmetic
  | .constantTarget => .constant
  | .notANumber .. | .missingArgument | .typeMismatch .. => .typeMismatch
  | .invalidName _ => .invalidName
  | .functionFailed _ => .function

/-- A place in a source text with the text that stands there. -/
structure Position where
  /-- The bytes before it. -/
  offset : Nat
  /-- The line of its start. -/
  line : Nat
  /-- The text; empty at the end of the source. -/
  fragment : String
deriving DecidableEq

namespace Position

/-- The place of a span in its source. -/
def ofSpan (source : List Char) (span : Span) : Position :=
  ⟨span.offset, span.line, String.ofList (span.fragment source)⟩

/-- The place in messages. -/
def text (position : Position) : String :=
  "line " ++ toString position.line ++ ", offset " ++ toString position.offset
    ++ if position.fragment.isEmpty then "" else ", at `" ++ position.fragment ++ "`"

end Position

/-- An error as it is reported. -/
structure Report where
  /-- The kind of the error. -/
  kind : ErrorKind
  /-- The message for the user. -/
  message : String
  /-- Where the error is, if it has a place. -/
  position : Option Position
deriving DecidableEq

namespace Report

/-- The report of an error at a place, which the message names at its end. -/
def located (kind : ErrorKind) (message : String) (position : Position) : Report :=
  ⟨kind, message ++ " (" ++ position.text ++ ")", some position⟩

/-- The report of a syntax error. -/
def ofSyntax (source : List Char) (error : Located SyntaxError) : Report :=
  located error.val.kind error.val.message (.ofSpan source error.span)

/-- The report of an evaluation error. -/
def ofEval (source : List Char) (error : Located EvalError) : Report :=
  located error.val.kind error.val.message (.ofSpan source error.span)

/-- The report of an error without a place. -/
def unlocated (error : EvalError) : Report := ⟨error.kind, error.message, none⟩

end Report

end Abacus
