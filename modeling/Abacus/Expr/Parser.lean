import Abacus.Decimal.Text
import Abacus.Expr.Basic
import Abacus.Expr.SyntaxError
import Abacus.Token
import Std.Data.TreeMap

/-!
# Reading expressions

A statement is read by recursive descent with speculation: where there are two alternatives the
first is tried and, if it fails, the second is tried from the same token.  The grammar is

```text
statement  := expression END | assignment END
assignment := IDENT '=' expression
expression := term (OPERATOR term)*
term       := NUMBER | call | IDENT | '(' expression ')' | unary
call       := IDENT '(' (expression (',' expression)*)? ')'
unary      := SIGN (NUMBER | call | IDENT | '(' expression ')')
```

and the terms of an expression are grouped by the priorities of the operators between them.

The priorities are machine words.  The greatest of them has no next one, which the right operand of
an operation that groups to the left would need; reading such an operation is given up there.

Tokens are taken from the lexer on demand and kept, so that a rewound alternative meets them again.
What a rule gave at a token is remembered, so that no rule is worked out twice at one token; with
`Grammar.remembers` off every rule is worked out anew, which gives the same answers.

The rules recurse on an explicit count of steps.  `Statement.parse?` starts with more steps than
any source text of that length can need.
-/

namespace Abacus

/-- What the reading of expressions depends on apart from the source text. -/
structure Grammar where
  /-- How tightly an operation binds. -/
  priority : BinaryOp → UInt64
  /-- Whether the outcomes of rules are remembered. -/
  remembers : Bool

/-- The grammar with the priorities that the operations have of their own. -/
def Grammar.default : Grammar := ⟨BinaryOp.defaultPriority, true⟩

namespace Parser

/-- The rules whose outcomes are remembered. -/
inductive Rule where
  | expression
  | call
  | paren
  | unary
deriving DecidableEq

/-- The place of a rule among the four. -/
def Rule.index : Rule → Nat
  | .expression => 0
  | .call => 1
  | .paren => 2
  | .unary => 3

/-- What a rule gave at a token. -/
inductive Outcome where
  /-- The rule does not apply there. -/
  | failed (error : Located SyntaxError)
  /-- The rule gave an expression and went on to the token number `stop`. -/
  | parsed (stop : Nat) (expr : Expr)

/-- The remembered outcomes, by token number and rule. -/
abbrev Memo := Std.TreeMap Nat Outcome

/-- The key of a rule at a token. -/
def memoKey (rule : Rule) (start : Nat) : Nat := 4 * start + rule.index

/-- The state of reading a source text. -/
structure State where
  /-- Gives the tokens that have not been asked for yet. -/
  lexer : Lexer
  /-- The tokens that have been asked for. -/
  tokens : Array Token
  /-- The number of the next token to read. -/
  position : Nat
  /-- The positions to which pending alternatives return if they fail. -/
  marks : List Nat
  /-- The remembered outcomes. -/
  memo : Memo
  /-- The rules that were worked out, with the tokens they started at, the latest first. -/
  worked : List (Rule × Nat)
  /-- The pairs of spans that were united, the latest first. -/
  united : List (Span × Span)

/-- The state before anything of a source text is read. -/
def State.start (source : List Char) : State := ⟨.ofSource source, #[], 0, [], ∅, [], []⟩

/-- Why a rule gave no expression. -/
inductive Stop where
  /-- The source text does not fit the rule, or a priority overflows. -/
  | failed (why : SyntaxFailure)
  /-- The steps were used up. -/
  | outOfSteps

end Parser

/-- A reader of part of a source text. -/
abbrev Parser := EStateM Parser.Stop Parser.State

namespace Parser

/-- Fails with a syntax error. -/
def refuse (error : Located SyntaxError) : Parser α := throw (.failed (.refused error))

/-- Fails with a syntax error at a place. -/
def reject (span : Span) (error : SyntaxError) : Parser α := refuse ⟨span, error⟩

/-- Takes up to `count` tokens more from the lexer. -/
def pull : Nat → Parser Unit
  | 0 => pure ()
  | count + 1 => do
    let state ← get
    match state.lexer.next? with
    | none => pure ()
    | some (.error span, lexer) => do
      set { state with lexer }
      reject span .unexpectedChar
    | some (.ok token, lexer) => do
      set { state with lexer, tokens := state.tokens.push token }
      pull count

/-- The token `ahead` places after the next one.  Past the end there are only ends.  There is always
a token to give: a lexer gives at least an end or an error. -/
def peek (ahead : Nat) : Parser Token := do
  let index := (← get).position + ahead
  pull (index + 1 - (← get).tokens.size)
  let tokens := (← get).tokens
  match tokens[index]? <|> tokens.back? with
  | some token => return token
  | none => reject ⟨0, 0, 1⟩ .unexpectedChar

/-- Goes on to the next token. -/
def advance : Parser Unit := modify fun state => { state with position := state.position + 1 }

/-- The span from the start of one span to the end of another one, and a note of the two. -/
def unite (first last : Span) : Parser Span := do
  modify fun state => { state with united := (first, last) :: state.united }
  return first.unite last

/-- Reads a token of the given kind. -/
def expect (kind : TokenKind) (context : Context) : Parser Token := do
  let token ← peek 0
  if token.kind = kind then
    advance
    return token
  else reject token.span (.mismatched context kind token.kind)

/-- Runs an alternative.  If it is refused, the position is the same as before, and the error is
given as a value; a lexical error and an overflow are passed on. -/
def attempt (alternative : Parser α) : Parser (Except (Located SyntaxError) α) := fun state =>
  match alternative { state with marks := state.position :: state.marks } with
  | .ok value state => .ok (.ok value) { state with marks := state.marks.tail }
  | .error (.failed (.refused error)) state =>
    if error.val.isLexical then
      .error (.failed (.refused error)) { state with marks := state.marks.tail }
    else
      .ok (.error error)
        { state with marks := state.marks.tail, position := state.marks.headD state.position }
  | .error stop state => .error stop { state with marks := state.marks.tail }

/-- Works out a rule by running its body. -/
def workOut (rule : Rule) (body : Parser Expr) : Parser Expr := fun state =>
  body { state with worked := (rule, state.position) :: state.worked }

/-- Works out a rule and remembers what it gave.  Failures after which nothing else is tried are not
remembered. -/
def workOutOnce (rule : Rule) (body : Parser Expr) : Parser Expr := fun state =>
  let key := memoKey rule state.position
  match workOut rule body state with
  | .ok expr state =>
    .ok expr { state with memo := state.memo.insert key (.parsed state.position expr) }
  | .error (.failed (.refused error)) state =>
    if error.val.isLexical then .error (.failed (.refused error)) state
    else
      .error (.failed (.refused error)) { state with memo := state.memo.insert key (.failed error) }
  | .error stop state => .error stop state

/-- Gives what a rule gave before at this token, or works it out if there is no such outcome. -/
def remembering (grammar : Grammar) (rule : Rule) (body : Parser Expr) : Parser Expr := fun state =>
  if grammar.remembers then
    match state.memo[memoKey rule state.position]? with
    | some (.failed error) => .error (.failed (.refused error)) state
    | some (.parsed stop expr) => .ok expr { state with position := stop }
    | none => workOutOnce rule body state
  else workOut rule body state

/-- The operation on two operands that a token writes. -/
def binaryOp? (token : Token) : Option BinaryOp :=
  match token.kind with
  | .sign | .operator => BinaryOp.ofSymbol? token.text
  | _ => none

/-- The operation on one operand that a token writes. -/
def unaryOp? (token : Token) : Option UnaryOp :=
  match token.kind with
  | .sign => some (if token.text = "+" then .plus else .minus)
  | _ => none

/-- Whether a token can start the operand of a sign.  Another sign cannot. -/
def startsOperand (token : Token) : Bool :=
  match token.kind with
  | .number | .ident | .leftParen => true
  | _ => false

/-- The least priority that operators to the right of `op` need to belong to its right operand, if
there is one.  Above the greatest word there is none. -/
def rightPriority? (grammar : Grammar) (op : BinaryOp) : Option UInt64 :=
  if op.isRightGrouping then some (grammar.priority op)
  else if (grammar.priority op).toNat + 1 < UInt64.size then some (grammar.priority op + 1)
  else none

/-- Reads a numeric literal. -/
def number : Parser Expr := do
  let token ← expect .number .expression
  match Decimal.ofText? token.text with
  | .ok value => return .number token.span value
  | .error _ => reject token.span .malformedNumber

/-- Reads the end of the call of a function. -/
def closeCall (name : Token) (args : List Expr) : Parser Expr := do
  let closing ← expect .rightParen .call
  return .call (← unite name.span closing.span) ⟨name.span, name.text⟩ args

/-- Puts an expression into the parentheses around it. -/
def enclose (opening closing : Token) (inner : Expr) : Parser Expr := do
  match inner with
  | .var .. => return inner
  | _ => return inner.parenthesized (← unite opening.span closing.span)

mutual

/-- Reads an expression. -/
def expression (grammar : Grammar) : Nat → Parser Expr
  | 0 => throw .outOfSteps
  | steps + 1 => remembering grammar .expression (chain grammar steps 0)

/-- Reads terms joined by operators of at least the priority `least`. -/
def chain (grammar : Grammar) : Nat → UInt64 → Parser Expr
  | 0, _ => throw .outOfSteps
  | steps + 1, least => do
    let lhs ← term grammar steps
    extend grammar steps least lhs

/-- Goes on with a chain after its part `lhs`. -/
def extend (grammar : Grammar) : Nat → UInt64 → Expr → Parser Expr
  | 0, _, _ => throw .outOfSteps
  | steps + 1, least, lhs => do
    let token ← peek 0
    match binaryOp? token with
    | none => return lhs
    | some op =>
      if grammar.priority op < least then return lhs
      else
        advance
        match rightPriority? grammar op with
        | none => throw (.failed .overflow)
        | some inner =>
          let rhs ← chain grammar steps inner
          let span ← unite lhs.span rhs.span
          extend grammar steps least (.binary span lhs ⟨token.span, op⟩ rhs)

/-- Reads a term. -/
def term (grammar : Grammar) : Nat → Parser Expr
  | 0 => throw .outOfSteps
  | steps + 1 => do
    let token ← peek 0
    match token.kind with
    | .number => number
    | .ident =>
      match ← attempt (remembering grammar .call (call grammar steps)) with
      | .ok expr => return expr
      | .error error =>
        -- A name before a parenthesis can only be a call, whose error is then the one to report.
        if (← peek 1).kind = .leftParen then refuse error
        else
          advance
          return .var token.span token.text
    | .leftParen => remembering grammar .paren (paren grammar steps)
    | .sign => remembering grammar .unary (unary grammar steps)
    | found => reject token.span (.noViableAlternative .expression found)

/-- Reads the call of a function. -/
def call (grammar : Grammar) : Nat → Parser Expr
  | 0 => throw .outOfSteps
  | steps + 1 => do
    let name ← expect .ident .call
    discard <| expect .leftParen .call
    let args ←
      if (← peek 0).kind = .rightParen then pure []
      else do
        let first ← expression grammar steps
        let others ← moreArguments grammar steps
        pure (first :: others)
    closeCall name args

/-- Reads the arguments that follow the first one, each after a comma. -/
def moreArguments (grammar : Grammar) : Nat → Parser (List Expr)
  | 0 => throw .outOfSteps
  | steps + 1 => do
    if (← peek 0).kind = .comma then
      advance
      let first ← expression grammar steps
      let others ← moreArguments grammar steps
      return first :: others
    else return []

/-- Reads an expression in parentheses. -/
def paren (grammar : Grammar) : Nat → Parser Expr
  | 0 => throw .outOfSteps
  | steps + 1 => do
    let opening ← expect .leftParen .expression
    let inner ← expression grammar steps
    let closing ← expect .rightParen .expression
    enclose opening closing inner

/-- Reads a sign and its operand. -/
def unary (grammar : Grammar) : Nat → Parser Expr
  | 0 => throw .outOfSteps
  | steps + 1 => do
    let token ← peek 0
    match unaryOp? token with
    | none => reject token.span (.noViableAlternative .expression token.kind)
    | some op =>
      advance
      let next ← peek 0
      if startsOperand next then
        let operand ← term grammar steps
        return .unary (← unite token.span operand.span) ⟨token.span, op⟩ operand
      else reject next.span (.noViableAlternative .expression next.kind)

end

/-- Reads an expression that is the whole of the source text. -/
def wholeExpression (grammar : Grammar) (steps : Nat) : Parser Statement := do
  let value ← expression grammar steps
  discard <| expect .finish .expression
  return .expression value

/-- Reads an assignment that is the whole of the source text. -/
def wholeAssignment (grammar : Grammar) (steps : Nat) : Parser Statement := do
  let target ← expect .ident .assignment
  discard <| expect .equals .assignment
  let value ← expression grammar steps
  let span ← unite target.span value.span
  discard <| expect .finish .expression
  return .assignment span ⟨target.span, target.text⟩ value

/-- Reads a statement.  If neither alternative applies, the error of the one that got further is
reported, and that of the expression if both stopped at the same place. -/
def statement (grammar : Grammar) (steps : Nat) : Parser Statement := do
  match ← attempt (wholeExpression grammar steps) with
  | .ok value => return value
  | .error asExpression =>
    match ← attempt (wholeAssignment grammar steps) with
    | .ok value => return value
    | .error asAssignment =>
      refuse
        (if asExpression.span.offset < asAssignment.span.offset then asAssignment
         else asExpression)

/-- Steps enough for a source text of `length` characters.  At most four rules are entered between
one token and the next. -/
def stepsFor (length : Nat) : Nat := 8 * (length + 2)

end Parser

/-- Reads a source text as a statement. -/
def Statement.parse? (grammar : Grammar) (source : List Char) :
    Except SyntaxFailure Statement :=
  match Parser.statement grammar (Parser.stepsFor source.length) (.start source) with
  | .ok statement _ => .ok statement
  | .error (.failed why) _ => .error why
  | .error .outOfSteps _ => .error (.refused ⟨.whole source, .unexpectedChar⟩)

end Abacus
