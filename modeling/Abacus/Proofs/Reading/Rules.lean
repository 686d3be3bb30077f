import Abacus.Proofs.Reading.Items

/-!
# What the rules of the grammar read

The rules as relations on the items of a text, without the state of a parser: no buffer, no
remembered outcomes, no rewinding and no count of steps.  `Reads goal i j expr` says that the goal,
met at item `i`, is read up to item `j` and gives `expr`.  `Fails goal i why` says that it stops
there, with an error or because a priority overflows.

One token of lookahead decides between all alternatives of a term, but for a name, where the token
behind it tells a call from a variable.  So the two relations exclude each other and an outcome is
unique; `Reads.unique`, `Reads.not_fails` and `Fails.unique` are the main statements.
-/

namespace Abacus.Reading

open Abacus.Parser

/-- What is to be read. -/
inductive Goal where
  /-- Terms joined by operators of at least the priority `least`. -/
  | chain (least : UInt64)
  /-- The rest of such a chain after its part `lhs`. -/
  | extend (least : UInt64) (lhs : Expr)
  /-- A term. -/
  | term
  /-- The call of a function. -/
  | call
  /-- The rest of the call of `name` after the arguments `args`, at least one. -/
  | arguments (name : Token) (args : List Expr)
  /-- An expression in parentheses. -/
  | paren
  /-- A sign and its operand. -/
  | unary

/-- The operation that a token adds to a chain of priority `least`. -/
def joins? (g : Grammar) (least : UInt64) (token : Token) : Option BinaryOp :=
  (binaryOp? token).filter fun op => !decide (g.priority op < least)

/-- The call that a name, its arguments and the closing parenthesis make. -/
def callOf (name closing : Token) (args : List Expr) : Expr :=
  .call (name.span.unite closing.span) ⟨name.span, name.text⟩ args

/-- The operation that an operator token makes of two operands. -/
def binaryOf (lhs : Expr) (token : Token) (op : BinaryOp) (rhs : Expr) : Expr :=
  .binary (lhs.span.unite rhs.span) lhs ⟨token.span, op⟩ rhs

/-- The operation that a sign makes of its operand. -/
def unaryOf (token : Token) (op : UnaryOp) (operand : Expr) : Expr :=
  .unary (token.span.unite operand.span) ⟨token.span, op⟩ operand

variable (g : Grammar) (s : Nat → Lexed)

/-- The token at a place is of a kind. -/
def Stands (i : Nat) (kind : TokenKind) (token : Token) : Prop :=
  s i = .ok token ∧ token.kind = kind

/-- The goal, met at item `i`, is read up to item `j` and gives an expression. -/
inductive Reads : Goal → Nat → Nat → Expr → Prop
  | chain {i j k : Nat} {least : UInt64} {lhs expr : Expr}
      (first : Reads .term i j lhs) (rest : Reads (.extend least lhs) j k expr) :
      Reads (.chain least) i k expr
  | done {i : Nat} {least : UInt64} {lhs : Expr} {token : Token}
      (htoken : s i = .ok token) (hjoins : joins? g least token = none) :
      Reads (.extend least lhs) i i lhs
  | join {i j k : Nat} {least inner : UInt64} {lhs rhs expr : Expr} {token : Token} {op : BinaryOp}
      (htoken : s i = .ok token) (hjoins : joins? g least token = some op)
      (hinner : rightPriority? g op = some inner) (operand : Reads (.chain inner) (i + 1) j rhs)
      (rest : Reads (.extend least (binaryOf lhs token op rhs)) j k expr) :
      Reads (.extend least lhs) i k expr
  | number {i : Nat} {token : Token} {value : Decimal}
      (htoken : Stands s i .number token) (hvalue : Decimal.ofText? token.text = .ok value) :
      Reads .term i (i + 1) (.number token.span value)
  | var {i : Nat} {token next : Token}
      (htoken : Stands s i .ident token) (hnext : s (i + 1) = .ok next)
      (hkind : next.kind ≠ .leftParen) :
      Reads .term i (i + 1) (.var token.span token.text)
  | called {i j : Nat} {expr : Expr} (call : Reads .call i j expr) : Reads .term i j expr
  | grouped {i j : Nat} {expr : Expr} (paren : Reads .paren i j expr) : Reads .term i j expr
  | signed {i j : Nat} {expr : Expr} (unary : Reads .unary i j expr) : Reads .term i j expr
  | callEmpty {i : Nat} {name opening closing : Token}
      (hname : Stands s i .ident name) (hopening : Stands s (i + 1) .leftParen opening)
      (hclosing : Stands s (i + 2) .rightParen closing) :
      Reads .call i (i + 3) (callOf name closing [])
  | callFirst {i j k : Nat} {name opening : Token} {first expr : Expr}
      (hname : Stands s i .ident name) (hopening : Stands s (i + 1) .leftParen opening)
      (argument : Reads (.chain 0) (i + 2) j first)
      (rest : Reads (.arguments name [first]) j k expr) :
      Reads .call i k expr
  | next {i j k : Nat} {name comma : Token} {args : List Expr} {arg expr : Expr}
      (hcomma : Stands s i .comma comma) (argument : Reads (.chain 0) (i + 1) j arg)
      (rest : Reads (.arguments name (args ++ [arg])) j k expr) :
      Reads (.arguments name args) i k expr
  | close {i : Nat} {name closing : Token} {args : List Expr}
      (hclosing : Stands s i .rightParen closing) :
      Reads (.arguments name args) i (i + 1) (callOf name closing args)
  | paren {i j : Nat} {opening closing : Token} {inner : Expr}
      (hopening : Stands s i .leftParen opening) (expression : Reads (.chain 0) (i + 1) j inner)
      (hclosing : Stands s j .rightParen closing) :
      Reads .paren i (j + 1) (inner.parenthesized (opening.span.unite closing.span))
  | unary {i j : Nat} {token next : Token} {op : UnaryOp} {operand : Expr}
      (htoken : s i = .ok token) (hop : unaryOp? token = some op)
      (hnext : s (i + 1) = .ok next) (hstarts : startsOperand next = true)
      (term : Reads .term (i + 1) j operand) :
      Reads .unary i j (unaryOf token op operand)

/-- Why an item is no token of the given kind. -/
def missing? (kind : TokenKind) (context : Context) : Lexed → Option (Located SyntaxError)
  | .error span => some ⟨span, .unexpectedChar⟩
  | .ok token =>
    if token.kind = kind then none else some ⟨token.span, .mismatched context kind token.kind⟩

/-- The token cannot start a term. -/
def startsNoTerm (token : Token) : Bool :=
  match token.kind with
  | .number | .ident | .leftParen | .sign => false
  | _ => true

/-- The goal, met at item `i`, is not read. -/
inductive Fails : Goal → Nat → SyntaxFailure → Prop
  | chainFirst {i : Nat} {least : UInt64} {why : SyntaxFailure}
      (first : Fails .term i why) : Fails (.chain least) i why
  | chainRest {i j : Nat} {least : UInt64} {lhs : Expr} {why : SyntaxFailure}
      (first : Reads g s .term i j lhs) (rest : Fails (.extend least lhs) j why) :
      Fails (.chain least) i why
  | extendChar {i : Nat} {least : UInt64} {lhs : Expr} {span : Span}
      (hchar : s i = .error span) : Fails (.extend least lhs) i (.refused ⟨span, .unexpectedChar⟩)
  | extendOverflow {i : Nat} {least : UInt64} {lhs : Expr} {token : Token} {op : BinaryOp}
      (htoken : s i = .ok token) (hjoins : joins? g least token = some op)
      (hinner : rightPriority? g op = none) : Fails (.extend least lhs) i .overflow
  | extendOperand {i : Nat} {least inner : UInt64} {lhs : Expr} {token : Token} {op : BinaryOp}
      {why : SyntaxFailure}
      (htoken : s i = .ok token) (hjoins : joins? g least token = some op)
      (hinner : rightPriority? g op = some inner) (operand : Fails (.chain inner) (i + 1) why) :
      Fails (.extend least lhs) i why
  | extendRest {i j : Nat} {least inner : UInt64} {lhs rhs : Expr} {token : Token} {op : BinaryOp}
      {why : SyntaxFailure}
      (htoken : s i = .ok token) (hjoins : joins? g least token = some op)
      (hinner : rightPriority? g op = some inner)
      (operand : Reads g s (.chain inner) (i + 1) j rhs)
      (rest : Fails (.extend least (binaryOf lhs token op rhs)) j why) :
      Fails (.extend least lhs) i why
  | termChar {i : Nat} {span : Span} (hchar : s i = .error span) :
      Fails .term i (.refused ⟨span, .unexpectedChar⟩)
  | termNumber {i : Nat} {token : Token} {why : LiteralError}
      (htoken : Stands s i .number token) (hvalue : Decimal.ofText? token.text = .error why) :
      Fails .term i (.refused ⟨token.span, .malformedNumber⟩)
  | termNextChar {i : Nat} {token : Token} {span : Span}
      (htoken : Stands s i .ident token) (hchar : s (i + 1) = .error span) :
      Fails .term i (.refused ⟨span, .unexpectedChar⟩)
  | termCall {i : Nat} {token opening : Token} {why : SyntaxFailure}
      (htoken : Stands s i .ident token) (hopening : Stands s (i + 1) .leftParen opening)
      (call : Fails .call i why) : Fails .term i why
  | termParen {i : Nat} {token : Token} {why : SyntaxFailure}
      (htoken : Stands s i .leftParen token) (paren : Fails .paren i why) : Fails .term i why
  | termUnary {i : Nat} {token : Token} {why : SyntaxFailure}
      (htoken : Stands s i .sign token) (unary : Fails .unary i why) : Fails .term i why
  | termNone {i : Nat} {token : Token} (htoken : s i = .ok token)
      (hstarts : startsNoTerm token = true) :
      Fails .term i (.refused ⟨token.span, .noViableAlternative .expression token.kind⟩)
  | callName {i : Nat} {error : Located SyntaxError}
      (hname : missing? .ident .call (s i) = some error) : Fails .call i (.refused error)
  | callOpening {i : Nat} {name : Token} {error : Located SyntaxError}
      (hname : Stands s i .ident name)
      (hopening : missing? .leftParen .call (s (i + 1)) = some error) :
      Fails .call i (.refused error)
  | callChar {i : Nat} {name opening : Token} {span : Span}
      (hname : Stands s i .ident name) (hopening : Stands s (i + 1) .leftParen opening)
      (hchar : s (i + 2) = .error span) : Fails .call i (.refused ⟨span, .unexpectedChar⟩)
  | callFirst {i : Nat} {name opening next : Token} {why : SyntaxFailure}
      (hname : Stands s i .ident name) (hopening : Stands s (i + 1) .leftParen opening)
      (hnext : s (i + 2) = .ok next) (hkind : next.kind ≠ .rightParen)
      (argument : Fails (.chain 0) (i + 2) why) : Fails .call i why
  | callRest {i j : Nat} {name opening : Token} {first : Expr} {why : SyntaxFailure}
      (hname : Stands s i .ident name) (hopening : Stands s (i + 1) .leftParen opening)
      (argument : Reads g s (.chain 0) (i + 2) j first)
      (rest : Fails (.arguments name [first]) j why) : Fails .call i why
  | nextArgument {i : Nat} {name comma : Token} {args : List Expr} {why : SyntaxFailure}
      (hcomma : Stands s i .comma comma) (argument : Fails (.chain 0) (i + 1) why) :
      Fails (.arguments name args) i why
  | nextRest {i j : Nat} {name comma : Token} {args : List Expr} {arg : Expr}
      {why : SyntaxFailure}
      (hcomma : Stands s i .comma comma) (argument : Reads g s (.chain 0) (i + 1) j arg)
      (rest : Fails (.arguments name (args ++ [arg])) j why) :
      Fails (.arguments name args) i why
  | close {i : Nat} {name : Token} {args : List Expr} {error : Located SyntaxError}
      (hcomma : ∀ comma, ¬ Stands s i .comma comma)
      (hclosing : missing? .rightParen .call (s i) = some error) :
      Fails (.arguments name args) i (.refused error)
  | parenOpening {i : Nat} {error : Located SyntaxError}
      (hopening : missing? .leftParen .expression (s i) = some error) :
      Fails .paren i (.refused error)
  | parenInner {i : Nat} {opening : Token} {why : SyntaxFailure}
      (hopening : Stands s i .leftParen opening) (expression : Fails (.chain 0) (i + 1) why) :
      Fails .paren i why
  | parenClosing {i j : Nat} {opening : Token} {inner : Expr} {error : Located SyntaxError}
      (hopening : Stands s i .leftParen opening)
      (expression : Reads g s (.chain 0) (i + 1) j inner)
      (hclosing : missing? .rightParen .expression (s j) = some error) :
      Fails .paren i (.refused error)
  | unaryChar {i : Nat} {span : Span} (hchar : s i = .error span) :
      Fails .unary i (.refused ⟨span, .unexpectedChar⟩)
  | unarySign {i : Nat} {token : Token} (htoken : s i = .ok token)
      (hop : unaryOp? token = none) :
      Fails .unary i (.refused ⟨token.span, .noViableAlternative .expression token.kind⟩)
  | unaryNextChar {i : Nat} {token : Token} {op : UnaryOp} {span : Span}
      (htoken : s i = .ok token) (hop : unaryOp? token = some op)
      (hchar : s (i + 1) = .error span) : Fails .unary i (.refused ⟨span, .unexpectedChar⟩)
  | unaryOperand {i : Nat} {token next : Token} {op : UnaryOp}
      (htoken : s i = .ok token) (hop : unaryOp? token = some op)
      (hnext : s (i + 1) = .ok next) (hstarts : startsOperand next = false) :
      Fails .unary i (.refused ⟨next.span, .noViableAlternative .expression next.kind⟩)
  | unaryTerm {i : Nat} {token next : Token} {op : UnaryOp} {why : SyntaxFailure}
      (htoken : s i = .ok token) (hop : unaryOp? token = some op)
      (hnext : s (i + 1) = .ok next) (hstarts : startsOperand next = true)
      (term : Fails .term (i + 1) why) : Fails .unary i why

/-! ## How a goal starts -/

variable {g s}

theorem Stands.unique {i : Nat} {kind kind' : TokenKind} {token token' : Token}
    (h : Stands s i kind token) (h' : Stands s i kind' token') : token = token' ∧ kind = kind' := by
  have heq : token = token' := by simpa using h.1.symm.trans h'.1
  exact ⟨heq, by rw [← h.2, ← h'.2, heq]⟩

theorem missing?_eq_none_iff {i : Nat} {kind : TokenKind} {context : Context} :
    missing? kind context (s i) = none ↔ ∃ token, Stands s i kind token := by
  unfold missing? Stands
  cases s i <;> simp

theorem Stands.missing? {i : Nat} {kind : TokenKind} {token : Token} (context : Context)
    (h : Stands s i kind token) : missing? kind context (s i) = none :=
  missing?_eq_none_iff.mpr ⟨token, h⟩

/-- Only a character of no token is a lexical reason. -/
theorem missing?_lexical {kind : TokenKind} {context : Context} {item : Lexed}
    {error : Located SyntaxError} (h : missing? kind context item = some error)
    (hlexical : error.val.isLexical = true) :
    ∃ span, item = .error span ∧ error = ⟨span, .unexpectedChar⟩ := by
  cases item with
  | error span => exact ⟨span, rfl, (Option.some.inj h).symm⟩
  | ok token =>
    obtain ⟨_, hsome⟩ := Option.ite_none_left_eq_some.mp h
    obtain rfl := Option.some.inj hsome
    cases hlexical

/-- The operation that joins a chain, and the priority behind it, are unique. -/
theorem join_unique {i : Nat} {least inner inner' : UInt64} {token token' : Token} {op op' : BinaryOp}
    (h : s i = .ok token ∧ joins? g least token = some op ∧ rightPriority? g op = some inner)
    (h' : s i = .ok token' ∧ joins? g least token' = some op' ∧
      rightPriority? g op' = some inner') :
    token = token' ∧ op = op' ∧ inner = inner' := by
  obtain ⟨htoken, hjoins, hinner⟩ := h
  obtain ⟨htoken', hjoins', hinner'⟩ := h'
  obtain rfl := Except.ok.inj (htoken.symm.trans htoken')
  obtain rfl := Option.some.inj (hjoins.symm.trans hjoins')
  exact ⟨rfl, rfl, Option.some.inj (hinner.symm.trans hinner')⟩

/-- The tokens that the goal can start with. -/
def Goal.Starts (goal : Goal) (token : Token) : Prop :=
  match goal with
  | .chain _ | .term => startsNoTerm token = false
  | .call => token.kind = .ident
  | .paren => token.kind = .leftParen
  | .unary => token.kind = .sign
  | .extend .. | .arguments .. => True

theorem unaryOp?_kind {token : Token} {op : UnaryOp} (h : unaryOp? token = some op) :
    token.kind = .sign := by
  unfold unaryOp? at h
  split at h
  · assumption
  · simp at h

theorem Reads.starts {goal : Goal} {i j : Nat} {expr : Expr} (h : Reads g s goal i j expr) :
    ∃ token, s i = .ok token ∧ goal.Starts token := by
  induction h with
  | chain _ _ ih _ => exact ih
  | done htoken _ | join htoken _ _ _ _ _ _ => exact ⟨_, htoken, trivial⟩
  | number htoken _ | var htoken _ _ =>
    exact ⟨_, htoken.1, by simp [Goal.Starts, startsNoTerm, htoken.2]⟩
  | called _ ih | grouped _ ih | signed _ ih =>
    obtain ⟨token, htoken, hkind⟩ := ih
    exact ⟨token, htoken, by simp_all [Goal.Starts, startsNoTerm]⟩
  | callEmpty hname _ _ | callFirst hname _ _ _ _ _ => exact ⟨_, hname⟩
  | next hcomma _ _ _ _ => exact ⟨_, hcomma.1, trivial⟩
  | close hclosing => exact ⟨_, hclosing.1, trivial⟩
  | paren hopening _ _ _ => exact ⟨_, hopening⟩
  | unary htoken hop _ _ _ _ => exact ⟨_, htoken, unaryOp?_kind hop⟩

theorem Reads.stands_of_call {i j : Nat} {expr : Expr} (h : Reads g s .call i j expr) :
    ∃ name opening, Stands s i .ident name ∧ Stands s (i + 1) .leftParen opening := by
  cases h with
  | callEmpty hname hopening _ | callFirst hname hopening _ _ => exact ⟨_, _, hname, hopening⟩

/-- Reading moves on by a token at least, but the rest of a chain may be empty. -/
theorem Reads.progress {goal : Goal} {i j : Nat} {expr : Expr} (h : Reads g s goal i j expr) :
    match goal with
    | .extend .. => i ≤ j
    | _ => i < j := by
  induction h with
  | chain | join | callFirst | next | paren | unary => dsimp only at *; omega
  | done | number | var | callEmpty | close => simp
  | called _ ih | grouped _ ih | signed _ ih => exact ih

/-- A closing parenthesis starts no expression. -/
theorem Reads.not_rightParen {least : UInt64} {i j : Nat} {expr : Expr} {token : Token}
    (h : Reads g s (.chain least) i j expr) : ¬ Stands s i .rightParen token := by
  intro hstands
  obtain ⟨first, hfirst, hstarts⟩ := h.starts
  obtain rfl : first = token := by simpa using hfirst.symm.trans hstands.1
  simp [Goal.Starts, startsNoTerm, hstands.2] at hstarts

/-! ## Outcomes are unique -/

theorem Reads.unique {goal : Goal} {i j j' : Nat} {expr expr' : Expr}
    (h : Reads g s goal i j expr) (h' : Reads g s goal i j' expr') : j' = j ∧ expr' = expr := by
  induction h generalizing j' expr' with
  | chain _ _ first rest =>
    cases h' with
    | chain first' rest' =>
      obtain ⟨rfl, rfl⟩ := first first'
      exact rest rest'
  | done htoken hjoins =>
    cases h' with
    | done _ _ => exact ⟨rfl, rfl⟩
    | join htoken' hjoins' _ _ _ => grind
  | join htoken hjoins hinner _ _ operand rest =>
    cases h' with
    | done htoken' hjoins' => grind
    | join htoken' hjoins' hinner' operand' rest' =>
      obtain ⟨rfl, rfl, rfl⟩ := join_unique ⟨htoken, hjoins, hinner⟩ ⟨htoken', hjoins', hinner'⟩
      obtain ⟨rfl, rfl⟩ := operand operand'
      exact rest rest'
  | number htoken hvalue =>
    cases h' with
    | number htoken' hvalue' =>
      obtain ⟨rfl, _⟩ := htoken.unique htoken'
      exact ⟨rfl, by grind⟩
    | var htoken' _ _ => grind [Stands.unique]
    | called call' => grind [Stands.unique, call'.stands_of_call]
    | grouped paren' => grind [Stands, Goal.Starts, paren'.starts]
    | signed unary' => grind [Stands, Goal.Starts, unary'.starts]
  | var htoken hnext hkind =>
    cases h' with
    | number htoken' _ => grind [Stands.unique]
    | var htoken' _ _ =>
      obtain ⟨rfl, _⟩ := htoken.unique htoken'
      exact ⟨rfl, rfl⟩
    | called call' => grind [Stands, call'.stands_of_call]
    | grouped paren' => grind [Stands, Goal.Starts, paren'.starts]
    | signed unary' => grind [Stands, Goal.Starts, unary'.starts]
  | called call ih =>
    cases h' with
    | number htoken' _ => grind [Stands.unique, call.stands_of_call]
    | var htoken' _ _ => grind [Stands, call.stands_of_call]
    | called call' => exact ih call'
    | grouped paren' => grind [Stands, Goal.Starts, paren'.starts, call.stands_of_call]
    | signed unary' => grind [Stands, Goal.Starts, unary'.starts, call.stands_of_call]
  | grouped paren ih =>
    cases h' with
    | number htoken' _ | var htoken' _ _ => grind [Stands, Goal.Starts, paren.starts]
    | called call' => grind [Stands, Goal.Starts, paren.starts, call'.stands_of_call]
    | grouped paren' => exact ih paren'
    | signed unary' => grind [Goal.Starts, paren.starts, unary'.starts]
  | signed unary ih =>
    cases h' with
    | number htoken' _ | var htoken' _ _ => grind [Stands, Goal.Starts, unary.starts]
    | called call' => grind [Stands, Goal.Starts, unary.starts, call'.stands_of_call]
    | grouped paren' => grind [Goal.Starts, unary.starts, paren'.starts]
    | signed unary' => exact ih unary'
  | callEmpty hname hopening hclosing =>
    cases h' with
    | callEmpty hname' _ hclosing' =>
      obtain ⟨rfl, _⟩ := hname.unique hname'
      obtain ⟨rfl, _⟩ := hclosing.unique hclosing'
      exact ⟨rfl, rfl⟩
    | callFirst _ _ argument' _ => exact absurd hclosing argument'.not_rightParen
  | callFirst hname hopening argument _ ihargument ihrest =>
    cases h' with
    | callEmpty _ _ hclosing' => exact absurd hclosing' argument.not_rightParen
    | callFirst hname' _ argument' rest' =>
      obtain ⟨rfl, _⟩ := hname.unique hname'
      obtain ⟨rfl, rfl⟩ := ihargument argument'
      exact ihrest rest'
  | next hcomma _ _ ihargument ihrest =>
    cases h' with
    | next hcomma' argument' rest' =>
      obtain ⟨rfl, rfl⟩ := ihargument argument'
      exact ihrest rest'
    | close hclosing' => grind [Stands.unique]
  | close hclosing =>
    cases h' with
    | next hcomma' _ _ => grind [Stands.unique]
    | close hclosing' =>
      obtain ⟨rfl, _⟩ := hclosing.unique hclosing'
      exact ⟨rfl, rfl⟩
  | paren hopening _ hclosing ih =>
    cases h' with
    | paren hopening' expression' hclosing' =>
      obtain ⟨rfl, rfl⟩ := ih expression'
      obtain ⟨rfl, _⟩ := hopening.unique hopening'
      obtain ⟨rfl, _⟩ := hclosing.unique hclosing'
      exact ⟨rfl, rfl⟩
  | unary htoken hop _ _ _ ih =>
    cases h' with
    | unary htoken' hop' _ _ term' =>
      obtain rfl : _ = _ := Except.ok.inj (htoken.symm.trans htoken')
      obtain rfl : _ = _ := Option.some.inj (hop.symm.trans hop')
      obtain ⟨rfl, rfl⟩ := ih term'
      exact ⟨rfl, rfl⟩

theorem Reads.not_fails {goal : Goal} {i j : Nat} {expr : Expr} {why : SyntaxFailure}
    (h : Reads g s goal i j expr) : ¬ Fails g s goal i why := by
  intro hfails
  induction h generalizing why with
  | chain first _ ihfirst ihrest =>
    cases hfails with
    | chainFirst first' => exact ihfirst first'
    | chainRest first' rest' =>
      obtain ⟨rfl, rfl⟩ := first.unique first'
      exact ihrest rest'
  | done htoken hjoins => cases hfails <;> grind
  | join htoken hjoins hinner operand _ ihoperand ihrest =>
    cases hfails with
    | extendChar hchar => grind
    | extendOverflow htoken' hjoins' hinner' => grind
    | extendOperand htoken' hjoins' hinner' operand' =>
      obtain ⟨rfl, rfl, rfl⟩ := join_unique ⟨htoken, hjoins, hinner⟩ ⟨htoken', hjoins', hinner'⟩
      exact ihoperand operand'
    | extendRest htoken' hjoins' hinner' operand' rest' =>
      obtain ⟨rfl, rfl, rfl⟩ := join_unique ⟨htoken, hjoins, hinner⟩ ⟨htoken', hjoins', hinner'⟩
      obtain ⟨rfl, rfl⟩ := operand.unique operand'
      exact ihrest rest'
  | number htoken hvalue => cases hfails <;> grind [Stands, startsNoTerm]
  | var htoken hnext hkind => cases hfails <;> grind [Stands, startsNoTerm]
  | called call ih =>
    obtain ⟨name, opening, hname, hopening⟩ := call.stands_of_call
    cases hfails with
    | termCall _ _ call' => exact ih call'
    | _ => grind [Stands, startsNoTerm]
  | grouped paren ih =>
    obtain ⟨token, htoken, hkind⟩ := paren.starts
    cases hfails with
    | termParen _ paren' => exact ih paren'
    | _ => grind [Stands, startsNoTerm, Goal.Starts]
  | signed unary ih =>
    obtain ⟨token, htoken, hkind⟩ := unary.starts
    cases hfails with
    | termUnary _ unary' => exact ih unary'
    | _ => grind [Stands, startsNoTerm, Goal.Starts]
  | callEmpty hname hopening hclosing =>
    cases hfails with
    | callRest _ _ argument' _ => exact argument'.not_rightParen hclosing
    | _ => grind [Stands, Stands.missing?]
  | callFirst hname hopening argument _ ihargument ihrest =>
    obtain ⟨token, htoken, _⟩ := argument.starts
    cases hfails with
    | callFirst _ _ _ _ argument' => exact ihargument argument'
    | callRest hname' _ argument' rest' =>
      obtain ⟨rfl, _⟩ := hname.unique hname'
      obtain ⟨rfl, rfl⟩ := argument.unique argument'
      exact ihrest rest'
    | _ => grind [Stands, Stands.missing?]
  | next hcomma argument _ ihargument ihrest =>
    cases hfails with
    | nextArgument _ argument' => exact ihargument argument'
    | nextRest _ argument' rest' =>
      obtain ⟨rfl, rfl⟩ := argument.unique argument'
      exact ihrest rest'
    | close hcomma' _ => exact hcomma' _ hcomma
  | close hclosing => cases hfails <;> grind [Stands, Stands.missing?]
  | paren hopening expression hclosing ih =>
    cases hfails with
    | parenOpening hopening' => grind [Stands.missing?]
    | parenInner _ expression' => exact ih expression'
    | parenClosing _ expression' hclosing' =>
      obtain ⟨rfl, rfl⟩ := expression.unique expression'
      grind [Stands.missing?]
  | unary htoken hop hnext hstarts _ ih =>
    cases hfails with
    | unaryTerm _ _ _ _ term' => exact ih term'
    | _ => grind

theorem Fails.unique {goal : Goal} {i : Nat} {why why' : SyntaxFailure}
    (h : Fails g s goal i why) (h' : Fails g s goal i why') : why' = why := by
  induction h generalizing why' with
  | chainFirst first ih =>
    cases h' with
    | chainFirst first' => exact ih first'
    | chainRest first' _ => exact absurd first first'.not_fails
  | chainRest first _ ih =>
    cases h' with
    | chainFirst first' => exact absurd first' first.not_fails
    | chainRest first' rest' =>
      obtain ⟨rfl, rfl⟩ := first.unique first'
      exact ih rest'
  | extendChar | extendOverflow => cases h' <;> grind
  | extendOperand htoken hjoins hinner operand ih =>
    cases h' with
    | extendChar | extendOverflow => grind
    | extendOperand htoken' hjoins' hinner' operand' =>
      obtain ⟨rfl, rfl, rfl⟩ := join_unique ⟨htoken, hjoins, hinner⟩ ⟨htoken', hjoins', hinner'⟩
      exact ih operand'
    | extendRest htoken' hjoins' hinner' operand' rest' =>
      obtain ⟨rfl, rfl, rfl⟩ := join_unique ⟨htoken, hjoins, hinner⟩ ⟨htoken', hjoins', hinner'⟩
      exact absurd operand operand'.not_fails
  | extendRest htoken hjoins hinner operand _ ih =>
    cases h' with
    | extendChar | extendOverflow => grind
    | extendOperand htoken' hjoins' hinner' operand' =>
      obtain ⟨rfl, rfl, rfl⟩ := join_unique ⟨htoken, hjoins, hinner⟩ ⟨htoken', hjoins', hinner'⟩
      exact absurd operand' operand.not_fails
    | extendRest htoken' hjoins' hinner' operand' rest' =>
      obtain ⟨rfl, rfl, rfl⟩ := join_unique ⟨htoken, hjoins, hinner⟩ ⟨htoken', hjoins', hinner'⟩
      obtain ⟨rfl, rfl⟩ := operand.unique operand'
      exact ih rest'
  | termChar | termNumber | termNextChar | termNone => cases h' <;> grind [Stands, startsNoTerm]
  | termCall _ _ _ ih =>
    cases h' with
    | termCall _ _ call' => exact ih call'
    | _ => grind [Stands, startsNoTerm]
  | termParen _ _ ih =>
    cases h' with
    | termParen _ paren' => exact ih paren'
    | _ => grind [Stands, startsNoTerm]
  | termUnary _ _ ih =>
    cases h' with
    | termUnary _ unary' => exact ih unary'
    | _ => grind [Stands, startsNoTerm]
  | callName | callOpening | callChar =>
    cases h' with
    | callRest _ _ argument' _ =>
      obtain ⟨token, htoken, _⟩ := argument'.starts
      grind [Stands, Stands.missing?]
    | _ => grind [Stands, Stands.missing?]
  | callFirst hname hopening hnext hkind argument ih =>
    cases h' with
    | callFirst _ _ _ _ argument' => exact ih argument'
    | callRest _ _ argument' _ => exact absurd argument argument'.not_fails
    | _ => grind [Stands, Stands.missing?]
  | callRest hname hopening argument _ ih =>
    obtain ⟨token, htoken, _⟩ := argument.starts
    cases h' with
    | callFirst _ _ _ _ argument' => exact absurd argument' argument.not_fails
    | callRest hname' _ argument' rest' =>
      obtain ⟨rfl, _⟩ := hname.unique hname'
      obtain ⟨rfl, rfl⟩ := argument.unique argument'
      exact ih rest'
    | _ => grind [Stands, Stands.missing?]
  | nextArgument hcomma argument ih =>
    cases h' with
    | nextArgument _ argument' => exact ih argument'
    | nextRest _ argument' _ => exact absurd argument argument'.not_fails
    | close hcomma' _ => exact absurd hcomma (hcomma' _)
  | nextRest hcomma argument _ ih =>
    cases h' with
    | nextArgument _ argument' => exact absurd argument' argument.not_fails
    | nextRest _ argument' rest' =>
      obtain ⟨rfl, rfl⟩ := argument.unique argument'
      exact ih rest'
    | close hcomma' _ => exact absurd hcomma (hcomma' _)
  | close hcomma hclosing =>
    cases h' with
    | nextArgument hcomma' _ | nextRest hcomma' _ _ => exact absurd hcomma' (hcomma _)
    | close _ hclosing' => grind
  | parenOpening hopening => cases h' <;> grind [Stands.missing?]
  | parenInner _ expression ih =>
    cases h' with
    | parenInner _ expression' => exact ih expression'
    | parenClosing _ expression' _ => exact absurd expression expression'.not_fails
    | _ => grind [Stands.missing?]
  | parenClosing hopening expression hclosing =>
    cases h' with
    | parenInner _ expression' => exact absurd expression' expression.not_fails
    | parenClosing _ expression' hclosing' =>
      obtain ⟨rfl, _⟩ := expression.unique expression'
      grind
    | _ => grind [Stands.missing?]
  | unaryChar | unarySign | unaryNextChar | unaryOperand => cases h' <;> grind
  | unaryTerm _ _ _ _ _ ih =>
    cases h' with
    | unaryTerm _ _ _ _ term' => exact ih term'
    | _ => grind

end Abacus.Reading
