import Abacus.Proofs.Reading.Statements

/-!
# The language of statements

`Derives` is the context-free grammar of statements, over lists of tokens.  A parser speculates,
rewinds and groups by priorities; none of this changes what is accepted, as long as no priority
overflows.  What the rules read is derived from the grammar (`Reads.derives`), and what the grammar
derives the rules read (`Derives.reads`), unless a priority overflows: a chain of operators is used up
at some threshold, at the latest at the lowest.

The words of a tree are its literals, names and operators from left to right, and so are the words of
the text that the tree is read from.
-/

namespace Abacus.Reading

open Abacus.Parser

/-! ## The grammar -/

/-- The symbols of the grammar that stand for parts of a text. -/
inductive Nonterminal where
  | statement
  | expression
  | operations
  | term
  | operand
  | call
  | furtherArguments
deriving DecidableEq

/-- The token can stand between two terms. -/
def IsBinary (token : Token) : Prop := token.kind = .sign ∨ token.kind = .operator

/-- The tokens are derived from a symbol of the grammar. -/
inductive Derives : Nonterminal → List Token → Prop
  | expressionStatement {tokens : List Token} {finish : Token}
      (expression : Derives .expression tokens) (hfinish : finish.kind = .finish) :
      Derives .statement (tokens ++ [finish])
  | assignmentStatement {tokens : List Token} {target equals finish : Token}
      (htarget : target.kind = .ident) (hequals : equals.kind = .equals)
      (expression : Derives .expression tokens) (hfinish : finish.kind = .finish) :
      Derives .statement (target :: equals :: tokens ++ [finish])
  | expression {first others : List Token} (term : Derives .term first)
      (operations : Derives .operations others) : Derives .expression (first ++ others)
  | noOperation : Derives .operations []
  | operation {token : Token} {second others : List Token} (htoken : IsBinary token)
      (term : Derives .term second) (operations : Derives .operations others) :
      Derives .operations (token :: second ++ others)
  | unsigned {tokens : List Token} (operand : Derives .operand tokens) : Derives .term tokens
  | signed {sign : Token} {tokens : List Token} (hsign : sign.kind = .sign)
      (operand : Derives .operand tokens) : Derives .term (sign :: tokens)
  | number {token : Token} (htoken : token.kind = .number) : Derives .operand [token]
  | var {token : Token} (htoken : token.kind = .ident) : Derives .operand [token]
  | called {tokens : List Token} (call : Derives .call tokens) : Derives .operand tokens
  | grouped {opening closing : Token} {tokens : List Token}
      (hopening : opening.kind = .leftParen) (expression : Derives .expression tokens)
      (hclosing : closing.kind = .rightParen) : Derives .operand (opening :: tokens ++ [closing])
  | callEmpty {name opening closing : Token} (hname : name.kind = .ident)
      (hopening : opening.kind = .leftParen) (hclosing : closing.kind = .rightParen) :
      Derives .call [name, opening, closing]
  | call {name opening closing : Token} {first others : List Token} (hname : name.kind = .ident)
      (hopening : opening.kind = .leftParen) (expression : Derives .expression first)
      (further : Derives .furtherArguments others) (hclosing : closing.kind = .rightParen) :
      Derives .call (name :: opening :: first ++ others ++ [closing])
  | noArgument : Derives .furtherArguments []
  | argument {comma : Token} {first others : List Token} (hcomma : comma.kind = .comma)
      (expression : Derives .expression first) (further : Derives .furtherArguments others) :
      Derives .furtherArguments (comma :: first ++ others)

/-- The text of the token, if it is a literal, is a decimal. -/
def IsReadable (token : Token) : Prop :=
  token.kind = .number → ∃ value, Decimal.ofText? token.text = .ok value

/-- The end and the equals sign belong to statements alone. -/
theorem Derives.kind_ne {symbol : Nonterminal} {tokens : List Token}
    (h : Derives symbol tokens) (hsymbol : symbol ≠ .statement) :
    ∀ token ∈ tokens, token.kind ≠ .finish ∧ token.kind ≠ .equals := by
  induction h with
  | expressionStatement | assignmentStatement => exact absurd rfl hsymbol
  | _ => grind [IsBinary]

theorem ended_concat {front : List Token} {finish : Token}
    (hfront : ∀ token ∈ front, token.kind ≠ .finish) (hfinish : finish.kind = .finish) :
    Ended ((front ++ [finish]).map .ok) := by
  induction front with
  | nil => exact .finish hfinish
  | cons token front ih =>
    exact .token (hfront token List.mem_cons_self)
      (ih fun other hmem => hfront other (List.mem_cons_of_mem _ hmem))

/-- The tokens of a statement are the items of a text. -/
theorem Derives.ended {tokens : List Token} (h : Derives .statement tokens) :
    Ended (tokens.map .ok) := by
  cases h with
  | expressionStatement expression hfinish =>
    have hkinds := expression.kind_ne (by decide)
    exact ended_concat (fun token hmem => (hkinds token hmem).1) hfinish
  | assignmentStatement htarget hequals expression hfinish =>
    have hkinds := expression.kind_ne (by decide)
    refine .token (by simp [htarget]) (.token (by simp [hequals]) ?_)
    exact ended_concat (fun token hmem => (hkinds token hmem).1) hfinish

/-! ## Words -/

/-- A literal, a name or an operator. -/
inductive Word where
  | number (value : Decimal)
  | name (name : Located String)
  | operator (symbol : Located String)

/-- The word that a token is.  Parentheses, commas, the equals sign and the end are none. -/
def word? (token : Token) : Option Word :=
  match token.kind with
  | .number => (Decimal.ofText? token.text).toOption.map .number
  | .ident => some (.name ⟨token.span, token.text⟩)
  | .sign | .operator => some (.operator ⟨token.span, token.text⟩)
  | _ => none

/-- The words among some tokens. -/
def wordsOf (tokens : List Token) : List Word := tokens.filterMap word?

mutual

/-- The literals, names and operators of an expression from left to right. -/
def words : Expr → List Word
  | .number _ value => [.number value]
  | .var span name => [.name ⟨span, name⟩]
  | .call _ name args => .name name :: argumentWords args
  | .unary _ op operand => .operator ⟨op.span, op.val.symbol⟩ :: words operand
  | .binary _ lhs op rhs => words lhs ++ .operator ⟨op.span, op.val.symbol⟩ :: words rhs

/-- The words of some arguments. -/
def argumentWords : List Expr → List Word
  | [] => []
  | arg :: args => words arg ++ argumentWords args

end

/-- The words of a statement. -/
def statementWords : Statement → List Word
  | .expression value => words value
  | .assignment _ target value => .name target :: words value

/-- The statement is an assignment. -/
def IsAssignment : Statement → Prop
  | .expression _ => False
  | .assignment _ _ _ => True

theorem argumentWords_append (args more : List Expr) :
    argumentWords (args ++ more) = argumentWords args ++ argumentWords more := by
  induction args with
  | nil => rfl
  | cons arg args ih => simp [argumentWords, ih]

theorem words_parenthesized (outer : Span) (expr : Expr) :
    words (expr.parenthesized outer) = words expr := by
  cases expr <;> rfl

/-! ## Tokens at a place -/

/-- The tokens stand at item `i` and behind it. -/
def Carries (s : Nat → Lexed) (i : Nat) : List Token → Prop
  | [] => True
  | token :: tokens => s i = .ok token ∧ Carries s (i + 1) tokens

variable {g : Grammar} {s : Nat → Lexed} {items : List Lexed}

@[simp] theorem carries_nil {i : Nat} : Carries s i [] := trivial

@[simp] theorem carries_cons {i : Nat} {token : Token} {tokens : List Token} :
    Carries s i (token :: tokens) ↔ s i = .ok token ∧ Carries s (i + 1) tokens := Iff.rfl

@[simp] theorem carries_append {i : Nat} {tokens more : List Token} :
    Carries s i (tokens ++ more) ↔ Carries s i tokens ∧ Carries s (i + tokens.length) more := by
  induction tokens generalizing i with
  | nil => simp
  | cons token tokens ih => simp [ih, and_assoc, Nat.add_comm, Nat.add_left_comm]

theorem carries_itemAt (front tokens : List Token) :
    Carries (itemAt ((front ++ tokens).map .ok)) front.length tokens := by
  induction tokens generalizing front with
  | nil => simp
  | cons token tokens ih =>
    refine ⟨itemAt_eq_getElem (by simp), ?_⟩
    have hrest := ih (front ++ [token])
    rwa [List.append_assoc, List.length_append] at hrest

theorem itemAt_cons_succ (item : Lexed) {items : List Lexed} (hne : items ≠ []) (k : Nat) :
    itemAt (item :: items) (k + 1) = itemAt items k := by
  simp [itemAt, List.getLast?_cons_of_ne_nil hne]

theorem Carries.getElem {i l : Nat} {tokens : List Token}
    (h : Carries s i tokens) (hl : l < tokens.length) : s (i + l) = .ok tokens[l] := by
  induction tokens generalizing i l with
  | nil => cases hl
  | cons token tokens ih =>
    cases l with
    | zero => exact h.1
    | succ l =>
      have hrest := ih h.2 (Nat.lt_of_succ_lt_succ hl)
      rw [List.getElem_cons_succ, ← hrest, Nat.add_assoc, Nat.add_comm 1]

theorem Carries.of_cons {item : Lexed} (hne : items ≠ []) {i : Nat} {tokens : List Token}
    (h : Carries (itemAt (item :: items)) (i + 1) tokens) : Carries (itemAt items) i tokens := by
  induction tokens generalizing i with
  | nil => trivial
  | cons token tokens ih =>
    rw [carries_cons, itemAt_cons_succ item hne] at h
    exact ⟨h.1, ih h.2⟩

/-- Items that start with tokens and the end behind them are nothing else. -/
theorem eq_map_of_carries (hended : Ended items) {tokens : List Token} {finish : Token}
    (hcarries : Carries (itemAt items) 0 (tokens ++ [finish])) (hfinish : finish.kind = .finish)
    (hkinds : ∀ token ∈ tokens, token.kind ≠ .finish) :
    items = (tokens ++ [finish]).map .ok := by
  induction hended generalizing tokens with
  | error last =>
    cases tokens <;> simp [itemAt] at hcarries
  | @finish last hlast =>
    cases tokens with
    | nil => simpa [itemAt] using hcarries
    | cons token tokens =>
      obtain rfl : last = token := by simpa [itemAt] using hcarries.1
      exact absurd hlast (hkinds last (List.mem_cons_self ..))
  | @token first items hfirst rest ih =>
    cases tokens with
    | nil =>
      obtain rfl : first = finish := by simpa [itemAt] using hcarries
      exact absurd hfinish hfirst
    | cons token tokens =>
      obtain rfl : first = token := by simpa [itemAt] using hcarries.1
      have htail := ih (Carries.of_cons rest.ne_nil hcarries.2)
        (fun token hmem => hkinds token (List.mem_cons_of_mem _ hmem))
      rw [htail]
      rfl

/-! ## What is read is derived -/

/-- The tokens that a goal was read from: what they are derived from and which words they are. -/
def Goal.Parses (goal : Goal) (expr : Expr) (tokens : List Token) : Prop :=
  match goal with
  | .chain _ => Derives .expression tokens ∧ words expr = wordsOf tokens
  | .extend _ lhs => Derives .operations tokens ∧ words expr = words lhs ++ wordsOf tokens
  | .term | .unary => Derives .term tokens ∧ words expr = wordsOf tokens
  | .call => Derives .call tokens ∧ words expr = wordsOf tokens
  | .arguments name args =>
    (∃ others closing, tokens = others ++ [closing] ∧ closing.kind = .rightParen ∧
      Derives .furtherArguments others) ∧
    words expr = .name ⟨name.span, name.text⟩ :: argumentWords args ++ wordsOf tokens
  | .paren => Derives .operand tokens ∧ words expr = wordsOf tokens

@[simp] theorem wordsOf_append (tokens more : List Token) :
    wordsOf (tokens ++ more) = wordsOf tokens ++ wordsOf more :=
  List.filterMap_append

theorem wordsOf_cons_none {token : Token} (h : word? token = none) (tokens : List Token) :
    wordsOf (token :: tokens) = wordsOf tokens := by
  simp [wordsOf, h]

theorem wordsOf_cons_some {token : Token} {word : Word} (h : word? token = some word)
    (tokens : List Token) : wordsOf (token :: tokens) = word :: wordsOf tokens := by
  simp [wordsOf, h]

theorem word?_ident {token : Token} (h : token.kind = .ident) :
    word? token = some (.name ⟨token.span, token.text⟩) := by
  simp [word?, h]

theorem word?_isBinary {token : Token} (h : IsBinary token) :
    word? token = some (.operator ⟨token.span, token.text⟩) := by
  rcases h with h | h <;> simp [word?, h]

theorem word?_separator (token : Token)
    (h : token.kind ∈ [.finish, .leftParen, .rightParen, .equals, .comma]) :
    word? token = none := by
  simp only [List.mem_cons, List.not_mem_nil, or_false] at h
  rcases h with h | h | h | h | h <;> simp [word?, h]

theorem joins?_binaryOp? {least : UInt64} {token : Token} {op : BinaryOp}
    (h : joins? g least token = some op) : binaryOp? token = some op :=
  (Option.filter_eq_some_iff.mp h).1

theorem binaryOp?_symbol {token : Token} {op : BinaryOp} (h : binaryOp? token = some op) :
    op.symbol = token.text := by
  have hfind : BinaryOp.ofSymbol? token.text = some op := by
    unfold binaryOp? at h
    split at h
    · exact h
    · exact h
    · cases h
  simpa using List.find?_some hfind

/-- A term that starts with no sign is an operand. -/
theorem Derives.operand_of_term {token : Token} {tokens : List Token}
    (h : Derives .term (token :: tokens)) (hkind : token.kind ≠ .sign) :
    Derives .operand (token :: tokens) := by
  cases h with
  | unsigned operand => exact operand
  | signed hsign _ => exact absurd hsign hkind

theorem Derives.append_operations {first others : List Token} (h : Derives .operations first)
    (h' : Derives .operations others) : Derives .operations (first ++ others) := by
  generalize hsymbol : Nonterminal.operations = symbol at h
  induction h with
  | noOperation => exact h'
  | operation htoken term _ _ ih =>
    rw [List.append_assoc]
    exact .operation htoken term (ih hsymbol)
  | _ => cases hsymbol

/-- Behind an operator an expression goes on with a chain. -/
theorem Derives.operations_of_expression {token : Token} {tokens : List Token}
    (htoken : IsBinary token) (h : Derives .expression tokens) :
    Derives .operations (token :: tokens) := by
  cases h with
  | expression term operations => exact .operation htoken term operations

/-- The tokens from one place up to another, where all literals are decimals. -/
structure Between (s : Nat → Lexed) (i j : Nat) (tokens : List Token) : Prop where
  carries : Carries s i tokens
  stop : j = i + tokens.length
  readable : ∀ token ∈ tokens, IsReadable token

theorem Between.nil (s : Nat → Lexed) (i : Nat) : Between s i i [] :=
  ⟨trivial, rfl, by simp⟩

theorem Between.append {i j k : Nat} {tokens more : List Token} (h : Between s i j tokens)
    (h' : Between s j k more) : Between s i k (tokens ++ more) := by
  obtain ⟨hcarries, rfl, hreadable⟩ := h
  obtain ⟨hcarries', rfl, hreadable'⟩ := h'
  refine ⟨carries_append.mpr ⟨hcarries, hcarries'⟩, ?_, ?_⟩
  · rw [List.length_append, Nat.add_assoc]
  · intro token hmem
    rcases List.mem_append.mp hmem with hmem | hmem
    · exact hreadable token hmem
    · exact hreadable' token hmem

theorem Between.single {i : Nat} {token : Token} (htoken : s i = .ok token)
    (hreadable : IsReadable token) : Between s i (i + 1) [token] :=
  ⟨⟨htoken, trivial⟩, rfl, by simpa using hreadable⟩

theorem Between.split {i j : Nat} {tokens more : List Token}
    (h : Between s i j (tokens ++ more)) : ∃ k, Between s i k tokens ∧ Between s k j more := by
  obtain ⟨hcarries, hstop, hreadable⟩ := h
  obtain ⟨hleft, hright⟩ := carries_append.mp hcarries
  rw [List.length_append, ← Nat.add_assoc] at hstop
  exact ⟨i + tokens.length,
    ⟨hleft, rfl, fun token hmem => hreadable token (List.mem_append_left _ hmem)⟩,
    ⟨hright, hstop, fun token hmem => hreadable token (List.mem_append_right _ hmem)⟩⟩

theorem Between.uncons {i j : Nat} {token : Token} {tokens : List Token}
    (h : Between s i j (token :: tokens)) :
    s i = .ok token ∧ IsReadable token ∧ Between s (i + 1) j tokens := by
  have happend : Between s i j ([token] ++ tokens) := h
  obtain ⟨k, hfirst, hrest⟩ := happend.split
  obtain rfl : k = i + 1 := hfirst.stop
  exact ⟨hfirst.carries.1, hfirst.readable token (List.mem_singleton_self token), hrest⟩

theorem Between.unique {i j : Nat} {tokens tokens' : List Token} (h : Between s i j tokens)
    (h' : Between s i j tokens') : tokens = tokens' := by
  induction tokens generalizing i tokens' with
  | nil =>
    have hstop : j = i := h.stop
    have hstop' := h'.stop
    exact (List.length_eq_zero_iff.mp (by omega)).symm
  | cons token tokens ih =>
    cases tokens' with
    | nil =>
      have hstop : j = i := h'.stop
      have hstop' := h.stop
      rw [List.length_cons] at hstop'
      omega
    | cons token' tokens' =>
      obtain ⟨hitem, _, hrest⟩ := h.uncons
      obtain ⟨hitem', _, hrest'⟩ := h'.uncons
      obtain rfl : token = token' := by simpa using hitem.symm.trans hitem'
      rw [ih hrest hrest']

/-- A token that is no literal. -/
theorem Between.stands {i : Nat} {kind : TokenKind} {token : Token}
    (htoken : Stands s i kind token) (hkind : kind ≠ .number) : Between s i (i + 1) [token] :=
  .single htoken.1 fun hnumber => absurd (htoken.2.symm.trans hnumber) hkind

theorem Reads.derives (hspelled : ∀ i token, s i = .ok token → token.Spelled) {goal : Goal}
    {i j : Nat} {expr : Expr} (h : Reads g s goal i j expr) :
    ∃ tokens, Between s i j tokens ∧ goal.Parses expr tokens := by
  induction h with
  | chain _ _ first rest =>
    obtain ⟨left, hleft, hterm, hwords⟩ := first
    obtain ⟨right, hright, hrest, hwords'⟩ := rest
    refine ⟨left ++ right, hleft.append hright, .expression hterm hrest, ?_⟩
    rw [wordsOf_append, hwords', hwords]
  | done _ _ =>
    exact ⟨[], .nil s _, .noOperation, by simp [wordsOf]⟩
  | @join i j k least _ lhs rhs expr token op htoken hjoins _ _ _ operand rest =>
    obtain ⟨middle, hmiddle, hterm, hwords⟩ := operand
    obtain ⟨right, hright, hrest, hwords'⟩ := rest
    have hop := joins?_binaryOp? hjoins
    have hbinary : IsBinary token := binaryOp?_kind hop
    have hnumber : token.kind ≠ .number := by
      rcases hbinary with h | h <;> simp [h]
    have hword := word?_isBinary hbinary
    refine ⟨[token] ++ middle ++ right,
      ((Between.stands ⟨htoken, rfl⟩ hnumber).append hmiddle).append hright,
      (Derives.operations_of_expression hbinary hterm).append_operations hrest, ?_⟩
    rw [hwords']
    simp [binaryOf, words, hwords, wordsOf_cons_some hword, binaryOp?_symbol hop]
  | number htoken hvalue =>
    refine ⟨[_], .single htoken.1 (fun _ => ⟨_, hvalue⟩), .unsigned (.number htoken.2), ?_⟩
    simp [words, wordsOf, word?, htoken.2, hvalue, Except.toOption]
  | var htoken _ _ =>
    refine ⟨[_], .stands htoken (by decide), .unsigned (.var htoken.2), ?_⟩
    simp [words, wordsOf, word?_ident htoken.2]
  | called _ ih =>
    obtain ⟨tokens, htokens, hcall, hwords⟩ := ih
    exact ⟨tokens, htokens, .unsigned (.called hcall), hwords⟩
  | grouped _ ih =>
    obtain ⟨tokens, htokens, hparen, hwords⟩ := ih
    exact ⟨tokens, htokens, .unsigned hparen, hwords⟩
  | signed _ ih => exact ih
  | callEmpty hname hopening hclosing =>
    refine ⟨[_] ++ [_] ++ [_], ((Between.stands hname (by decide)).append
      (.stands hopening (by decide))).append (.stands hclosing (by decide)),
      .callEmpty hname.2 hopening.2 hclosing.2, ?_⟩
    simp [callOf, words, argumentWords, wordsOf, word?, hname.2, hopening.2, hclosing.2]
  | @callFirst _ _ _ _ opening _ _ hname hopening _ _ argument rest =>
    obtain ⟨first, hfirst, hargument, hwords⟩ := argument
    obtain ⟨_, hrest, ⟨others, closing, rfl, hclosing, hfurther⟩, hwords'⟩ := rest
    refine ⟨[_] ++ [_] ++ first ++ (others ++ [closing]),
      (((Between.stands hname (by decide)).append (.stands hopening (by decide))).append
        hfirst).append hrest, ?_, ?_⟩
    · rw [← List.append_assoc]
      exact .call hname.2 hopening.2 hargument hfurther hclosing
    · rw [hwords']
      simp [argumentWords, hwords, wordsOf_cons_some (word?_ident hname.2),
        wordsOf_cons_none (word?_separator opening (by simp [hopening.2]))]
  | @next _ _ _ _ comma _ _ _ hcomma _ _ argument rest =>
    obtain ⟨first, hfirst, hargument, hwords⟩ := argument
    obtain ⟨_, hrest, ⟨others, closing, rfl, hclosing, hfurther⟩, hwords'⟩ := rest
    refine ⟨[_] ++ first ++ (others ++ [closing]),
      ((Between.stands hcomma (by decide)).append hfirst).append hrest,
      ⟨[_] ++ first ++ others, closing, by simp, hclosing, .argument hcomma.2 hargument hfurther⟩,
      ?_⟩
    rw [hwords']
    simp [argumentWords_append, argumentWords, hwords,
      wordsOf_cons_none (word?_separator comma (by simp [hcomma.2]))]
  | close hclosing =>
    refine ⟨[_], .stands hclosing (by decide), ⟨[], _, rfl, hclosing.2, .noArgument⟩, ?_⟩
    simp [callOf, words, wordsOf, word?, hclosing.2]
  | paren hopening _ hclosing ih =>
    obtain ⟨tokens, htokens, hexpr, hwords⟩ := ih
    refine ⟨[_] ++ tokens ++ [_], ((Between.stands hopening (by decide)).append htokens).append
      (.stands hclosing (by decide)), .grouped hopening.2 hexpr hclosing.2, ?_⟩
    rw [words_parenthesized, hwords]
    simp [wordsOf, word?, hopening.2, hclosing.2]
  | @unary i j token next op operand htoken hop hnext hstarts term ih =>
    obtain ⟨tokens, htokens, hterm, hwords⟩ := ih
    have hkind := unaryOp?_kind hop
    have hsymbol : op.symbol = token.text := by
      obtain ⟨op', hop', htext⟩ := (hspelled i token htoken).unaryOp hkind
      obtain rfl : op = op' := by simpa using hop.symm.trans hop'
      exact htext.symm
    refine ⟨[token] ++ tokens, (Between.stands ⟨htoken, hkind⟩ (by decide)).append htokens,
      .signed hkind ?_, ?_⟩
    · cases tokens with
      | nil =>
        have hlt : i + 1 < j := term.progress
        have hstop := htokens.stop
        simp at hstop
        omega
      | cons first tokens =>
        obtain rfl : next = first := by simpa using hnext.symm.trans htokens.carries.1
        refine hterm.operand_of_term ?_
        intro hsign
        simp [startsOperand, hsign] at hstarts
    · simp [unaryOf, words, hwords, hsymbol, wordsOf_cons_some (word?_isBinary (Or.inl hkind))]

/-- The tokens of an expression are neither the end nor the equals sign. -/
theorem Reads.kind_ne (hspelled : ∀ i token, s i = .ok token → token.Spelled) {least : UInt64}
    {i j : Nat} {expr : Expr} (h : Reads g s (.chain least) i j expr) {tokens : List Token}
    (hbetween : Between s i j tokens) :
    ∀ token ∈ tokens, token.kind ≠ .finish ∧ token.kind ≠ .equals := by
  obtain ⟨tokens', hbetween', hderives, _⟩ := h.derives hspelled
  rw [hbetween.unique hbetween']
  exact hderives.kind_ne (by decide)

/-! ## What is derived is read -/

/-- The goal, met at item `i`, is read up to item `j`, unless a priority overflows. -/
def Ends (g : Grammar) (s : Nat → Lexed) (goal : Goal) (i j : Nat) : Prop :=
  (∃ expr, Reads g s goal i j expr) ∨ Fails g s goal i .overflow

/-- From one place to another stand this many operations, each with a term behind it.  A term in which
a priority overflows may be the last one. -/
inductive Operations (g : Grammar) (s : Nat → Lexed) : Nat → Nat → Nat → Prop
  | nil (i : Nat) : Operations g s 0 i i
  | cons {count i j k : Nat} {token : Token} {op : BinaryOp} {operand : Expr}
      (htoken : s i = .ok token) (hop : binaryOp? token = some op)
      (term : Reads g s .term (i + 1) j operand) (rest : Operations g s count j k) :
      Operations g s (count + 1) i k
  | overflow {i k : Nat} {token : Token} {op : BinaryOp} (htoken : s i = .ok token)
      (hop : binaryOp? token = some op) (term : Fails g s .term (i + 1) .overflow) :
      Operations g s 1 i k

/-- A threshold stops a chain at one of the operations, and the lowest at none. -/
theorem Operations.extend {count i k : Nat} (h : Operations g s count i k) {finish : Token}
    (hfinish : s k = .ok finish) (hop : binaryOp? finish = none) (least : UInt64) (lhs : Expr) :
    Fails g s (.extend least lhs) i .overflow ∨
      ∃ rest j expr, rest ≤ count ∧ Operations g s rest j k ∧
        Reads g s (.extend least lhs) i j expr ∧ (least = 0 → j = k) := by
  induction count using Nat.strongRecOn generalizing i least lhs with
  | ind count ih =>
    have hlow : ∀ {priority : UInt64}, priority < least → least = 0 → i = k := by
      intro priority hless heq
      subst heq
      simp at hless
    cases h with
    | nil =>
      exact .inr ⟨0, k, lhs, Nat.le_refl 0, .nil k, .done hfinish (by simp [joins?, hop]),
        fun _ => rfl⟩
    | @overflow _ _ token op htoken hop' term =>
      by_cases hless : g.priority op < least
      · exact .inr ⟨1, i, lhs, Nat.le_refl 1, .overflow htoken hop' term,
          .done htoken (by simp [joins?, hop', hless]), hlow hless⟩
      · have hjoins : joins? g least token = some op := by simp [joins?, hop', hless]
        cases hinner : rightPriority? g op with
        | none => exact .inl (.extendOverflow htoken hjoins hinner)
        | some inner => exact .inl (.extendOperand htoken hjoins hinner (.chainFirst term))
    | @cons count i m _ token op operand htoken hop' term rest =>
      by_cases hless : g.priority op < least
      · exact .inr ⟨count + 1, i, lhs, Nat.le_refl _, .cons htoken hop' term rest,
          .done htoken (by simp [joins?, hop', hless]), hlow hless⟩
      · have hjoins : joins? g least token = some op := by simp [joins?, hop', hless]
        cases hinner : rightPriority? g op with
        | none => exact .inl (.extendOverflow htoken hjoins hinner)
        | some inner =>
          rcases ih count (Nat.lt_succ_self _) rest inner operand with
            hfails | ⟨others, j, rhs, hothers, hrest, hrhs, _⟩
          · exact .inl (.extendOperand htoken hjoins hinner (.chainRest term hfails))
          rcases ih others (by omega) hrest least (binaryOf lhs token op rhs) with
            hfails | ⟨outer, l, expr, houter, hrest', hexpr, hzero⟩
          · exact .inl (.extendRest htoken hjoins hinner (.chain term hrhs) hfails)
          · exact .inr ⟨outer, l, expr, by omega, hrest',
              .join htoken hjoins hinner (.chain term hrhs) hexpr, hzero⟩

/-- The token at a place does not open the arguments of a call. -/
def NoCall (s : Nat → Lexed) (j : Nat) : Prop :=
  ∃ next, s j = .ok next ∧ next.kind ≠ .leftParen

/-- The token at a place does not go on with an expression. -/
def NoMore (s : Nat → Lexed) (j : Nat) : Prop :=
  ∃ next, s j = .ok next ∧ next.kind ≠ .leftParen ∧ ¬ IsBinary next

/-- A symbol of the grammar, derived between two places, is read there, if what stands behind it
is no part of it, unless a priority overflows. -/
def Nonterminal.IsRead (g : Grammar) (s : Nat → Lexed) (symbol : Nonterminal) (i j : Nat) : Prop :=
  match symbol with
  | .statement => True
  | .expression => NoMore s j → Ends g s (.chain 0) i j
  | .operations => NoMore s j → ∃ count, Operations g s count i j
  | .term | .operand => NoCall s j → Ends g s .term i j
  | .call => Ends g s .call i j
  | .furtherArguments => ∀ closing, Stands s j .rightParen closing → ∀ name args,
      Ends g s (.arguments name args) i (j + 1)

theorem binaryOp?_eq_none {token : Token} (h : ¬ IsBinary token) : binaryOp? token = none := by
  cases hop : binaryOp? token with
  | none => rfl
  | some op => exact absurd (binaryOp?_kind hop) h

theorem NoMore.noCall {j : Nat} (h : NoMore s j) : NoCall s j := by
  obtain ⟨next, hnext, hkind, _⟩ := h
  exact ⟨next, hnext, hkind⟩

theorem NoMore.of_stands {j : Nat} {kind : TokenKind} {token : Token} (h : Stands s j kind token)
    (hkind : kind ∈ [.finish, .rightParen, .comma]) : NoMore s j := by
  obtain ⟨htoken, rfl⟩ := h
  refine ⟨token, htoken, ?_, ?_⟩
  · intro h
    simp [h] at hkind
  · intro hbinary
    rcases hbinary with h | h <;> simp [h] at hkind

theorem Derives.startsOperand {tokens : List Token} (h : Derives .operand tokens) :
    ∃ token rest, tokens = token :: rest ∧ startsOperand token = true := by
  cases h with
  | number htoken | var htoken => exact ⟨_, [], rfl, by simp [Parser.startsOperand, htoken]⟩
  | called call =>
    cases call with
    | callEmpty hname _ _ | call hname _ _ _ _ =>
      exact ⟨_, _, rfl, by simp [Parser.startsOperand, hname]⟩
  | grouped hopening _ _ => exact ⟨_, _, rfl, by simp [Parser.startsOperand, hopening]⟩

theorem Derives.startsTerm {tokens : List Token} (h : Derives .expression tokens) :
    ∃ token rest, tokens = token :: rest ∧ startsNoTerm token = false := by
  cases h with
  | expression term _ =>
    cases term with
    | unsigned operand =>
      obtain ⟨token, rest, rfl, hstarts⟩ := operand.startsOperand
      refine ⟨token, _, rfl, ?_⟩
      cases hkind : token.kind <;> simp_all [Parser.startsOperand, startsNoTerm]
    | signed hsign _ => exact ⟨_, _, rfl, by simp [startsNoTerm, hsign]⟩

theorem Derives.startsCall {tokens : List Token} (h : Derives .call tokens) :
    ∃ token rest, tokens = token :: rest ∧ token.kind = .ident := by
  cases h with
  | callEmpty hname _ _ | call hname _ _ _ _ => exact ⟨_, _, rfl, hname⟩

/-- Behind a term stands an operation or what stands behind all of them. -/
theorem Derives.noCall {tokens : List Token} (h : Derives .operations tokens) {i j : Nat}
    (hbetween : Between s i j tokens) (hmore : NoMore s j) : NoCall s i := by
  cases h with
  | noOperation =>
    obtain rfl : j = i := hbetween.stop
    exact hmore.noCall
  | operation htoken _ _ =>
    refine ⟨_, hbetween.uncons.1, ?_⟩
    rcases htoken with h | h <;> simp [h]

/-- Behind an argument stands a comma or the closing parenthesis. -/
theorem Derives.noMore {tokens : List Token} (h : Derives .furtherArguments tokens) {i j : Nat}
    {closing : Token} (hbetween : Between s i j tokens)
    (hclosing : Stands s j .rightParen closing) : NoMore s i := by
  cases h with
  | noArgument =>
    obtain rfl : j = i := hbetween.stop
    exact .of_stands hclosing (by decide)
  | argument hcomma _ _ => exact .of_stands ⟨hbetween.uncons.1, hcomma⟩ (by decide)

theorem Derives.reads (hspelled : ∀ i token, s i = .ok token → token.Spelled)
    {symbol : Nonterminal} {tokens : List Token} (h : Derives symbol tokens) {i j : Nat}
    (hbetween : Between s i j tokens) : symbol.IsRead g s i j := by
  induction h generalizing i j with
  | expressionStatement | assignmentStatement => trivial
  | expression term operations ihterm ihoperations =>
    intro hmore
    obtain ⟨k, hfirst, hothers⟩ := hbetween.split
    obtain ⟨lhs, hlhs⟩ | hfails := ihterm hfirst (operations.noCall hothers hmore)
    · obtain ⟨count, hcount⟩ := ihoperations hothers hmore
      obtain ⟨next, hnext, _, hbinary⟩ := hmore
      obtain hfails | ⟨_, _, expr, _, _, hexpr, hzero⟩ :=
        hcount.extend hnext (binaryOp?_eq_none hbinary) 0 lhs
      · exact .inr (.chainRest hlhs hfails)
      · obtain rfl := hzero rfl
        exact .inl ⟨expr, .chain hlhs hexpr⟩
    · exact .inr (.chainFirst hfails)
  | noOperation =>
    intro _
    obtain rfl : j = i := hbetween.stop
    exact ⟨0, .nil _⟩
  | operation htoken term operations ihterm ihoperations =>
    intro hmore
    obtain ⟨hitem, _, hrest⟩ := hbetween.uncons
    obtain ⟨k, hsecond, hothers⟩ := hrest.split
    obtain ⟨op, hop, _⟩ := (hspelled _ _ hitem).binaryOp htoken
    obtain ⟨operand, hoperand⟩ | hfails := ihterm hsecond (operations.noCall hothers hmore)
    · obtain ⟨count, hcount⟩ := ihoperations hothers hmore
      exact ⟨count + 1, .cons hitem hop hoperand hcount⟩
    · exact ⟨1, .overflow hitem hop hfails⟩
  | unsigned _ ih => exact ih hbetween
  | @signed sign tokens hsign operand ih =>
    intro hcall
    obtain ⟨hitem, _, hrest⟩ := hbetween.uncons
    obtain ⟨op, hop, _⟩ := (hspelled _ _ hitem).unaryOp hsign
    obtain ⟨first, others, rfl, hstarts⟩ := operand.startsOperand
    obtain ⟨expr, hexpr⟩ | hfails := ih hrest hcall
    · exact .inl ⟨_, .signed (.unary hitem hop hrest.uncons.1 hstarts hexpr)⟩
    · exact .inr (.termUnary ⟨hitem, hsign⟩ (.unaryTerm hitem hop hrest.uncons.1 hstarts hfails))
  | number htoken =>
    intro _
    obtain ⟨hitem, hreadable, hrest⟩ := hbetween.uncons
    obtain rfl := hrest.stop
    obtain ⟨value, hvalue⟩ := hreadable htoken
    exact .inl ⟨_, .number ⟨hitem, htoken⟩ hvalue⟩
  | var htoken =>
    intro h
    obtain ⟨next, hnext, hkind⟩ := h
    obtain ⟨hitem, _, hrest⟩ := hbetween.uncons
    obtain rfl := hrest.stop
    exact .inl ⟨_, .var ⟨hitem, htoken⟩ hnext hkind⟩
  | called call ih =>
    intro _
    obtain ⟨expr, hexpr⟩ | hfails := ih hbetween
    · exact .inl ⟨expr, .called hexpr⟩
    · obtain ⟨name, rest, rfl, hname⟩ := call.startsCall
      exact .inr (hfails.term_of_fatal ⟨hbetween.uncons.1, hname⟩ rfl)
  | grouped hopening _ hclosing ih =>
    intro _
    obtain ⟨k, hfront, hlast⟩ := hbetween.split
    obtain ⟨hitem, _, hinner⟩ := hfront.uncons
    obtain ⟨hitem', _, hrest⟩ := hlast.uncons
    obtain rfl := hrest.stop
    have hstands : Stands s k .rightParen _ := ⟨hitem', hclosing⟩
    obtain ⟨expr, hexpr⟩ | hfails := ih hinner (.of_stands hstands (by decide))
    · exact .inl ⟨_, .grouped (.paren ⟨hitem, hopening⟩ hexpr hstands)⟩
    · exact .inr (.termParen ⟨hitem, hopening⟩ (.parenInner ⟨hitem, hopening⟩ hfails))
  | callEmpty hname hopening hclosing =>
    obtain ⟨hitem, _, hrest⟩ := hbetween.uncons
    obtain ⟨hitem', _, hrest⟩ := hrest.uncons
    obtain ⟨hitem'', _, hrest⟩ := hrest.uncons
    obtain rfl := hrest.stop
    exact .inl ⟨_, .callEmpty ⟨hitem, hname⟩ ⟨hitem', hopening⟩ ⟨hitem'', hclosing⟩⟩
  | call hname hopening expression further hclosing ihexpression ihfurther =>
    obtain ⟨k, hfront, hlast⟩ := hbetween.split
    obtain ⟨m, hstart, hothers⟩ := hfront.split
    obtain ⟨hitem, _, hrest⟩ := hstart.uncons
    obtain ⟨hitem', _, hfirst⟩ := hrest.uncons
    obtain ⟨hitem'', _, hrest⟩ := hlast.uncons
    obtain rfl := hrest.stop
    have hstands : Stands s k .rightParen _ := ⟨hitem'', hclosing⟩
    obtain ⟨first, hargument⟩ | hfails := ihexpression hfirst (further.noMore hothers hstands)
    · obtain ⟨expr, hexpr⟩ | hfails := ihfurther hothers _ hstands _ [first]
      · exact .inl ⟨expr, .callFirst ⟨hitem, hname⟩ ⟨hitem', hopening⟩ hargument hexpr⟩
      · exact .inr (.callRest ⟨hitem, hname⟩ ⟨hitem', hopening⟩ hargument hfails)
    · obtain ⟨next, rest, rfl, hstarts⟩ := expression.startsTerm
      have hkind : next.kind ≠ .rightParen := by
        intro hkind
        simp [startsNoTerm, hkind] at hstarts
      exact .inr (.callFirst ⟨hitem, hname⟩ ⟨hitem', hopening⟩ hfirst.uncons.1 hkind hfails)
  | noArgument =>
    intro closing hclosing name args
    obtain rfl : j = i := hbetween.stop
    exact .inl ⟨_, .close hclosing⟩
  | argument hcomma _ further ihexpression ihfurther =>
    intro closing hclosing name args
    obtain ⟨k, hstart, hothers⟩ := hbetween.split
    obtain ⟨hitem, _, hfirst⟩ := hstart.uncons
    obtain ⟨arg, hargument⟩ | hfails := ihexpression hfirst (further.noMore hothers hclosing)
    · obtain ⟨expr, hexpr⟩ | hfails := ihfurther hothers closing hclosing name (args ++ [arg])
      · exact .inl ⟨expr, .next ⟨hitem, hcomma⟩ hargument hexpr⟩
      · exact .inr (.nextRest ⟨hitem, hcomma⟩ hargument hfails)
    · exact .inr (.nextArgument ⟨hitem, hcomma⟩ hfails)

/-! ## The language -/

theorem Ended.spelled_itemAt (hended : Ended items) (hspelled : Spelled items) (i : Nat)
    (token : Token) (htoken : itemAt items i = .ok token) : token.Spelled :=
  hspelled token (htoken ▸ itemAt_mem hended.ne_nil i)

/-- What is read is a statement of the grammar, with the same words. -/
theorem ReadsWhole.derives (hended : Ended items) (hspelled : Spelled items)
    {statement : Statement} (h : ReadsWhole g (itemAt items) statement) :
    ∃ tokens, items = tokens.map .ok ∧ (∀ token ∈ tokens, IsReadable token) ∧
      Derives .statement tokens ∧ statementWords statement = wordsOf tokens ∧
      (IsAssignment statement ↔ ∃ token ∈ tokens, token.kind = .equals) := by
  have hspelled' := Ended.spelled_itemAt hended hspelled
  cases h with
  | @expression j expr finish expression hfinish =>
    obtain ⟨tokens, hbetween, hderives, hwords⟩ := expression.derives hspelled'
    have hkinds := hderives.kind_ne (by decide)
    have hwhole := hbetween.append (.stands hfinish (by decide))
    have hlast : word? finish = none := word?_separator _ (by simp [hfinish.2])
    refine ⟨tokens ++ [finish], ?_, hwhole.readable, .expressionStatement hderives hfinish.2, ?_,
      ?_⟩
    · exact eq_map_of_carries hended hwhole.carries hfinish.2 fun token h => (hkinds token h).1
    · rw [wordsOf_append, wordsOf_cons_none hlast]
      simpa [statementWords, wordsOf] using hwords
    · grind [IsAssignment, hfinish.2]
  | @assignment j target equals finish expr htarget hequals expression hfinish =>
    obtain ⟨tokens, hbetween, hderives, hwords⟩ := expression.derives hspelled'
    have hkinds := hderives.kind_ne (by decide)
    have hfront : Between (itemAt items) 0 2 [target, equals] :=
      (Between.stands htarget (by decide)).append (.stands hequals (by decide))
    have hwhole := (hfront.append hbetween).append (.stands hfinish (by decide))
    have hlast : word? finish = none := word?_separator _ (by simp [hfinish.2])
    have hsecond : word? equals = none := word?_separator _ (by simp [hequals.2])
    refine ⟨[target, equals] ++ tokens ++ [finish], ?_, hwhole.readable,
      .assignmentStatement htarget.2 hequals.2 hderives hfinish.2, ?_, ?_⟩
    · refine eq_map_of_carries hended hwhole.carries hfinish.2 ?_
      grind [htarget.2, hequals.2]
    · rw [wordsOf_append, wordsOf_append, wordsOf_cons_some (word?_ident htarget.2),
        wordsOf_cons_none hsecond, wordsOf_cons_none hlast]
      simpa [statementWords, wordsOf] using hwords
    · grind [IsAssignment, hequals.2]

/-- A statement of the grammar is read, unless a priority overflows. -/
theorem Derives.readsWhole {tokens : List Token} (h : Derives .statement tokens)
    (hspelled : Spelled (tokens.map .ok)) (hended : Ended (tokens.map .ok))
    (hreadable : ∀ token ∈ tokens, IsReadable token) :
    (∃ statement, ReadsWhole g (itemAt (tokens.map .ok)) statement) ∨
      Unread g (itemAt (tokens.map .ok)) .overflow := by
  have hspelled' := Ended.spelled_itemAt hended hspelled
  have hwhole : Between (itemAt (tokens.map .ok)) 0 tokens.length tokens :=
    ⟨carries_itemAt [] tokens, (Nat.zero_add _).symm, hreadable⟩
  revert hwhole hspelled'
  generalize itemAt (tokens.map .ok) = s
  intro hspelled' hwhole
  cases h with
  | expressionStatement expression hfinish =>
    obtain ⟨k, hbetween, hlast⟩ := hwhole.split
    have hstands : Stands s k .finish _ := ⟨hlast.uncons.1, hfinish⟩
    obtain ⟨expr, hexpr⟩ | hfails := expression.reads (g := g) hspelled' hbetween
      (.of_stands hstands (by decide))
    · exact .inl ⟨_, .expression hexpr hstands⟩
    · exact .inr (.fatal (.expression hfails) rfl)
  | assignmentStatement htarget hequals expression hfinish =>
    obtain ⟨k, hfront, hlast⟩ := hwhole.split
    obtain ⟨hitem, _, hrest⟩ := hfront.uncons
    obtain ⟨hitem', _, hbetween⟩ := hrest.uncons
    have hstands : Stands s k .finish _ := ⟨hlast.uncons.1, hfinish⟩
    obtain ⟨expr, hexpr⟩ | hfails := expression.reads (g := g) hspelled' hbetween
      (.of_stands hstands (by decide))
    · exact .inl ⟨_, .assignment ⟨hitem, htarget⟩ ⟨hitem', hequals⟩ hexpr hstands⟩
    · exact .inr (.of_assignment (.expression ⟨hitem, htarget⟩ ⟨hitem', hequals⟩ hfails)
        ⟨hitem, htarget⟩ ⟨hitem', hequals⟩ rfl)

end Abacus.Reading
