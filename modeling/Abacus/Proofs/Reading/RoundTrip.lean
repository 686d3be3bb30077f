import Abacus.Expr.Printer
import Abacus.Proofs.Decimal.Read
import Abacus.Proofs.Expr.Alike
import Abacus.Proofs.Reading.Lexemes
import Abacus.Proofs.Reading.Overflow

/-!
# Infix forms read back

The infix form of an expression is a single term, put into parentheses wherever it could be joined
with anything else; so its lexemes are known (`lexes_infixForm`), and whatever the priorities are the
rules read it as the same tree (`reads_infixForm`).  Only a literal may change: one that was written
with a positive exponent comes back at scale zero, and is then written in the same way again.

The main statement is `parse?_toInfix`.
-/

namespace Abacus.Reading

open Abacus.Parser

/-! ## What can be written -/

/-- A literal of a source text. -/
def IsLiteral (value : Decimal) : Prop := value.isNegative = false ∧ ScaleInRange value.scale

/-- All names are runs of letters and all literals are those of source texts. -/
abbrev Printable : Expr → Prop := Expr.EveryWord IsLiteral IsName

variable {g : Grammar} {s : Nat → Lexed}

/-- What a goal was read as can be written, if what was read before can be. -/
def Goal.IsPrintable (goal : Goal) (expr : Expr) : Prop :=
  match goal with
  | .extend _ lhs => Printable lhs → Printable expr
  | .arguments name args => IsName name.text → EveryWordOf IsLiteral IsName args → Printable expr
  | _ => Printable expr

theorem Reads.isPrintable (hspelled : ∀ i token, s i = .ok token → token.Spelled) {goal : Goal}
    {i j : Nat} {expr : Expr} (h : Reads g s goal i j expr) : goal.IsPrintable expr := by
  induction h with
  | chain _ _ first rest => exact rest first
  | done _ _ => exact id
  | join _ _ _ _ _ operand rest => exact fun hlhs => rest ⟨hlhs, operand⟩
  | number htoken hvalue => exact (hspelled _ _ htoken.1).literal htoken.2 hvalue
  | var htoken _ _ => exact (hspelled _ _ htoken.1).name htoken.2
  | called _ ih => exact ih
  | grouped _ ih => exact ih
  | signed _ ih => exact ih
  | callEmpty hname _ _ => exact ⟨(hspelled _ _ hname.1).name hname.2, trivial⟩
  | callFirst hname _ _ _ argument rest =>
    exact rest ((hspelled _ _ hname.1).name hname.2) ⟨argument, trivial⟩
  | next _ _ _ argument rest =>
    intro hname hargs
    refine rest hname (everyWordOf_iff.mpr ?_)
    intro arg harg
    rcases List.mem_append.mp harg with harg | harg
    · exact everyWordOf_iff.mp hargs arg harg
    · rw [List.mem_singleton.mp harg]
      exact argument
  | close _ => exact fun hname hargs => ⟨hname, hargs⟩
  | paren _ _ _ ih => exact ih.parenthesized _
  | unary _ _ _ _ _ ih => exact ih

/-! ## The lexemes of an infix form -/

/-- The kind of token that writes an operation. -/
def opKind : BinaryOp → TokenKind
  | .add | .sub => .sign
  | _ => .operator

mutual

/-- The lexemes of the infix form. -/
def infixLexemes : Expr → List Lexeme
  | .number _ value => [(.number, value.toChars)]
  | .var _ name => [(.ident, name.toList)]
  | .call _ name args =>
    (.ident, name.val.toList) :: (.leftParen, ['(']) :: argLexemes args ++ [(.rightParen, [')'])]
  | .unary _ op operand =>
    (.leftParen, ['(']) :: (.sign, op.val.symbol.toList) :: infixLexemes operand ++
      [(.rightParen, [')'])]
  | .binary _ lhs op rhs =>
    (.leftParen, ['(']) :: infixLexemes lhs ++
      (opKind op.val, op.val.symbol.toList) :: infixLexemes rhs ++ [(.rightParen, [')'])]

/-- The lexemes of arguments and the commas between them. -/
def argLexemes : List Expr → List Lexeme
  | [] => []
  | arg :: args => infixLexemes arg ++ furtherLexemes args

/-- The lexemes of the arguments behind the first one. -/
def furtherLexemes : List Expr → List Lexeme
  | [] => []
  | arg :: args => (.comma, [',']) :: infixLexemes arg ++ furtherLexemes args

end

theorem opKind_symbol (op : BinaryOp) :
    ∃ c, op.symbol.toList = [c] ∧ symbolKind? c = some (opKind op) := by
  cases op <;> exact ⟨_, rfl, rfl⟩

theorem sign_symbol (op : UnaryOp) : ∃ c, op.symbol.toList = [c] ∧ symbolKind? c = some .sign := by
  cases op <;> exact ⟨_, rfl, rfl⟩

theorem toInfixAll_eq_map (args : List Expr) :
    Expr.toInfixAll args = args.map Expr.toInfix := by
  induction args with
  | nil => rfl
  | cons arg args ih => simp [Expr.toInfixAll, ih]

theorem endsLiteral_cons {c : Char} (hc : c = ' ' ∨ c = ')' ∨ c = ',') (cs : List Char) :
    EndsLiteral (c :: cs) := by
  intro d hd
  obtain rfl : c = d := by simpa using hd
  exact hc

/-- The arguments between the parentheses of a call. -/
theorem lexes_arguments {args : List Expr}
    (ih : ∀ arg ∈ args, ∀ cs lexemes, EndsLiteral cs → Lexes cs lexemes →
      Lexes (arg.toInfix.toList ++ cs) (infixLexemes arg ++ lexemes))
    {cs : List Char} {lexemes : List Lexeme} (h : Lexes cs lexemes) :
    Lexes ([',', ' '].intercalate (args.map fun arg => arg.toInfix.toList) ++ ')' :: cs)
      (argLexemes args ++ (.rightParen, [')']) :: lexemes) := by
  have hclose : Lexes (')' :: cs) ((.rightParen, [')']) :: lexemes) := h.symbol rfl
  have hends : EndsLiteral (')' :: cs) := endsLiteral_cons (by simp) cs
  induction args with
  | nil => exact hclose
  | cons arg args ihargs =>
    cases args with
    | nil => simpa [argLexemes, furtherLexemes] using ih arg (by simp) _ _ hends hclose
    | cons next args =>
      have hrest := ihargs fun arg hmem => ih arg (List.mem_cons_of_mem _ hmem)
      have hcomma := (hrest.blank (c := ' ') rfl).symbol (c := ',') rfl
      have hfirst := ih arg (by simp) _ _ (endsLiteral_cons (by simp) _) hcomma
      simpa [argLexemes, furtherLexemes, List.intercalate_cons_cons] using hfirst

/-- The lexemes of an infix form, before something that ends a term. -/
theorem lexes_infixForm {expr : Expr} (hexpr : Printable expr) {cs : List Char}
    {lexemes : List Lexeme} (hends : EndsLiteral cs) (h : Lexes cs lexemes) :
    Lexes (expr.toInfix.toList ++ cs) (infixLexemes expr ++ lexemes) := by
  induction expr using Expr.induct generalizing cs lexemes with
  | number span value =>
    simpa [Expr.toInfix, infixLexemes, Decimal.toText] using h.number hexpr.1 hends
  | var span name => exact h.ident hexpr.1 hexpr.2 fun c hc => (hends.facts c hc).2.2.2.2
  | call span name args ih =>
    obtain ⟨hname, hargs⟩ := hexpr
    have hinner := lexes_arguments (fun arg hmem _ _ hends h =>
      ih arg hmem (everyWordOf_iff.mp hargs arg hmem) hends h) h
    have hcall := (hinner.symbol (c := '(') rfl).ident hname.1 hname.2 (by simp)
    simpa [Expr.toInfix, infixLexemes, toInfixAll_eq_map, String.toList_intercalate,
      Function.comp_def] using hcall
  | unary span op operand ih =>
    obtain ⟨c, hc, hkind⟩ := sign_symbol op.val
    have hclose : Lexes (')' :: cs) ((.rightParen, [')']) :: lexemes) := h.symbol rfl
    have hoperand := ih hexpr (endsLiteral_cons (by simp) cs) hclose
    have hunary := (hoperand.symbol hkind).symbol (c := '(') rfl
    simpa [Expr.toInfix, infixLexemes, hc] using hunary
  | binary span lhs op rhs ihlhs ihrhs =>
    obtain ⟨c, hc, hkind⟩ := opKind_symbol op.val
    have hclose : Lexes (')' :: cs) ((.rightParen, [')']) :: lexemes) := h.symbol rfl
    have hright := ihrhs hexpr.2 (endsLiteral_cons (by simp) cs) hclose
    have hop := ((hright.blank (c := ' ') rfl).symbol hkind).blank (c := ' ') rfl
    have hleft := ihlhs hexpr.1 (endsLiteral_cons (by simp) _) hop
    have hbinary := hleft.symbol (c := '(') rfl
    simpa [Expr.toInfix, infixLexemes, hc] using hbinary

/-! ## Reading them -/

/-- The lexemes between two places. -/
inductive Shows (s : Nat → Lexed) : Nat → Nat → List Lexeme → Prop
  | nil (i : Nat) : Shows s i i []
  | cons {i j : Nat} {token : Token} {lexemes : List Lexeme} (htoken : s i = .ok token)
      (rest : Shows s (i + 1) j lexemes) : Shows s i j (token.lexeme :: lexemes)

theorem Shows.split {i j : Nat} {lexemes more : List Lexeme} (h : Shows s i j (lexemes ++ more)) :
    ∃ k, Shows s i k lexemes ∧ Shows s k j more := by
  induction lexemes generalizing i with
  | nil => exact ⟨i, .nil i, h⟩
  | cons lexeme lexemes ih =>
    cases h with
    | cons htoken rest =>
      obtain ⟨k, hfirst, hmore⟩ := ih rest
      exact ⟨k, .cons htoken hfirst, hmore⟩

theorem Shows.uncons {i j : Nat} {kind : TokenKind} {text : List Char} {lexemes : List Lexeme}
    (h : Shows s i j ((kind, text) :: lexemes)) :
    ∃ token, Stands s i kind token ∧ token.text = String.ofList text ∧
      Shows s (i + 1) j lexemes := by
  cases h with
  | @cons _ _ token _ htoken rest => exact ⟨token, ⟨htoken, rfl⟩, by simp, rest⟩

theorem Shows.last {i j : Nat} {kind : TokenKind} {text : List Char}
    (h : Shows s i j [(kind, text)]) : ∃ token, Stands s i kind token ∧ j = i + 1 := by
  obtain ⟨token, htoken, _, hrest⟩ := h.uncons
  cases hrest with
  | nil => exact ⟨token, htoken, rfl⟩

/-- A literal that is written and read again. -/
def Rewritten (value value' : Decimal) : Prop := Decimal.ofText? value.toText = .ok value'

/-- A term before something that goes on with no expression is an expression. -/
theorem Reads.single {least : UInt64} {i j : Nat} {expr : Expr} (h : Reads g s .term i j expr)
    (hmore : NoMore s j) : Reads g s (.chain least) i j expr := by
  obtain ⟨next, hnext, _, hbinary⟩ := hmore
  exact .chain h (.done hnext (by simp [joins?, binaryOp?_eq_none hbinary]))

/-- Two terms with an operation between them are an expression, whatever the priorities are, as long as
none overflows. -/
theorem Reads.binary {i k j : Nat} {token : Token} {op : BinaryOp} {lhs rhs : Expr}
    (hlhs : Reads g s .term i k lhs) (htoken : s k = .ok token) (hop : binaryOp? token = some op)
    (hsafe : ¬ AtTop g op) (hrhs : Reads g s .term (k + 1) j rhs) (hmore : NoMore s j) :
    Reads g s (.chain 0) i j (binaryOf lhs token op rhs) := by
  have hjoins : joins? g 0 token = some op := by simp [joins?, hop]
  obtain ⟨inner, hinner⟩ := exists_rightPriority? hsafe
  have hrhs' : Reads g s (.chain inner) (k + 1) j rhs := hrhs.single hmore
  obtain ⟨next, hnext, _, hbinary⟩ := hmore
  exact .chain hlhs (.join htoken hjoins hinner hrhs'
    (.done hnext (by simp [joins?, binaryOp?_eq_none hbinary])))

theorem binaryOp?_of_symbol {token : Token} {op : BinaryOp} (hkind : token.kind = opKind op)
    (htext : token.text = op.symbol) : binaryOp? token = some op := by
  cases op <;> simp [binaryOp?, hkind, htext, opKind]

theorem unaryOp?_of_symbol {token : Token} {op : UnaryOp} (hkind : token.kind = .sign)
    (htext : token.text = op.symbol) : unaryOp? token = some op := by
  cases op <;> simp [unaryOp?, hkind, htext, UnaryOp.symbol]

/-- An infix form starts an operand. -/
theorem infixLexemes_starts (expr : Expr) :
    ∃ kind text lexemes, infixLexemes expr = (kind, text) :: lexemes ∧
      kind ∈ [.number, .ident, .leftParen] := by
  cases expr <;> exact ⟨_, _, _, rfl, by decide⟩

theorem NoCall.of_stands {j : Nat} {kind : TokenKind} {token : Token} (h : Stands s j kind token)
    (hkind : kind ≠ .leftParen) : NoCall s j :=
  ⟨token, h.1, by rwa [h.2]⟩

/-- What stands behind the arguments read so far is a comma or the closing parenthesis. -/
theorem Shows.noMore {args : List Expr} {i j : Nat} {closing : Token}
    (h : Shows s i j (furtherLexemes args)) (hclosing : Stands s j .rightParen closing) :
    NoMore s i := by
  cases args with
  | nil =>
    cases h with
    | nil => exact .of_stands hclosing (by decide)
  | cons arg args =>
    obtain ⟨comma, hcomma, _⟩ := h.uncons
    exact .of_stands hcomma (by decide)

/-- Every expression of a list is read where its lexemes stand. -/
def AllRead (g : Grammar) (s : Nat → Lexed) (args : List Expr) : Prop :=
  ∀ arg ∈ args, ∀ i j, Shows s i j (infixLexemes arg) → NoCall s j →
    ∃ arg', Reads g s .term i j arg' ∧ arg.Alike Rewritten arg'

/-- An argument before the others of its call. -/
theorem AllRead.first {arg : Expr} {args : List Expr} (h : AllRead g s (arg :: args)) {i k j : Nat}
    {closing : Token} (hfirst : Shows s i k (infixLexemes arg))
    (hothers : Shows s k j (furtherLexemes args)) (hclosing : Stands s j .rightParen closing) :
    ∃ arg', Reads g s (.chain 0) i k arg' ∧ arg.Alike Rewritten arg' := by
  have hmore : NoMore s k := hothers.noMore hclosing
  obtain ⟨arg', hread, halike⟩ := h arg (List.mem_cons_self ..) i k hfirst hmore.noCall
  exact ⟨arg', hread.single hmore, halike⟩

theorem reads_further {args : List Expr} (hargs : AllRead g s args) {i j : Nat} {closing : Token}
    (h : Shows s i j (furtherLexemes args)) (hclosing : Stands s j .rightParen closing)
    (name : Token) (before : List Expr) :
    ∃ args', AllAlike Rewritten args args' ∧
      Reads g s (.arguments name before) i (j + 1) (callOf name closing (before ++ args')) := by
  induction args generalizing i before with
  | nil =>
    cases h with
    | nil => exact ⟨[], trivial, by simpa using Reads.close hclosing⟩
  | cons arg args ih =>
    obtain ⟨comma, hcomma, _, hrest⟩ := h.uncons
    obtain ⟨k, hfirst, hothers⟩ := hrest.split
    obtain ⟨arg', hread, halike⟩ := hargs.first hfirst hothers hclosing
    obtain ⟨args', halikes, hreads⟩ :=
      ih (fun arg hmem => hargs arg (List.mem_cons_of_mem _ hmem)) hothers (before ++ [arg'])
    rw [List.append_assoc, List.singleton_append] at hreads
    exact ⟨arg' :: args', ⟨halike, halikes⟩, .next hcomma hread hreads⟩

theorem operations_subset {arg : Expr} {args : List Expr} (h : arg ∈ args) :
    operations arg ⊆ operationsOf args := by
  induction h with
  | head args => exact List.subset_append_left ..
  | tail _ _ ih => exact List.subset_append_of_subset_right _ ih

/-- Behind all these operations a priority is left for the right operand. -/
def Safe (g : Grammar) (ops : List BinaryOp) : Prop := ∀ op ∈ ops, ¬ AtTop g op

theorem safe_binary {ops more : List BinaryOp} {op : BinaryOp} :
    Safe g (ops ++ op :: more) ↔ Safe g ops ∧ ¬ AtTop g op ∧ Safe g more := by
  simp [Safe, or_imp, forall_and]

/-- An infix form is read as a term like the one that was written. -/
theorem reads_infixForm {expr : Expr} (hexpr : Printable expr) (hsafe : Safe g (operations expr))
    {i j : Nat} (h : Shows s i j (infixLexemes expr)) (hcall : NoCall s j) :
    ∃ expr', Reads g s .term i j expr' ∧ expr.Alike Rewritten expr' := by
  induction expr using Expr.induct generalizing i j with
  | number span value =>
    obtain ⟨token, htoken, htext, hrest⟩ := h.uncons
    cases hrest with
    | nil =>
      have hvalue := Decimal.ofText?_toText hexpr.2
      refine ⟨_, .number htoken (htext ▸ hvalue), hvalue⟩
  | var span name =>
    obtain ⟨token, htoken, htext, hrest⟩ := h.uncons
    cases hrest with
    | nil =>
      obtain ⟨next, hnext, hkind⟩ := hcall
      refine ⟨_, .var htoken hnext hkind, ?_⟩
      simp [Expr.Alike, htext]
  | call span name args ih =>
    obtain ⟨hname, hargs⟩ := hexpr
    have hall : AllRead g s args := fun arg hmem _ _ h hcall =>
      ih arg hmem (everyWordOf_iff.mp hargs arg hmem)
        (fun op hop => hsafe op (operations_subset hmem hop)) h hcall
    obtain ⟨nameToken, hnameToken, htext, hrest⟩ := h.uncons
    obtain ⟨opening, hopening, _, hrest⟩ := hrest.uncons
    obtain ⟨k, hinner, hlast⟩ := hrest.split
    obtain ⟨closing, hclosing, rfl⟩ := hlast.last
    cases args with
    | nil =>
      cases hinner with
      | nil =>
        refine ⟨_, .called (.callEmpty hnameToken hopening hclosing), ?_⟩
        simp [Expr.Alike, AllAlike, callOf, htext]
    | cons arg args =>
      obtain ⟨m, hfirst, hothers⟩ := hinner.split
      obtain ⟨arg', hread, halike⟩ := hall.first hfirst hothers hclosing
      obtain ⟨args', halikes, hreads⟩ := reads_further
        (fun arg hmem => hall arg (List.mem_cons_of_mem _ hmem)) hothers hclosing nameToken [arg']
      refine ⟨_, .called (.callFirst hnameToken hopening hread hreads), ?_⟩
      exact ⟨by simp [htext], halike, halikes⟩
  | unary span op operand ih =>
    obtain ⟨opening, hopening, _, hrest⟩ := h.uncons
    obtain ⟨sign, hsign, htext, hrest⟩ := hrest.uncons
    obtain ⟨k, hoperand, hlast⟩ := hrest.split
    obtain ⟨closing, hclosing, rfl⟩ := hlast.last
    have hmore : NoMore s k := .of_stands hclosing (by decide)
    obtain ⟨operand', hread, halike⟩ := ih hexpr hsafe hoperand hmore.noCall
    obtain ⟨kind, text, lexemes, hstart, hkind⟩ := infixLexemes_starts operand
    obtain ⟨next, hnext, _⟩ := (hstart ▸ hoperand).uncons
    have hstarts : startsOperand next = true := by
      simp only [List.mem_cons, List.not_mem_nil, or_false] at hkind
      rcases hkind with rfl | rfl | rfl <;> simp [startsOperand, hnext.2]
    have hop := unaryOp?_of_symbol hsign.2 (by simpa using htext)
    have hunary : Reads g s .term (i + 1) k (unaryOf sign op.val operand') :=
      .signed (.unary hsign.1 hop hnext.1 hstarts hread)
    have hsame : (Expr.unary span op operand).Alike Rewritten (unaryOf sign op.val operand') :=
      ⟨rfl, halike⟩
    exact ⟨_, .grouped (.paren hopening (hunary.single hmore) hclosing), hsame.parenthesized _⟩
  | binary span lhs op rhs ihlhs ihrhs =>
    obtain ⟨opening, hopening, _, hrest⟩ := h.uncons
    obtain ⟨m, hinner, hlast⟩ := hrest.split
    obtain ⟨closing, hclosing, rfl⟩ := hlast.last
    obtain ⟨k, hlhs, hright⟩ := hinner.split
    obtain ⟨token, htoken, htext, hrhs⟩ := hright.uncons
    have hkind : opKind op.val ≠ .leftParen := by cases op.val <;> decide
    obtain ⟨hsafeLhs, hsafeOp, hsafeRhs⟩ := safe_binary.mp hsafe
    obtain ⟨lhs', hleft, halike⟩ := ihlhs hexpr.1 hsafeLhs hlhs (.of_stands htoken hkind)
    obtain ⟨rhs', hright, halike'⟩ := ihrhs hexpr.2 hsafeRhs hrhs (.of_stands hclosing (by decide))
    have hop := binaryOp?_of_symbol htoken.2 (by simpa using htext)
    have hsame : (Expr.binary span lhs op rhs).Alike Rewritten (binaryOf lhs' token op.val rhs') :=
      ⟨halike, rfl, halike'⟩
    have hread := hleft.binary htoken.1 hop hsafeOp hright (.of_stands hclosing (by decide))
    exact ⟨_, .grouped (.paren hopening hread hclosing), hsame.parenthesized _⟩

/-! ## Literals that come back -/

/-- Expressions with the same written literals have the same infix form. -/
theorem toInfix_of_alike {expr expr' : Expr}
    (h : expr.Alike (fun value value' => value'.toText = value.toText) expr') :
    expr'.toInfix = expr.toInfix := by
  refine Expr.Alike.induction (motive := fun expr expr' => expr'.toInfix = expr.toInfix)
    ?number ?var ?call ?unary ?binary h
  case number => exact fun _ _ _ _ hsame => hsame
  case var => exact fun _ _ _ => rfl
  case call =>
    intro _ _ name name' args args' hname hsame hargs
    have hall : Expr.toInfixAll args' = Expr.toInfixAll args := by
      clear hsame
      induction hargs with
      | nil => rfl
      | cons harg _ ih => rw [Expr.toInfixAll, Expr.toInfixAll, harg, ih]
    rw [Expr.toInfix, Expr.toInfix, hname, hall]
  case unary =>
    intro _ _ op op' operand operand' hop _ hoperand
    rw [Expr.toInfix, Expr.toInfix, hop, hoperand]
  case binary =>
    intro _ _ lhs lhs' op op' rhs rhs' hop _ _ hlhs hrhs
    rw [Expr.toInfix, Expr.toInfix, hop, hlhs, hrhs]

/-- Rewriting literals changes neither their values nor how they are written. -/
theorem alike_of_rewritten {expr expr' : Expr} (h : expr.Alike Rewritten expr') :
    expr.Alike (fun value value' => value.value = value'.value ∧ value'.toText = value.toText)
      expr' := by
  refine h.mono fun value value' hread => ?_
  rw [Rewritten] at hread
  rw [Decimal.value_of_ofText?_toText hread, Decimal.eq_of_ofText?_toText hread,
    Decimal.toText_rewritten]
  exact ⟨rfl, rfl⟩

/-- Expressions that are alike have the same operations. -/
theorem operations_of_alike {same : Decimal → Decimal → Prop} {expr expr' : Expr}
    (h : expr.Alike same expr') : operations expr' = operations expr := by
  refine Expr.Alike.induction (motive := fun expr expr' => operations expr' = operations expr)
    ?number ?var ?call ?unary ?binary h
  case number => exact fun _ _ _ _ _ => rfl
  case var => exact fun _ _ _ => rfl
  case call =>
    intro _ _ name name' args args' _ hsame hargs
    rw [operations, operations]
    clear hsame
    induction hargs with
    | nil => rfl
    | cons harg _ ih => rw [operationsOf, operationsOf, harg, ih]
  case unary => exact fun _ _ _ _ _ _ _ _ hoperand => hoperand
  case binary =>
    intro _ _ lhs lhs' op op' rhs rhs' hop _ _ hlhs hrhs
    rw [operations, operations, hop, hlhs, hrhs]

/-! ## Statements -/

theorem operations_of_alike_statement {same : Decimal → Decimal → Prop}
    {statement statement' : Statement} (h : statement.Alike same statement') :
    statementOperations statement' = statementOperations statement := by
  obtain ⟨value, value', rfl, rfl, hvalue⟩ |
    ⟨_, target, value, _, target', value', rfl, rfl, _, hvalue⟩ := h.cases
  · exact operations_of_alike hvalue
  · exact operations_of_alike hvalue

theorem toInfix_of_alike_statement {statement statement' : Statement}
    (h : statement.Alike (fun value value' => value'.toText = value.toText) statement') :
    statement'.toInfix = statement.toInfix := by
  obtain ⟨value, value', rfl, rfl, hvalue⟩ |
    ⟨_, target, value, _, target', value', rfl, rfl, htarget, hvalue⟩ := h.cases
  · exact toInfix_of_alike hvalue
  · rw [Statement.toInfix, Statement.toInfix, htarget, toInfix_of_alike hvalue]

theorem Shows.of_carries {tokens : List Token} {i j : Nat} (h : Carries s i tokens)
    (hj : j = i + tokens.length) : Shows s i j (tokens.map Token.lexeme) := by
  induction tokens generalizing i with
  | nil => exact hj ▸ .nil i
  | cons token tokens ih =>
    refine .cons h.1 (ih h.2 ?_)
    rw [hj, List.length_cons, Nat.add_assoc, Nat.add_comm 1]

/-- The lexemes of a text are shown up to its end. -/
theorem shows_of_lexes {source : List Char} {lexemes : List Lexeme} (h : Lexes source lexemes) :
    ∃ stop finish, Shows (itemAt (tokenize source)) 0 stop lexemes ∧
      Stands (itemAt (tokenize source)) stop .finish finish := by
  obtain ⟨tokens, finish, htokens, rfl, hfinish⟩ := tokenize_of_lexes h
  have hcarries : Carries (itemAt (tokenize source)) 0 (tokens ++ [finish]) :=
    htokens ▸ carries_itemAt [] (tokens ++ [finish])
  obtain ⟨hfront, hlast⟩ := carries_append.mp hcarries
  exact ⟨_, finish, .of_carries hfront rfl, hlast.1, hfinish⟩

/-- The lexemes of a statement's infix form. -/
def statementLexemes : Statement → List Lexeme
  | .expression value => infixLexemes value
  | .assignment _ target value =>
    (.ident, target.val.toList) :: (.equals, ['=']) :: infixLexemes value

/-- The target and the value of a statement can be written. -/
def PrintableStatement : Statement → Prop
  | .expression value => Printable value
  | .assignment _ target value => IsName target.val ∧ Printable value

theorem ReadsWhole.isPrintable (hspelled : ∀ i token, s i = .ok token → token.Spelled)
    {statement : Statement} (h : ReadsWhole g s statement) : PrintableStatement statement := by
  cases h with
  | expression expression _ => exact expression.isPrintable hspelled
  | assignment htarget _ expression _ =>
    exact ⟨(hspelled _ _ htarget.1).name htarget.2, expression.isPrintable hspelled⟩

theorem lexes_statement {statement : Statement} (h : PrintableStatement statement) :
    Lexes statement.toInfix.toList (statementLexemes statement) := by
  have hempty : Lexes [] [] := .finish rfl
  have hends : EndsLiteral [] := fun c hc => by cases hc
  cases statement with
  | expression value =>
    simpa [Statement.toInfix, statementLexemes] using lexes_infixForm h hends hempty
  | assignment span target value =>
    have hvalue := (lexes_infixForm h.2 hends hempty).blank (c := ' ') rfl
    have hequals := (hvalue.symbol (c := '=') rfl).blank (c := ' ') rfl
    have hwhole := hequals.ident h.1.1 h.1.2 (by simp)
    simpa [Statement.toInfix, statementLexemes] using hwhole

/-- The infix form of a statement is read as one that is alike. -/
theorem readsWhole_infixForm {statement : Statement} (h : PrintableStatement statement)
    (hsafe : Safe g (statementOperations statement)) {j : Nat} {finish : Token}
    (hshows : Shows s 0 j (statementLexemes statement))
    (hfinish : Stands s j .finish finish) :
    ∃ statement', ReadsWhole g s statement' ∧
      statement.Alike (fun value value' => value.value = value'.value ∧
        value'.toText = value.toText) statement' := by
  have hmore : NoMore s j := .of_stands hfinish (by decide)
  cases statement with
  | expression value =>
    obtain ⟨value', hread, halike⟩ := reads_infixForm h hsafe hshows hmore.noCall
    exact ⟨_, .expression (hread.single hmore) hfinish, alike_of_rewritten halike⟩
  | assignment span target value =>
    obtain ⟨targetToken, htarget, htext, hrest⟩ := hshows.uncons
    obtain ⟨equals, hequals, _, hvalue⟩ := hrest.uncons
    obtain ⟨value', hread, halike⟩ := reads_infixForm h.2 hsafe hvalue hmore.noCall
    exact ⟨_, .assignment htarget hequals (hread.single hmore) hfinish, by simp [htext],
      alike_of_rewritten halike⟩

theorem printable_of_parse? {g : Grammar} {source : List Char} {statement : Statement}
    (h : Statement.parse? g source = .ok statement) : PrintableStatement statement :=
  (parse?_eq_ok_iff.mp h).isPrintable
    (Ended.spelled_itemAt (ended_tokenize source) (spelled_tokenize source))

/-- The infix form of whatever is read can be read, with any priorities of which none overflows, as the
same tree up to places and the scales of literals. -/
theorem exists_parse?_infixForm {g g' : Grammar} {source : List Char} {statement : Statement}
    (h : Statement.parse? g source = .ok statement)
    (hsafe : Safe g' (statementOperations statement)) :
    ∃ statement', Statement.parse? g' statement.toInfix.toList = .ok statement' ∧
      statement.Alike (fun value value' => value.value = value'.value ∧
        value'.toText = value.toText) statement' := by
  have hprintable := printable_of_parse? h
  obtain ⟨stop, finish, hshows, hfinish⟩ := shows_of_lexes (lexes_statement hprintable)
  obtain ⟨statement', hread, halike⟩ := readsWhole_infixForm hprintable hsafe hshows hfinish
  exact ⟨statement', parse?_eq_ok_iff.mpr hread, halike⟩

/-- The infix form of whatever is read can be read, with any priorities, unless one of them overflows.
It gives the same tree up to places and the scales of literals, with the same infix form. -/
theorem parse?_toInfix {g : Grammar} (g' : Grammar) {source : List Char} {statement : Statement}
    (h : Statement.parse? g source = .ok statement) :
    ((∀ op ∈ statementOperations statement, ¬ AtTop g' op) →
      ∃ statement', Statement.parse? g' statement.toInfix.toList = .ok statement' ∧
        statement.Alike (fun value value' => value.value = value'.value) statement' ∧
        statement'.toInfix = statement.toInfix) ∧
    ∀ op ∈ statementOperations statement, AtTop g' op →
      Statement.parse? g' statement.toInfix.toList = .error .overflow := by
  refine ⟨fun hsafe => ?_, fun op hop htop => ?_⟩
  · obtain ⟨statement', hparse, halike⟩ := exists_parse?_infixForm h hsafe
    exact ⟨statement', hparse, halike.mono fun _ _ h => h.1,
      toInfix_of_alike_statement (halike.mono fun _ _ h => h.2)⟩
  · -- with priorities that do not overflow the text is read, with the same operations
    obtain ⟨statement', hparse, halike⟩ := exists_parse?_infixForm h fun op _ => not_atTop_default op
    exact parse?_eq_overflow g' hparse ((operations_of_alike_statement halike).symm ▸ hop) htop

/-- An assignment with literals of exponents, read back with one priority for all operations. -/
theorem parse?_toInfix_of_exponents :
    ∃ statement, Statement.parse? .default "x=-f(1.50e3,(.5))^2e-1%g()".toList = .ok statement ∧
      ∃ statement', Statement.parse? ⟨fun _ => 0, false⟩ statement.toInfix.toList =
          .ok statement' ∧
        statement.Alike (fun value value' => value.value = value'.value) statement' ∧
        statement'.toInfix = statement.toInfix := by
  have hok : (Statement.parse? .default "x=-f(1.50e3,(.5))^2e-1%g()".toList).isOk = true := by
    cbv
  cases hparse : Statement.parse? .default "x=-f(1.50e3,(.5))^2e-1%g()".toList with
  | error error => rw [hparse] at hok; cases hok
  | ok statement => exact ⟨statement, rfl, (parse?_toInfix _ hparse).1 fun op _ htop => by cases htop.2⟩

/-- With the greatest priority for the minus, the infix form of `1-2` is not read. -/
theorem toInfix_overflows_at_top :
    ∃ statement, Statement.parse? .default "1-2".toList = .ok statement ∧
      statement.toInfix = "(1 - 2)" ∧
      Statement.parse? (only .sub topPriority).grammar statement.toInfix.toList =
        .error .overflow := by
  refine ⟨_, by cbv, by cbv, by cbv⟩

end Abacus.Reading
