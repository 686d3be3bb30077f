import Abacus.Proofs.Reading.Statements

/-!
# Remembered outcomes do not show

What the rules read does not depend on what is remembered, and a source text has only one outcome.  So
a parser that remembers gives the same as one that works out every rule anew (`parse?_remembers`).

The memory itself is true in every state that a parse reaches (`Reached`): an outcome is written when a
rule was worked out, and working it out again in any later state, with whatever is remembered there,
gives that outcome.  `Follows` says of a reader that it only goes through such states, and that more steps
change nothing in what it gives.  The main statement is `memory_transparent`.
-/

namespace Abacus.Reading

open Abacus.Parser

/-! ## The rules have no memory -/

section Forgetting

variable {g : Grammar} {s : Nat → Lexed} (remembers : Bool)

theorem Reads.switch {goal : Goal} {i j : Nat} {expr : Expr} (h : Reads g s goal i j expr) :
    Reads ⟨g.priority, remembers⟩ s goal i j expr := by
  induction h with
  | chain _ _ first rest => exact .chain first rest
  | done htoken hjoins => exact .done htoken hjoins
  | join htoken hjoins hinner _ _ operand rest => exact .join htoken hjoins hinner operand rest
  | number htoken hvalue => exact .number htoken hvalue
  | var htoken hnext hkind => exact .var htoken hnext hkind
  | called _ call => exact .called call
  | grouped _ paren => exact .grouped paren
  | signed _ unary => exact .signed unary
  | callEmpty hname hopening hclosing => exact .callEmpty hname hopening hclosing
  | callFirst hname hopening _ _ argument rest => exact .callFirst hname hopening argument rest
  | next hcomma _ _ argument rest => exact .next hcomma argument rest
  | close hclosing => exact .close hclosing
  | paren hopening _ hclosing expression => exact .paren hopening expression hclosing
  | unary htoken hop hnext hstarts _ term => exact .unary htoken hop hnext hstarts term

theorem Fails.switch {goal : Goal} {i : Nat} {why : SyntaxFailure}
    (h : Fails g s goal i why) : Fails ⟨g.priority, remembers⟩ s goal i why := by
  induction h with
  | chainFirst _ first => exact .chainFirst first
  | chainRest first _ rest => exact .chainRest (first.switch remembers) rest
  | extendChar hchar => exact .extendChar hchar
  | extendOverflow htoken hjoins hinner => exact .extendOverflow htoken hjoins hinner
  | extendOperand htoken hjoins hinner _ operand =>
    exact .extendOperand htoken hjoins hinner operand
  | extendRest htoken hjoins hinner operand _ rest =>
    exact .extendRest htoken hjoins hinner (operand.switch remembers) rest
  | termChar hchar => exact .termChar hchar
  | termNumber htoken hvalue => exact .termNumber htoken hvalue
  | termNextChar htoken hchar => exact .termNextChar htoken hchar
  | termCall htoken hopening _ call => exact .termCall htoken hopening call
  | termParen htoken _ paren => exact .termParen htoken paren
  | termUnary htoken _ unary => exact .termUnary htoken unary
  | termNone htoken hstarts => exact .termNone htoken hstarts
  | callName hname => exact .callName hname
  | callOpening hname hopening => exact .callOpening hname hopening
  | callChar hname hopening hchar => exact .callChar hname hopening hchar
  | callFirst hname hopening hnext hkind _ argument =>
    exact .callFirst hname hopening hnext hkind argument
  | callRest hname hopening argument _ rest =>
    exact .callRest hname hopening (argument.switch remembers) rest
  | nextArgument hcomma _ argument => exact .nextArgument hcomma argument
  | nextRest hcomma argument _ rest => exact .nextRest hcomma (argument.switch remembers) rest
  | close hcomma hclosing => exact .close hcomma hclosing
  | parenOpening hopening => exact .parenOpening hopening
  | parenInner hopening _ expression => exact .parenInner hopening expression
  | parenClosing hopening expression hclosing =>
    exact .parenClosing hopening (expression.switch remembers) hclosing
  | unaryChar hchar => exact .unaryChar hchar
  | unarySign htoken hop => exact .unarySign htoken hop
  | unaryNextChar htoken hop hchar => exact .unaryNextChar htoken hop hchar
  | unaryOperand htoken hop hnext hstarts => exact .unaryOperand htoken hop hnext hstarts
  | unaryTerm htoken hop hnext hstarts _ term => exact .unaryTerm htoken hop hnext hstarts term

theorem ReadsWhole.switch {statement : Statement} (h : ReadsWhole g s statement) :
    ReadsWhole ⟨g.priority, remembers⟩ s statement := by
  cases h with
  | expression expression hfinish => exact .expression (expression.switch remembers) hfinish
  | assignment htarget hequals expression hfinish =>
    exact .assignment htarget hequals (expression.switch remembers) hfinish

theorem NoExpression.switch {why : SyntaxFailure} (h : NoExpression g s why) :
    NoExpression ⟨g.priority, remembers⟩ s why := by
  cases h with
  | expression expression => exact .expression (expression.switch remembers)
  | finish expression hfinish => exact .finish (expression.switch remembers) hfinish

theorem NoAssignment.switch {why : SyntaxFailure} (h : NoAssignment g s why) :
    NoAssignment ⟨g.priority, remembers⟩ s why := by
  cases h with
  | target htarget => exact .target htarget
  | equals htarget hequals => exact .equals htarget hequals
  | expression htarget hequals expression =>
    exact .expression htarget hequals (expression.switch remembers)
  | finish htarget hequals expression hfinish =>
    exact .finish htarget hequals (expression.switch remembers) hfinish

theorem Unread.switch {why : SyntaxFailure} (h : Unread g s why) :
    Unread ⟨g.priority, remembers⟩ s why := by
  cases h with
  | fatal expression hfatal => exact .fatal (expression.switch remembers) hfatal
  | assignmentFatal expression hexpression assignment hfatal =>
    exact .assignmentFatal (expression.switch remembers) hexpression (assignment.switch remembers)
      hfatal
  | neither expression hexpression assignment hassignment =>
    exact .neither (expression.switch remembers) hexpression (assignment.switch remembers)
      hassignment

end Forgetting

/-- A parser that remembers outcomes gives what one gives that works out every rule anew. -/
theorem parse?_remembers (priority : BinaryOp → UInt64) (source : List Char) :
    Statement.parse? ⟨priority, true⟩ source = Statement.parse? ⟨priority, false⟩ source := by
  cases hparse : Statement.parse? ⟨priority, true⟩ source with
  | ok statement => exact (parse?_eq_ok_iff.mpr ((parse?_eq_ok_iff.mp hparse).switch false)).symm
  | error why =>
    exact (parse?_eq_error_iff.mpr ((parse?_eq_error_iff.mp hparse).switch false)).symm

/-! ## States that a parse reaches -/

/-- What working out a rule runs. -/
def bodyOf (g : Grammar) (steps : Nat) : Rule → Parser Expr
  | .expression => chain g steps 0
  | .call => call g steps
  | .paren => paren g steps
  | .unary => unary g steps

/-- The states in which a parser of a text can be, as long as nothing fatal happened.  It takes tokens
from the lexer, moves, keeps marks and notes of what was worked out and united, and remembers outcomes of
rules that it worked out in such a state. -/
inductive Reached (g : Grammar) (source : List Char) : State → Prop
  | start : Reached g source (.start source)
  | token {state : State} {after : Lexer} {token : Token} (hstate : Reached g source state)
      (hnext : state.lexer.next? = some (.ok token, after)) :
      Reached g source { state with lexer := after, tokens := state.tokens.push token }
  | moved {state : State} (hstate : Reached g source state) (position : Nat) (marks : List Nat)
      (worked : List (Rule × Nat)) (united : List (Span × Span)) :
      Reached g source { state with position, marks, worked, united }
  | parsed {steps : Nat} {rule : Rule} {expr : Expr} {state final : State}
      (hstate : Reached g source state) (hrun : bodyOf g steps rule state = .ok expr final)
      (hfinal : Reached g source final) :
      Reached g source { final with
        memo := final.memo.insert (memoKey rule state.position) (.parsed final.position expr) }
  | failed {steps : Nat} {rule : Rule} {error : Located SyntaxError} {state final : State}
      (hstate : Reached g source state)
      (hrun : bodyOf g steps rule state = .error (.failed (.refused error)) final)
      (hlexical : error.val.isLexical = false) (hfinal : Reached g source final) :
      Reached g source { final with
        memo := final.memo.insert (memoKey rule state.position) (.failed error) }

/-- From a reached state the second reader gives what the first one gives, unless the steps of the first
are used up, and the state behind is reached, unless there was a fatal failure. -/
def Outlasts (g : Grammar) (source : List Char) {α : Type} (m m' : Parser α) : Prop :=
  ∀ state, Reached g source state →
    match m state with
    | .ok value final => m' state = .ok value final ∧ Reached g source final
    | .error (.failed why) final =>
      m' state = .error (.failed why) final ∧ (why.isFatal = false → Reached g source final)
    | .error .outOfSteps _ => True

variable {g : Grammar} {source : List Char} {α β : Type}

namespace Outlasts

theorem of_meets {m : Parser α}
    (h : ∀ state, Reached g source state → Meets m state (fun _ final => Reached g source final)
      (fun why _ => why.isFatal = true)) : Outlasts g source m m := by
  intro state hstate
  have hm := h state hstate
  unfold Meets at hm
  split at hm
  · rename_i value final hrun
    rw [hrun]
    exact ⟨rfl, hm⟩
  · rename_i why final hrun
    rw [hrun]
    refine ⟨rfl, fun hfatal => ?_⟩
    rw [hfatal] at hm
    cases hm
  · exact hm.elim

theorem pure (value : α) : Outlasts g source (Pure.pure value) (Pure.pure value) :=
  fun _ hstate => ⟨rfl, hstate⟩

theorem failed (why : SyntaxFailure) :
    Outlasts g source (throw (.failed why) : Parser α) (throw (.failed why)) :=
  fun _ hstate => ⟨rfl, fun _ => hstate⟩

theorem outOfSteps (m : Parser α) : Outlasts g source (throw .outOfSteps) m :=
  fun _ _ => trivial

theorem bind {m m' : Parser α} {f f' : α → Parser β} (h : Outlasts g source m m')
    (hf : ∀ value, Outlasts g source (f value) (f' value)) :
    Outlasts g source (m >>= f) (m' >>= f') := by
  intro state hstate
  have hm := h state hstate
  cases hrun : m state with
  | ok value middle =>
    rw [hrun] at hm
    have hleft : (m >>= f) state = f value middle := by simp [Bind.bind, EStateM.bind, hrun]
    have hright : (m' >>= f') state = f' value middle := by simp [Bind.bind, EStateM.bind, hm.1]
    rw [hleft, hright]
    exact hf value middle hm.2
  | error stop final =>
    rw [hrun] at hm
    have hleft : (m >>= f) state = .error stop final := by simp [Bind.bind, EStateM.bind, hrun]
    rw [hleft]
    cases stop with
    | outOfSteps => trivial
    | failed why =>
      have hright : (m' >>= f') state = .error (.failed why) final := by
        simp [Bind.bind, EStateM.bind, hm.1]
      exact ⟨hright, hm.2⟩

theorem trans {m m' m'' : Parser α} (h : Outlasts g source m m') (h' : Outlasts g source m' m'') :
    Outlasts g source m m'' := by
  intro state hstate
  have hm := h state hstate
  have hm' := h' state hstate
  cases hrun : m state with
  | ok value final =>
    rw [hrun] at hm
    rw [hm.1] at hm'
    exact hm'
  | error stop final =>
    rw [hrun] at hm
    cases stop with
    | outOfSteps => trivial
    | failed why =>
      rw [hm.1] at hm'
      exact hm'

theorem advance : Outlasts g source advance advance :=
  fun _ hstate => ⟨rfl, hstate.moved _ _ _ _⟩

theorem unite (first last : Span) : Outlasts g source (unite first last) (unite first last) :=
  fun _ hstate => ⟨rfl, hstate.moved _ _ _ _⟩

/-- Tokens are taken until there is an error of the lexer. -/
theorem pull_meets (count : Nat) {state : State} (hstate : Reached g source state) :
    Meets (pull count) state (fun _ final => Reached g source final)
      (fun why _ => why.isFatal = true) := by
  induction count generalizing state with
  | zero => exact hstate
  | succ count ih =>
    refine Meets.get_bind ?_
    cases hnext : state.lexer.next? with
    | none => exact hstate
    | some step =>
      obtain ⟨item, after⟩ := step
      cases item with
      | error span => exact Meets.set_bind rfl
      | ok token => exact Meets.set_bind (ih (hstate.token hnext))

theorem peek (ahead : Nat) : Outlasts g source (peek ahead) (peek ahead) := by
  refine of_meets fun state hstate => ?_
  refine Meets.get_bind (Meets.get_bind (Meets.bind ((pull_meets _ hstate).imp ?_ ?_)))
  · intro _ final hfinal
    refine Meets.get_bind ?_
    dsimp only
    split
    · exact hfinal
    · rfl
  · exact fun _ _ hfatal => hfatal

theorem expect (kind : TokenKind) (context : Context) :
    Outlasts g source (expect kind context) (expect kind context) := by
  refine bind (peek 0) fun token => ?_
  by_cases hkind : token.kind = kind
  · simp only [hkind, if_true]
    exact bind advance fun _ => pure token
  · simp only [hkind, if_false]
    exact failed _

theorem skip (kind : TokenKind) (context : Context) :
    Outlasts g source (discard (Parser.expect kind context))
      (discard (Parser.expect kind context)) :=
  bind (expect kind context) fun _ => pure _

theorem number : Outlasts g source number number := by
  refine bind (expect .number .expression) fun token => ?_
  cases Decimal.ofText? token.text with
  | ok value => exact pure _
  | error why => exact failed _

theorem closeCall (name : Token) (args : List Expr) :
    Outlasts g source (closeCall name args) (closeCall name args) :=
  bind (expect .rightParen .call) fun _ => bind (unite _ _) fun _ => pure _

theorem enclose (opening closing : Token) (inner : Expr) :
    Outlasts g source (enclose opening closing inner) (enclose opening closing inner) := by
  cases inner with
  | var => exact pure _
  | _ => exact bind (unite _ _) fun _ => pure _

theorem attempt {m m' : Parser α} (h : Outlasts g source m m') :
    Outlasts g source (attempt m) (attempt m') := by
  intro state hstate
  have hm := h { state with marks := state.position :: state.marks } (hstate.moved _ _ _ _)
  obtain ⟨value, final, hrun, hend⟩ | ⟨stop, final, hrun, hfatal, hend⟩ |
    ⟨error, final, hrun, hlexical, hend⟩ := attempt_cases m state
  all_goals
    rw [hrun] at hm
    rw [hend]
  · exact ⟨(attempt_congr (hm.1.trans hrun.symm)).trans hend, hm.2.moved _ _ _ _⟩
  · cases stop with
    | outOfSteps => trivial
    | failed why =>
      exact ⟨(attempt_congr (hm.1.trans hrun.symm)).trans hend, by simp [hfatal why rfl]⟩
  · exact ⟨(attempt_congr (hm.1.trans hrun.symm)).trans hend, (hm.2 hlexical).moved _ _ _ _⟩

/-- A rule that is worked out with more steps is remembered with the same outcome. -/
theorem remembering {steps : Nat} {rule : Rule}
    (h : Outlasts g source (bodyOf g steps rule) (bodyOf g (steps + 1) rule)) :
    Outlasts g source (remembering g rule (bodyOf g steps rule))
      (remembering g rule (bodyOf g (steps + 1) rule)) := by
  intro state hstate
  have hentered : Reached g source { state with worked := (rule, state.position) :: state.worked } :=
    hstate.moved _ _ _ _
  have hm := h _ hentered
  by_cases hremembers : g.remembers = true
  · cases hfound : state.memo[memoKey rule state.position]? with
    | some outcome =>
      cases outcome with
      | failed error =>
        simpa [Parser.remembering, hremembers, hfound] using fun _ => hstate
      | parsed stop expr =>
        simpa [Parser.remembering, hremembers, hfound] using hstate.moved stop _ _ _
    | none =>
      simp only [Parser.remembering, hremembers, if_true, hfound]
      obtain ⟨expr, final, hrun, hend⟩ | ⟨stop, final, hrun, hfatal, hend⟩ |
        ⟨error, final, hrun, hlexical, hend⟩ := workOutOnce_cases rule (bodyOf g steps rule) state
      all_goals
        rw [hrun] at hm
        rw [hend]
      · exact ⟨(workOutOnce_congr (hm.1.trans hrun.symm)).trans hend, hentered.parsed hrun hm.2⟩
      · cases stop with
        | outOfSteps => trivial
        | failed why =>
          exact ⟨(workOutOnce_congr (hm.1.trans hrun.symm)).trans hend, by simp [hfatal why rfl]⟩
      · exact ⟨(workOutOnce_congr (hm.1.trans hrun.symm)).trans hend,
          fun _ => hentered.failed hrun hlexical (hm.2 hlexical)⟩
  · simpa [Parser.remembering, hremembers, workOut] using hm

end Outlasts

/-- One step more changes nothing in what the rules give. -/
structure Steady (g : Grammar) (source : List Char) (steps : Nat) : Prop where
  expression : Outlasts g source (expression g steps) (expression g (steps + 1))
  chain : ∀ least, Outlasts g source (chain g steps least) (chain g (steps + 1) least)
  extend : ∀ least lhs,
    Outlasts g source (extend g steps least lhs) (extend g (steps + 1) least lhs)
  term : Outlasts g source (term g steps) (term g (steps + 1))
  call : Outlasts g source (call g steps) (call g (steps + 1))
  moreArguments : Outlasts g source (moreArguments g steps) (moreArguments g (steps + 1))
  paren : Outlasts g source (paren g steps) (paren g (steps + 1))
  unary : Outlasts g source (unary g steps) (unary g (steps + 1))

namespace Steady

variable {steps : Nat}

theorem extend_succ (h : Steady g source steps) (least : UInt64) (lhs : Expr) :
    Outlasts g source (Parser.extend g (steps + 1) least lhs)
      (Parser.extend g (steps + 1 + 1) least lhs) := by
  refine .bind (.peek 0) fun token => ?_
  cases binaryOp? token with
  | none => exact .pure lhs
  | some op =>
    by_cases hless : g.priority op < least
    · simp only [hless, if_true]
      exact .pure lhs
    · simp only [hless, if_false]
      refine .bind .advance fun _ => ?_
      cases rightPriority? g op with
      | none => exact .failed _
      | some inner =>
        exact .bind (h.chain inner) fun rhs =>
          .bind (.unite lhs.span rhs.span) fun span => h.extend least _

theorem term_succ (h : Steady g source steps) :
    Outlasts g source (Parser.term g (steps + 1)) (Parser.term g (steps + 1 + 1)) := by
  refine .bind (.peek 0) fun token => ?_
  cases token.kind with
  | number => exact .number
  | ident =>
    refine .bind (.attempt (.remembering h.call)) fun outcome => ?_
    cases outcome with
    | ok expr => exact .pure expr
    | error error =>
      refine .bind (.peek 1) fun next => ?_
      by_cases hopening : next.kind = .leftParen
      · simp only [hopening, if_true]
        exact .failed _
      · simp only [hopening, if_false]
        exact .bind .advance fun _ => .pure _
  | leftParen => exact .remembering h.paren
  | sign => exact .remembering h.unary
  | _ => exact .failed _

theorem call_succ (h : Steady g source steps) :
    Outlasts g source (Parser.call g (steps + 1)) (Parser.call g (steps + 1 + 1)) := by
  refine .bind (.expect .ident .call) fun name => .bind (.skip .leftParen .call) fun _ =>
    .bind (.peek 0) fun next => ?_
  by_cases hkind : next.kind = .rightParen
  · simp only [hkind, if_true]
    exact .bind (.pure []) fun args => .closeCall name args
  · simp only [hkind, if_false]
    exact .bind h.expression fun first => .bind h.moreArguments fun others =>
      .bind (.pure (first :: others)) fun args => .closeCall name args

theorem moreArguments_succ (h : Steady g source steps) :
    Outlasts g source (Parser.moreArguments g (steps + 1))
      (Parser.moreArguments g (steps + 1 + 1)) := by
  refine .bind (.peek 0) fun next => ?_
  by_cases hkind : next.kind = .comma
  · simp only [hkind, if_true]
    exact .bind .advance fun _ => .bind h.expression fun _ => .bind h.moreArguments fun _ => .pure _
  · simp only [hkind, if_false]
    exact .pure []

theorem paren_succ (h : Steady g source steps) :
    Outlasts g source (Parser.paren g (steps + 1)) (Parser.paren g (steps + 1 + 1)) :=
  .bind (.expect .leftParen .expression) fun opening => .bind h.expression fun inner =>
    .bind (.expect .rightParen .expression) fun closing => .enclose opening closing inner

theorem unary_succ (h : Steady g source steps) :
    Outlasts g source (Parser.unary g (steps + 1)) (Parser.unary g (steps + 1 + 1)) := by
  refine .bind (.peek 0) fun token => ?_
  cases unaryOp? token with
  | none => exact .failed _
  | some op =>
    refine .bind .advance fun _ => .bind (.peek 0) fun next => ?_
    cases startsOperand next with
    | true => exact .bind h.term fun _ => .bind (.unite _ _) fun _ => .pure _
    | false => exact .failed _

end Steady

/-- No count of steps is worse than a smaller one. -/
theorem steady (g : Grammar) (source : List Char) (steps : Nat) : Steady g source steps := by
  induction steps with
  | zero =>
    exact {
      expression := .outOfSteps _
      chain := fun _ => .outOfSteps _
      extend := fun _ _ => .outOfSteps _
      term := .outOfSteps _
      call := .outOfSteps _
      moreArguments := .outOfSteps _
      paren := .outOfSteps _
      unary := .outOfSteps _ }
  | succ steps ih =>
    exact {
      expression := .remembering (ih.chain 0)
      chain := fun least => .bind ih.term fun lhs => ih.extend least lhs
      extend := ih.extend_succ
      term := ih.term_succ
      call := ih.call_succ
      moreArguments := ih.moreArguments_succ
      paren := ih.paren_succ
      unary := ih.unary_succ }

theorem bodyOf_succ (g : Grammar) (source : List Char) (steps : Nat) (rule : Rule) :
    Outlasts g source (bodyOf g steps rule) (bodyOf g (steps + 1) rule) := by
  cases rule with
  | expression => exact (steady g source steps).chain 0
  | call => exact (steady g source steps).call
  | paren => exact (steady g source steps).paren
  | unary => exact (steady g source steps).unary

theorem wholeExpression_succ (g : Grammar) (source : List Char) (steps : Nat) :
    Outlasts g source (wholeExpression g steps) (wholeExpression g (steps + 1)) :=
  .bind (steady g source steps).expression fun _ => .bind (.skip .finish .expression) fun _ => .pure _

theorem wholeAssignment_succ (g : Grammar) (source : List Char) (steps : Nat) :
    Outlasts g source (wholeAssignment g steps) (wholeAssignment g (steps + 1)) :=
  .bind (.expect .ident .assignment) fun _ => .bind (.skip .equals .assignment) fun _ =>
    .bind (steady g source steps).expression fun _ => .bind (.unite _ _) fun _ =>
      .bind (.skip .finish .expression) fun _ => .pure _

/-- Where one step more changes nothing, no larger count of steps does. -/
theorem statement_succ (g : Grammar) (source : List Char) (steps : Nat) :
    Outlasts g source (statement g steps) (statement g (steps + 1)) := by
  refine .bind (.attempt (wholeExpression_succ g source steps)) fun outcome => ?_
  cases outcome with
  | ok value => exact .pure value
  | error asExpression =>
    refine .bind (.attempt (wholeAssignment_succ g source steps)) fun outcome => ?_
    cases outcome with
    | ok value => exact .pure value
    | error asAssignment => exact .failed _

theorem Outlasts.add {m : Nat → Parser α} (h : ∀ steps, Outlasts g source (m steps) (m (steps + 1)))
    (steps more : Nat) : Outlasts g source (m steps) (m (steps + more + 1)) := by
  induction more with
  | zero => exact h steps
  | succ more ih => exact ih.trans (h _)

/-! ## What is remembered is true -/

/-- With as many steps as a text needs, working out a rule settles its goal. -/
theorem settles_bodyOf {items : List Lexed} (hended : Ended items) {steps : Nat}
    (hsteps : 4 * items.length + 4 ≤ steps) (rule : Rule) (i : Nat) :
    Settles g items (goalOf rule) i (bodyOf g steps rule) := by
  have henough := enough g hended steps
  cases rule with
  | expression => exact henough.chain i 0 (by omega)
  | call => exact henough.call i (by omega)
  | paren => exact henough.paren i (by omega)
  | unary => exact henough.unary i (by omega)

/-- Whatever the count of steps was, an outcome that there is is the true one. -/
theorem recorded_of_run {state : State} (hstate : Reached g source state)
    (hkept : Kept g (tokenize source) state.marks state) (steps : Nat) (rule : Rule) :
    match bodyOf g steps rule state with
    | .ok expr final => Recorded g (tokenize source) rule state.position (.parsed final.position expr)
    | .error (.failed (.refused error)) _ =>
      error.val.isLexical = false → Recorded g (tokenize source) rule state.position (.failed error)
    | .error _ _ => True := by
  -- more steps give the same, and enough of them what the rules say
  have hmore := Outlasts.add (fun steps => bodyOf_succ g source steps rule) steps
    (4 * (tokenize source).length + 4) state hstate
  have hsettled := settles_bodyOf (ended_tokenize source)
    (show 4 * (tokenize source).length + 4 ≤ steps + (4 * (tokenize source).length + 4) + 1 by omega)
    rule state.position state.marks state hkept rfl
  unfold Meets at hsettled
  cases hrun : bodyOf g steps rule state with
  | ok expr final =>
    rw [hrun] at hmore
    rw [hmore.1] at hsettled
    exact hsettled.1
  | error stop final =>
    rw [hrun] at hmore
    cases stop with
    | outOfSteps => trivial
    | failed why =>
      cases why with
      | overflow => trivial
      | refused error =>
        rw [hmore.1] at hsettled
        exact fun hlexical => ⟨hsettled.1, hlexical⟩

/-- In a reached state the buffer and the memory agree with the text. -/
theorem Reached.kept {state : State} (h : Reached g source state) :
    Kept g (tokenize source) state.marks state := by
  induction h with
  | start => exact kept_start g source
  | token _ hnext ih =>
    obtain ⟨rest, hitems, hgives⟩ := ih.buffer
    cases hgives with
    | nil hnone =>
      rw [hnone] at hnext
      cases hnext
    | cons hitem hrest =>
      obtain ⟨rfl, rfl⟩ := Prod.mk.inj (Option.some.inj (hitem.symm.trans hnext))
      exact ⟨⟨_, by simpa using hitems, hrest⟩, ih.memory, rfl⟩
  | moved _ _ _ _ _ ih => exact ⟨ih.buffer, ih.memory, rfl⟩
  | @parsed steps rule _ _ _ hstate hrun _ ihstate ihfinal =>
    have hrecorded := recorded_of_run hstate ihstate steps rule
    rw [hrun] at hrecorded
    exact ihfinal.remember hrecorded
  | @failed steps rule _ _ _ hstate hrun hlexical _ ihstate ihfinal =>
    have hrecorded := recorded_of_run hstate ihstate steps rule
    rw [hrun] at hrecorded
    exact ihfinal.remember (hrecorded hlexical)

/-- What a rule gave, unless a priority overflowed or the steps were used up. -/
def outcome? : EStateM.Result Stop State Expr → Option Outcome
  | .ok expr final => some (.parsed final.position expr)
  | .error (.failed (.refused error)) _ => some (.failed error)
  | .error _ _ => none

/-- A remembered outcome is what working out the rule gives. -/
theorem Kept.outcome_eq {items : List Lexed} (hended : Ended items) {marks : List Nat} {state : State}
    (hkept : Kept g items marks state) {rule : Rule} {start : Nat} {outcome : Outcome}
    (hfound : state.memo[memoKey rule start]? = some outcome) {steps : Nat}
    (hsteps : 4 * items.length + 4 ≤ steps) :
    outcome? (bodyOf g steps rule { state with position := start }) = some outcome := by
  have hrecorded := hkept.memory rule start outcome hfound
  have hsettled := settles_bodyOf hended hsteps rule start marks { state with position := start }
    ⟨hkept.buffer, hkept.memory, hkept.pending⟩ rfl
  unfold Meets at hsettled
  split at hsettled
  · rename_i expr final hrun
    rw [hrun]
    cases outcome with
    | failed error => exact absurd hrecorded.1 hsettled.1.not_fails
    | parsed stop expr' =>
      obtain ⟨hstop, hexpr⟩ := Reads.unique hrecorded hsettled.1
      rw [outcome?, hstop, hexpr]
  · rename_i why final hrun
    rw [hrun]
    cases outcome with
    | failed error =>
      obtain rfl := hrecorded.1.unique hsettled.1
      rfl
    | parsed stop expr' => exact absurd hsettled.1 (Reads.not_fails hrecorded)
  · exact hsettled.elim

/-- From a reached state the reader goes to a reached one, unless there is a fatal failure or its steps
are used up. -/
def Stays (g : Grammar) (source : List Char) {α : Type} (m : Parser α) : Prop :=
  ∀ state, Reached g source state →
    match m state with
    | .ok _ final => Reached g source final
    | .error (.failed why) final => why.isFatal = false → Reached g source final
    | .error .outOfSteps _ => True

theorem Outlasts.stays {m m' : Parser α} (h : Outlasts g source m m') : Stays g source m := by
  intro state hstate
  have hm := h state hstate
  cases hrun : m state with
  | ok value final =>
    rw [hrun] at hm
    exact hm.2
  | error stop final =>
    rw [hrun] at hm
    cases stop with
    | outOfSteps => trivial
    | failed why => exact hm.2

theorem stays_remembering (g : Grammar) (source : List Char) (steps : Nat) (rule : Rule) :
    Stays g source (remembering g rule (bodyOf g steps rule)) :=
  (Outlasts.remembering (bodyOf_succ g source steps rule)).stays

theorem stays_statement (g : Grammar) (source : List Char) (steps : Nat) :
    Stays g source (statement g steps) :=
  (statement_succ g source steps).stays

/-- Remembering changes nothing that a parser gives.  In all states that a parse reaches what is
remembered of a rule is what working it out there gives. -/
theorem memory_transparent (priority : BinaryOp → UInt64) (source : List Char) :
    Statement.parse? ⟨priority, true⟩ source = Statement.parse? ⟨priority, false⟩ source ∧
      (∀ state, Reached ⟨priority, true⟩ source state → ∀ rule start outcome,
        state.memo[memoKey rule start]? = some outcome → ∀ steps, stepsFor source.length ≤ steps →
          outcome? (bodyOf ⟨priority, true⟩ steps rule { state with position := start }) =
            some outcome) ∧
      ∀ steps, Stays ⟨priority, true⟩ source (statement ⟨priority, true⟩ steps) ∧
        ∀ rule, Stays ⟨priority, true⟩ source
          (remembering ⟨priority, true⟩ rule (bodyOf ⟨priority, true⟩ steps rule)) := by
  refine ⟨parse?_remembers priority source, ?_, fun steps => ⟨stays_statement _ source steps, ?_⟩⟩
  · intro state hstate rule start outcome hfound steps hsteps
    exact hstate.kept.outcome_eq (ended_tokenize source) hfound
      ((length_le_stepsFor source).trans hsteps)
  · exact stays_remembering _ source steps

/-- A state with a remembered outcome is reached where one is behind a statement. -/
theorem exists_reached {steps : Nat} {rule : Rule} {start : Nat}
    (h : (match statement g steps (.start source) with
      | .ok _ final => (final.memo[memoKey rule start]?).isSome
      | .error _ _ => false) = true) :
    ∃ state outcome, Reached g source state ∧ state.memo[memoKey rule start]? = some outcome := by
  have hstays := stays_statement g source steps _ .start
  cases hrun : statement g steps (.start source) with
  | ok value final =>
    rw [hrun] at hstays h
    obtain ⟨outcome, houtcome⟩ := Option.isSome_iff_exists.mp h
    exact ⟨final, outcome, hstays, houtcome⟩
  | error stop final =>
    rw [hrun] at h
    cases h

/-- Behind `a*(b)` it is remembered that no call stands at the first token. -/
theorem memory_transparent_behind_product :
    ∃ state outcome, Reached ⟨BinaryOp.defaultPriority, true⟩ "a*(b)".toList state ∧
      state.memo[memoKey .call 0]? = some outcome ∧
      outcome? (bodyOf ⟨BinaryOp.defaultPriority, true⟩ 56 .call { state with position := 0 }) =
        some outcome := by
  have hmemory := (memory_transparent BinaryOp.defaultPriority "a*(b)".toList).2.1
  have hsteps : stepsFor "a*(b)".toList.length ≤ 56 := by decide
  obtain ⟨state, outcome, hreached, hfound⟩ :=
    @exists_reached ⟨BinaryOp.defaultPriority, true⟩ "a*(b)".toList 56 .call 0 (by cbv)
  exact ⟨state, outcome, hreached, hfound, hmemory state hreached .call 0 outcome hfound 56 hsteps⟩

end Abacus.Reading
