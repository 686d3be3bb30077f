import Abacus.Proofs.Reading.Memory

/-!
# Where rules are entered

A parser enters a goal at the start of a text, behind the equals sign of an assignment, and within a goal
that it entered, for each of its parts (`Met`).  A fatal failure of a goal that is entered, such as a
lexical error, goes through the goals around it and through both ways to read a statement, and is why the
text is not read (`Met.unread`).

What a parse notes and remembers is watched by a `ParseInvariant`: a property of the state and of the rules
that are being worked out.  A rule is entered only where its goal is met, and nowhere while it is being
worked out, because a rule inside another one starts further to the right or has a higher rank there
(`Below`).  So what holds at the start of a parse holds behind it (`invariant_final`), for one that each
rule that is noted as worked out was entered where it is noted (`noted_final`).

The main statement is `lexical_reported`.
-/

namespace Abacus.Reading

open Abacus.Parser

/-- The goal is entered at item `i` when the items are read as a statement. -/
inductive Met (g : Grammar) (s : Nat → Lexed) : Goal → Nat → Prop
  | expression : Met g s (.chain 0) 0
  | assignment {target equals : Token} (htarget : Stands s 0 .ident target)
      (hequals : Stands s 1 .equals equals) : Met g s (.chain 0) 2
  | first {i : Nat} {least : UInt64} (hmet : Met g s (.chain least) i) : Met g s .term i
  | rest {i j : Nat} {least : UInt64} {lhs : Expr} (hmet : Met g s (.chain least) i)
      (first : Reads g s .term i j lhs) : Met g s (.extend least lhs) j
  | operand {i : Nat} {least inner : UInt64} {lhs : Expr} {token : Token} {op : BinaryOp}
      (hmet : Met g s (.extend least lhs) i) (htoken : s i = .ok token)
      (hjoins : joins? g least token = some op) (hinner : rightPriority? g op = some inner) :
      Met g s (.chain inner) (i + 1)
  | further {i j : Nat} {least inner : UInt64} {lhs rhs : Expr} {token : Token} {op : BinaryOp}
      (hmet : Met g s (.extend least lhs) i) (htoken : s i = .ok token)
      (hjoins : joins? g least token = some op) (hinner : rightPriority? g op = some inner)
      (operand : Reads g s (.chain inner) (i + 1) j rhs) :
      Met g s (.extend least (binaryOf lhs token op rhs)) j
  | call {i : Nat} {name : Token} (hmet : Met g s .term i) (hname : Stands s i .ident name) :
      Met g s .call i
  | paren {i : Nat} {opening : Token} (hmet : Met g s .term i)
      (hopening : Stands s i .leftParen opening) : Met g s .paren i
  | unary {i : Nat} {sign : Token} (hmet : Met g s .term i) (hsign : Stands s i .sign sign) :
      Met g s .unary i
  | firstArgument {i : Nat} {name opening next : Token} (hmet : Met g s .call i)
      (hname : Stands s i .ident name) (hopening : Stands s (i + 1) .leftParen opening)
      (hnext : s (i + 2) = .ok next) (hkind : next.kind ≠ .rightParen) : Met g s (.chain 0) (i + 2)
  | otherArguments {i j : Nat} {name opening : Token} {first : Expr} (hmet : Met g s .call i)
      (hname : Stands s i .ident name) (hopening : Stands s (i + 1) .leftParen opening)
      (argument : Reads g s (.chain 0) (i + 2) j first) : Met g s (.arguments name [first]) j
  | nextArgument {i : Nat} {name comma : Token} {args : List Expr}
      (hmet : Met g s (.arguments name args) i) (hcomma : Stands s i .comma comma) :
      Met g s (.chain 0) (i + 1)
  | nextRest {i j : Nat} {name comma : Token} {args : List Expr} {arg : Expr}
      (hmet : Met g s (.arguments name args) i) (hcomma : Stands s i .comma comma)
      (argument : Reads g s (.chain 0) (i + 1) j arg) : Met g s (.arguments name (args ++ [arg])) j
  | inner {i : Nat} {opening : Token} (hmet : Met g s .paren i)
      (hopening : Stands s i .leftParen opening) : Met g s (.chain 0) (i + 1)
  | signed {i : Nat} {token next : Token} {op : UnaryOp} (hmet : Met g s .unary i)
      (htoken : s i = .ok token) (hop : unaryOp? token = some op) (hnext : s (i + 1) = .ok next)
      (hstarts : startsOperand next = true) : Met g s .term (i + 1)

/-- Spans that are united when the items are read as a statement. -/
inductive Unites (g : Grammar) (s : Nat → Lexed) : Span → Span → Prop
  | operands {i j : Nat} {least inner : UInt64} {lhs rhs : Expr} {token : Token} {op : BinaryOp}
      (hmet : Met g s (.extend least lhs) i) (htoken : s i = .ok token)
      (hjoins : joins? g least token = some op) (hinner : rightPriority? g op = some inner)
      (operand : Reads g s (.chain inner) (i + 1) j rhs) :
      Unites g s lhs.span rhs.span
  | call {i j : Nat} {name closing : Token} (hname : Stands s i .ident name)
      (hclosing : Stands s j .rightParen closing) (hlt : i < j) : Unites g s name.span closing.span
  | parens {i j : Nat} {opening closing : Token} (hopening : Stands s i .leftParen opening)
      (hclosing : Stands s j .rightParen closing) (hlt : i < j) :
      Unites g s opening.span closing.span
  | signed {i j : Nat} {token : Token} {operand : Expr} (htoken : Stands s i .sign token)
      (term : Reads g s .term (i + 1) j operand) : Unites g s token.span operand.span
  | assigned {j : Nat} {target equals : Token} {value : Expr} (htarget : Stands s 0 .ident target)
      (hequals : Stands s 1 .equals equals) (expression : Reads g s (.chain 0) 2 j value) :
      Unites g s target.span value.span

variable {g : Grammar} {s : Nat → Lexed} {items : List Lexed} {source : List Char} {i : Nat}
  {goal : Goal} {why : SyntaxFailure} {error : Located SyntaxError} {α β : Type}
  {post : α → Nat → Prop} {fail : SyntaxFailure → Prop} {m : Parser α}

/-! ## Fatal failures -/

/-- A fatal failure of the assignment is that of the statement. -/
theorem NoAssignment.unread (h : NoAssignment g s why) (hfatal : why.isFatal = true) :
    Unread g s why := by
  cases h with
  | target hmissing =>
    obtain ⟨span, hchar, rfl⟩ := missing?_lexical hmissing hfatal
    exact .fatal (.expression (.chainFirst (.termChar hchar))) rfl
  | equals htarget hmissing =>
    obtain ⟨span, hchar, rfl⟩ := missing?_lexical hmissing hfatal
    exact .fatal (.expression (.chainFirst (.termNextChar htarget hchar))) rfl
  | expression htarget hequals expression =>
    exact .of_assignment (.expression htarget hequals expression) htarget hequals hfatal
  | finish htarget hequals expression hfinish =>
    exact .of_assignment (.finish htarget hequals expression hfinish) htarget hequals hfatal

/-- A fatal failure of a goal that is entered is that of the statement. -/
theorem Met.unread (h : Met g s goal i) (hfails : Fails g s goal i why)
    (hfatal : why.isFatal = true) : Unread g s why := by
  -- outwards: in each case the failure is one of the goal around it
  induction h with
  | expression => exact .fatal (.expression hfails) hfatal
  | assignment htarget hequals =>
    exact .of_assignment (.expression htarget hequals hfails) htarget hequals hfatal
  | first _ ih => exact ih (.chainFirst hfails)
  | rest _ first ih => exact ih (.chainRest first hfails)
  | operand _ htoken hjoins hinner ih => exact ih (.extendOperand htoken hjoins hinner hfails)
  | further _ htoken hjoins hinner operand ih =>
    exact ih (.extendRest htoken hjoins hinner operand hfails)
  | call _ hname ih => exact ih (hfails.term_of_fatal hname hfatal)
  | paren _ hopening ih => exact ih (.termParen hopening hfails)
  | unary _ hsign ih => exact ih (.termUnary hsign hfails)
  | firstArgument _ hname hopening hnext hkind ih =>
    exact ih (.callFirst hname hopening hnext hkind hfails)
  | otherArguments _ hname hopening argument ih =>
    exact ih (.callRest hname hopening argument hfails)
  | nextArgument _ hcomma ih => exact ih (.nextArgument hcomma hfails)
  | nextRest _ hcomma argument ih => exact ih (.nextRest hcomma argument hfails)
  | inner _ hopening ih => exact ih (.parenInner hopening hfails)
  | signed _ htoken hop hnext hstarts ih => exact ih (.unaryTerm htoken hop hnext hstarts hfails)

/-! ## What is noted -/

/-- The state that a reader leaves behind, whatever it gives. -/
def finalOf : EStateM.Result Stop State α → State
  | .ok _ final | .error _ final => final

/-- Two states have the same notes and remember the same outcomes. -/
structure SameNotes (state state' : State) : Prop where
  worked : state'.worked = state.worked
  united : state'.united = state.united
  memo : state'.memo = state.memo

theorem SameNotes.trans {state state' state'' : State} (h : SameNotes state state')
    (h' : SameNotes state' state'') : SameNotes state state'' :=
  ⟨h'.worked.trans h.worked, h'.united.trans h.united, h'.memo.trans h.memo⟩

/-- The reader notes nothing: it works out no rule, unites no spans and remembers no outcome. -/
def Silent (m : Parser α) : Prop := ∀ state, SameNotes state (finalOf (m state))

namespace Silent

theorem pure (value : α) : Silent (Pure.pure value) := fun _ => ⟨rfl, rfl, rfl⟩

theorem stop (stop : Stop) : Silent (throw stop : Parser α) := fun _ => ⟨rfl, rfl, rfl⟩

theorem advance : Silent advance := fun _ => ⟨rfl, rfl, rfl⟩

theorem bind {f : α → Parser β} (h : Silent m) (hf : ∀ value, Silent (f value)) :
    Silent (m >>= f) := by
  intro state
  have hm := h state
  cases hrun : m state with
  | ok value middle =>
    rw [hrun] at hm
    simpa [Bind.bind, EStateM.bind, hrun] using hm.trans (hf value middle)
  | error stop final =>
    rw [hrun] at hm
    simpa [Bind.bind, EStateM.bind, hrun, finalOf] using hm

theorem get_bind {f : State → Parser β}
    (h : ∀ state, SameNotes state (finalOf (f state state))) : Silent (get >>= f) := h

theorem pull (count : Nat) : Silent (pull count) := by
  induction count with
  | zero => exact pure _
  | succ count ih =>
    refine get_bind fun state => ?_
    cases state.lexer.next? with
    | none => exact ⟨rfl, rfl, rfl⟩
    | some step =>
      obtain ⟨item, after⟩ := step
      cases item with
      | error span => exact ⟨rfl, rfl, rfl⟩
      | ok token =>
        have hsame : SameNotes state { state with lexer := after, tokens := state.tokens.push token } :=
          ⟨rfl, rfl, rfl⟩
        exact hsame.trans (ih _)

theorem peek (ahead : Nat) : Silent (peek ahead) := by
  have hget : Silent (get : Parser State) := fun _ => ⟨rfl, rfl, rfl⟩
  refine bind hget fun _ => bind hget fun _ => bind (pull _) fun _ => bind hget fun state => ?_
  dsimp only
  split
  · exact pure _
  · exact stop _

theorem expect (kind : TokenKind) (context : Context) : Silent (expect kind context) := by
  refine bind (peek 0) fun token => ?_
  split
  · exact bind advance fun _ => pure token
  · exact stop _

theorem skip (kind : TokenKind) (context : Context) :
    Silent (discard (Parser.expect kind context)) :=
  bind (expect kind context) fun _ => pure _

theorem number : Silent number := by
  refine bind (expect .number .expression) fun token => ?_
  split
  · exact pure _
  · exact stop _

end Silent

/-! ## What a parse keeps -/

/-- A property of the states of a parse, given the rules that are being worked out, the innermost first.
It outlasts all that a parser notes and remembers. -/
structure ParseInvariant (g : Grammar) (items : List Lexed) where
  /-- The property. -/
  holds : List (Rule × Nat) → State → Prop
  /-- It is about notes and remembered outcomes only. -/
  quiet : ∀ {running state state'}, SameNotes state state' → holds running state →
    holds running state'
  /-- It is kept when spans are united. -/
  unites : ∀ {running state first last}, Unites g (itemAt items) first last → holds running state →
    holds running { state with united := (first, last) :: state.united }
  /-- It is kept when a rule is entered that is not being worked out and has no outcome yet. -/
  enters : ∀ {running state rule}, Met g (itemAt items) (goalOf rule) state.position →
    (rule, state.position) ∉ running →
    (g.remembers = true → state.memo[memoKey rule state.position]? = none) → holds running state →
    holds ((rule, state.position) :: running)
      { state with worked := (rule, state.position) :: state.worked }
  /-- It is kept when the innermost rule is left with an outcome that is remembered. -/
  remembers : ∀ {running state rule start} (outcome : Outcome),
    holds ((rule, start) :: running) state →
    holds running { state with memo := state.memo.insert (memoKey rule start) outcome }
  /-- It is kept when the innermost rule is left and nothing is remembered. -/
  forgets : ∀ {running state entry}, g.remembers = false → holds (entry :: running) state →
    holds running state

variable {inv : ParseInvariant g items} {running : List (Rule × Nat)}

/-- A reader leaves the property behind, with the rules being worked out that were so before it.  A failure
that ends the parse leaves rules unfinished. -/
def Leaves (inv : ParseInvariant g items) (running : List (Rule × Nat)) :
    EStateM.Result Stop State α → Prop
  | .ok _ final => inv.holds running final
  | .error (.failed why) final =>
    if why.isFatal then ∃ running', inv.holds running' final else inv.holds running final
  | .error .outOfSteps final => ∃ running', inv.holds running' final

theorem leaves_fatal_iff {final : State} (h : why.isFatal = true) :
    Leaves inv running (.error (.failed why) final : EStateM.Result Stop State α) ↔
      ∃ running', inv.holds running' final := by
  rw [Leaves, if_pos h]

theorem leaves_failed_iff {final : State} (h : why.isFatal = false) :
    Leaves inv running (.error (.failed why) final : EStateM.Result Stop State α) ↔
      inv.holds running final := by
  rw [Leaves, h, if_neg Bool.false_ne_true]

/-- Rules that are left may be taken from those that are being worked out. -/
theorem Leaves.imp {running' : List (Rule × Nat)} {result : EStateM.Result Stop State α}
    (h : Leaves inv running' result)
    (hholds : ∀ final, inv.holds running' final → inv.holds running final) :
    Leaves inv running result := by
  cases result with
  | ok value final => exact hholds final h
  | error stop final =>
    cases stop with
    | outOfSteps => exact h
    | failed why =>
      cases hfatal : why.isFatal with
      | true => exact (leaves_fatal_iff hfatal).mpr ((leaves_fatal_iff hfatal).mp h)
      | false =>
        exact (leaves_failed_iff hfatal).mpr (hholds final ((leaves_failed_iff hfatal).mp h))

theorem Leaves.of_holds {result : EStateM.Result Stop State α}
    (h : inv.holds running (finalOf result)) : Leaves inv running result := by
  cases result with
  | ok value final => exact h
  | error stop final =>
    cases stop with
    | outOfSteps => exact ⟨running, h⟩
    | failed why =>
      cases hfatal : why.isFatal with
      | true => exact (leaves_fatal_iff hfatal).mpr ⟨running, h⟩
      | false => exact (leaves_failed_iff hfatal).mpr h

theorem Leaves.exists_holds {result : EStateM.Result Stop State α} (h : Leaves inv running result) :
    ∃ running', inv.holds running' (finalOf result) := by
  cases result with
  | ok value final => exact ⟨running, h⟩
  | error stop final =>
    cases stop with
    | outOfSteps => exact h
    | failed why =>
      cases hfatal : why.isFatal with
      | true => exact (leaves_fatal_iff hfatal).mp h
      | false => exact ⟨running, (leaves_failed_iff hfatal).mp h⟩

/-- Run from item `i` on, the reader keeps the property. -/
def Maintains (inv : ParseInvariant g items) (running : List (Rule × Nat)) (i : Nat) (m : Parser α) :
    Prop :=
  ∀ marks state, Kept g items marks state → state.position = i → inv.holds running state →
    Leaves inv running (m state)

/-! What a lookahead and a token show, whatever happens where they fail. -/

theorem Yields.peeked (hended : Ended items) :
    Yields g items (fun token j => j = i ∧ itemAt items i = .ok token) (fun _ => True) i
      (Parser.peek 0) :=
  peekNext hended fun _ _ => trivial

theorem Yields.expected (hended : Ended items) (kind : TokenKind) (context : Context) :
    Yields g items (fun token j => j = i + 1 ∧ Stands (itemAt items) i kind token) (fun _ => True) i
      (Parser.expect kind context) :=
  expect hended kind context fun _ _ => trivial

theorem Yields.skipped (hended : Ended items) (kind : TokenKind) (context : Context) :
    Yields g items (fun _ j => j = i + 1 ∧ ∃ token, Stands (itemAt items) i kind token)
      (fun _ => True) i (discard (Parser.expect kind context)) :=
  skip hended kind context fun _ _ => trivial

namespace Maintains

theorem of_silent (h : Silent m) : Maintains inv running i m := by
  intro marks state _ _ hholds
  exact .of_holds (inv.quiet (h state) hholds)

theorem unite {first last : Span} (h : Unites g (itemAt items) first last) :
    Maintains inv running i (unite first last) := by
  intro marks state _ _ hholds
  exact inv.unites h hholds

theorem bind {f : α → Parser β} (h : Maintains inv running i m) (hyields : Yields g items post fail i m)
    (hf : ∀ value j, post value j → Maintains inv running j (f value)) :
    Maintains inv running i (m >>= f) := by
  intro marks state hkept hposition hholds
  have hm := h marks state hkept hposition hholds
  have hrun := hyields marks state hkept hposition
  unfold Meets at hrun
  cases hresult : m state with
  | ok value middle =>
    rw [hresult] at hm hrun
    simpa [Bind.bind, EStateM.bind, hresult] using hf value _ hrun.1 marks middle hrun.2 rfl hm
  | error stop final =>
    rw [hresult] at hm
    cases stop <;> simpa [Bind.bind, EStateM.bind, hresult, Leaves] using hm

/-- What works out no rule may stand before anything. -/
theorem after {f : α → Parser β} (h : Silent m) (hyields : Yields g items post fail i m)
    (hf : ∀ value j, post value j → Maintains inv running j (f value)) :
    Maintains inv running i (m >>= f) :=
  bind (of_silent h) hyields hf

theorem advance_bind {f : PUnit → Parser β} (h : Maintains inv running (i + 1) (f ⟨⟩)) :
    Maintains inv running i (advance >>= f) := by
  have hyields : Yields g items (fun _ j => j = i + 1) (fun _ => False) i advance := .advance
  refine after .advance hyields fun _ _ heq => ?_
  subst heq
  exact h

theorem unite_bind {first last : Span} {f : Span → Parser β}
    (h : Unites g (itemAt items) first last) (hf : Maintains inv running i (f (first.unite last))) :
    Maintains inv running i (Parser.unite first last >>= f) := by
  have hyields : Yields g items (fun span j => j = i ∧ span = first.unite last) (fun _ => False) i
    (Parser.unite first last) := .unite first last
  refine bind (unite h) hyields fun _ _ hfacts => ?_
  obtain ⟨rfl, rfl⟩ := hfacts
  exact hf

theorem attempt (h : Maintains inv running i m) : Maintains inv running i (Parser.attempt m) := by
  intro marks state hkept hposition hholds
  have hmoved : ∀ {running' : List (Rule × Nat)} {final : State} (position : Nat) (marks : List Nat),
      inv.holds running' final → inv.holds running' { final with position, marks } :=
    fun position marks => inv.quiet ⟨rfl, rfl, rfl⟩
  have hm := h (state.position :: marks) { state with marks := state.position :: state.marks }
    ⟨hkept.buffer, hkept.memory, by rw [hkept.pending]⟩ hposition (hmoved _ _ hholds)
  obtain ⟨value, final, hresult, hend⟩ | ⟨stop, final, hresult, hfatal, hend⟩ |
    ⟨error, final, hresult, hlexical, hend⟩ := attempt_cases m state
  all_goals
    rw [hresult] at hm
    rw [hend]
  · exact hmoved final.position _ hm
  · cases stop with
    | outOfSteps =>
      obtain ⟨running', hm⟩ := hm
      exact ⟨running', hmoved final.position _ hm⟩
    | failed why =>
      obtain ⟨running', hm⟩ := (leaves_fatal_iff (hfatal why rfl)).mp hm
      exact (leaves_fatal_iff (hfatal why rfl)).mpr ⟨running', hmoved final.position _ hm⟩
  · have hfatal : SyntaxFailure.isFatal (.refused error) = false := hlexical
    exact hmoved _ _ ((leaves_failed_iff hfatal).mp hm)

/-- A rule that is not being worked out may be entered where its goal is met. -/
theorem remembering {rule : Rule} {body : Parser Expr}
    (h : Maintains inv ((rule, i) :: running) i body) (hmet : Met g (itemAt items) (goalOf rule) i)
    (hnew : (rule, i) ∉ running) : Maintains inv running i (remembering g rule body) := by
  intro marks state hkept hposition hholds
  subst hposition
  have hentered := fun hmemo => h marks
    { state with worked := (rule, state.position) :: state.worked }
    ⟨hkept.buffer, hkept.memory, hkept.pending⟩ rfl (inv.enters hmet hnew hmemo hholds)
  unfold Parser.remembering
  cases hremembers : g.remembers with
  | true =>
    simp only [if_true]
    cases hmemo : state.memo[memoKey rule state.position]? with
    | some outcome =>
      cases outcome with
      | failed error => exact .of_holds hholds
      | parsed stop expr =>
        have hsame : SameNotes state { state with position := stop } := ⟨rfl, rfl, rfl⟩
        exact inv.quiet hsame hholds
    | none =>
      have hm := hentered fun _ => hmemo
      obtain ⟨expr, final, hresult, hend⟩ | ⟨stop, final, hresult, hfatal, hend⟩ |
        ⟨error, final, hresult, hlexical, hend⟩ := workOutOnce_cases rule body state
      all_goals
        rw [hresult] at hm
        simp only [hend]
      · exact inv.remembers _ hm
      · cases stop with
        | outOfSteps => exact hm
        | failed why =>
          exact (leaves_fatal_iff (hfatal why rfl)).mpr ((leaves_fatal_iff (hfatal why rfl)).mp hm)
      · have hfatal : SyntaxFailure.isFatal (.refused error) = false := hlexical
        exact (leaves_failed_iff hfatal).mpr (inv.remembers _ ((leaves_failed_iff hfatal).mp hm))
  | false =>
    simp only [Bool.false_eq_true, if_false]
    have hm := hentered fun h => absurd h (by rw [hremembers]; exact Bool.false_ne_true)
    exact hm.imp fun _ => inv.forgets hremembers

theorem closeCall (hended : Ended items) {start : Nat} {name : Token} {args : List Expr}
    (hname : Stands (itemAt items) start .ident name) (hlt : start < i) :
    Maintains inv running i (closeCall name args) := by
  refine after (.expect .rightParen .call) (.expected hended .rightParen .call) fun closing _ hfacts => ?_
  obtain ⟨rfl, hclosing⟩ := hfacts
  exact unite_bind (.call hname hclosing hlt) (of_silent (.pure _))

theorem enclose {opening closing : Token} {inner : Expr}
    (h : Unites g (itemAt items) opening.span closing.span) :
    Maintains inv running i (enclose opening closing inner) := by
  cases inner with
  | var => exact of_silent (.pure _)
  | _ => exact unite_bind h (of_silent (.pure _))

end Maintains

/-! ## Which rules are being worked out -/

/-- Where rules stand in the order in which they are entered one inside the other: by the items where they
start, and at one item an expression comes first. -/
def rank : Rule → Nat → Nat
  | .expression, start => 2 * start
  | _, start => 2 * start + 1

/-- The rules that are being worked out have lower ranks. -/
def Below (bound : Nat) (running : List (Rule × Nat)) : Prop :=
  ∀ rule start, (rule, start) ∈ running → rank rule start < bound

theorem Below.nil (bound : Nat) : Below bound [] := fun _ _ hmem => absurd hmem List.not_mem_nil

theorem Below.mono {bound bound' : Nat} (h : Below bound running) (hle : bound ≤ bound') :
    Below bound' running :=
  fun rule start hmem => (h rule start hmem).trans_le hle

theorem Below.not_mem {rule : Rule} (h : Below (rank rule i) running) : (rule, i) ∉ running :=
  fun hmem => lt_irrefl _ (h rule i hmem)

theorem Below.cons {rule : Rule} (h : Below (rank rule i) running) :
    Below (rank rule i + 1) ((rule, i) :: running) := by
  intro rule' start hmem
  rcases List.mem_cons.mp hmem with heq | hmem
  · obtain ⟨rfl, rfl⟩ := Prod.mk.inj heq
    exact Nat.lt_succ_self _
  · exact (h rule' start hmem).trans (Nat.lt_succ_self _)

/-- A rule is entered inside rules of lower ranks. -/
theorem Maintains.entering {rule : Rule} {body : Parser Expr} (hbelow : Below (rank rule i) running)
    (h : Below (rank rule i + 1) ((rule, i) :: running) → Maintains inv ((rule, i) :: running) i body)
    (hmet : Met g (itemAt items) (goalOf rule) i) :
    Maintains inv running i (Parser.remembering g rule body) :=
  .remembering (h hbelow.cons) hmet hbelow.not_mem

/-- With this many steps every rule that is entered inside rules of lower ranks keeps the property. -/
structure Entering (inv : ParseInvariant g items) (steps : Nat) : Prop where
  expression : ∀ i running, 4 * (items.length - i) + 4 ≤ steps → Below (2 * i) running →
    Met g (itemAt items) (.chain 0) i → Maintains inv running i (expression g steps)
  chain : ∀ i running least, 4 * (items.length - i) + 3 ≤ steps → Below (2 * i + 1) running →
    Met g (itemAt items) (.chain least) i → Maintains inv running i (chain g steps least)
  extend : ∀ i running least lhs, 4 * (items.length - i) + 1 ≤ steps → Below (2 * i + 1) running →
    Met g (itemAt items) (.extend least lhs) i → Maintains inv running i (extend g steps least lhs)
  term : ∀ i running, 4 * (items.length - i) + 2 ≤ steps → Below (2 * i + 1) running →
    Met g (itemAt items) .term i → Maintains inv running i (term g steps)
  call : ∀ i running, 4 * (items.length - i) + 1 ≤ steps → Below (2 * i + 2) running →
    Met g (itemAt items) .call i → Maintains inv running i (call g steps)
  moreArguments : ∀ i running name args, 4 * (items.length - i) + 1 ≤ steps →
    Below (2 * i + 2) running → Met g (itemAt items) (.arguments name args) i →
      Maintains inv running i (moreArguments g steps)
  paren : ∀ i running, 4 * (items.length - i) + 1 ≤ steps → Below (2 * i + 2) running →
    Met g (itemAt items) .paren i → Maintains inv running i (paren g steps)
  unary : ∀ i running, 4 * (items.length - i) + 1 ≤ steps → Below (2 * i + 2) running →
    Met g (itemAt items) .unary i → Maintains inv running i (unary g steps)

namespace Entering

variable {steps : Nat}

theorem chain_succ (hended : Ended items) (h : Entering inv steps) {least : UInt64}
    (hsteps : 4 * (items.length - i) + 3 ≤ steps + 1) (hbelow : Below (2 * i + 1) running)
    (hmet : Met g (itemAt items) (.chain least) i) :
    Maintains inv running i (Parser.chain g (steps + 1) least) := by
  refine .bind (h.term i running (by omega) hbelow (.first hmet))
    ((enough g hended steps).term i (by omega)) fun lhs j hlhs => ?_
  have hlt : i < j := hlhs.progress
  exact h.extend j running least lhs (by omega) (hbelow.mono (by omega)) (.rest hmet hlhs)

theorem extend_succ (hended : Ended items) (h : Entering inv steps) {least : UInt64} {lhs : Expr}
    (hsteps : 4 * (items.length - i) + 1 ≤ steps + 1) (hbelow : Below (2 * i + 1) running)
    (hmet : Met g (itemAt items) (.extend least lhs) i) :
    Maintains inv running i (Parser.extend g (steps + 1) least lhs) := by
  refine .after (.peek 0) (.peeked hended) fun token i hfacts => ?_
  obtain ⟨rfl, htoken⟩ := hfacts
  cases hop : binaryOp? token with
  | none => exact .of_silent (.pure lhs)
  | some op =>
    by_cases hless : g.priority op < least
    · simp only [hless, if_true]
      exact .of_silent (.pure lhs)
    · simp only [hless, if_false]
      have hjoins : joins? g least token = some op := by simp [joins?, hop, hless]
      have hkind : token.kind ≠ .finish := by
        rcases binaryOp?_kind hop with h | h <;> simp [h]
      have hlength := hended.lt_length htoken hkind
      refine .advance_bind ?_
      cases hinner : rightPriority? g op with
      | none => exact .of_silent (.stop _)
      | some inner =>
        refine .bind (h.chain _ running inner (by omega) (hbelow.mono (by omega))
            (.operand hmet htoken hjoins hinner))
          ((enough g hended steps).chain _ _ (by omega)) fun rhs j hrhs => ?_
        have hlt := hrhs.progress
        dsimp only at hlt
        refine .unite_bind (.operands hmet htoken hjoins hinner hrhs) ?_
        exact h.extend j running least _ (by omega) (hbelow.mono (by omega))
          (.further hmet htoken hjoins hinner hrhs)

theorem term_succ (hended : Ended items) (h : Entering inv steps)
    (hsteps : 4 * (items.length - i) + 2 ≤ steps + 1) (hbelow : Below (2 * i + 1) running)
    (hmet : Met g (itemAt items) .term i) : Maintains inv running i (Parser.term g (steps + 1)) := by
  refine .after (.peek 0) (.peeked hended) fun token i hfacts => ?_
  obtain ⟨rfl, htoken⟩ := hfacts
  cases hkind : token.kind with
  | number => exact .of_silent .number
  | ident =>
    have hcall := (enough g hended steps).call i (by omega)
    have hentered : Met g (itemAt items) .call i := .call hmet ⟨htoken, hkind⟩
    refine .bind
      (.attempt (.entering hbelow (fun hrunning => h.call i _ (by omega) hrunning hentered) hentered))
      (.attempt (Settles.remembering .call hcall)) fun outcome _ _ => ?_
    -- a call or a variable, nothing more is worked out
    refine .of_silent ?_
    cases outcome with
    | ok expr => exact .pure expr
    | error error =>
      refine .bind (.peek 1) fun next => ?_
      split
      · exact .stop _
      · exact .bind .advance fun _ => .pure _
  | leftParen =>
    have hentered : Met g (itemAt items) .paren i := .paren hmet ⟨htoken, hkind⟩
    exact .entering hbelow (fun hrunning => h.paren i _ (by omega) hrunning hentered) hentered
  | sign =>
    have hentered : Met g (itemAt items) .unary i := .unary hmet ⟨htoken, hkind⟩
    exact .entering hbelow (fun hrunning => h.unary i _ (by omega) hrunning hentered) hentered
  | _ => exact .of_silent (.stop _)

theorem call_succ (hended : Ended items) (h : Entering inv steps)
    (hsteps : 4 * (items.length - i) + 1 ≤ steps + 1) (hbelow : Below (2 * i + 2) running)
    (hmet : Met g (itemAt items) .call i) : Maintains inv running i (Parser.call g (steps + 1)) := by
  refine .after (.expect .ident .call) (.expected hended .ident .call) fun name _ hfacts => ?_
  obtain ⟨rfl, hname⟩ := hfacts
  refine .after (.skip .leftParen .call) (.skipped hended .leftParen .call) fun _ _ hfacts => ?_
  obtain ⟨rfl, opening, hopening⟩ := hfacts
  have hlength := hended.lt_length hopening.1 (by simp [hopening.2])
  refine .after (.peek 0) (.peeked hended) fun next _ hfacts => ?_
  obtain ⟨rfl, hnext⟩ := hfacts
  by_cases hkind : next.kind = .rightParen
  · simp only [hkind, if_true]
    exact .closeCall hended hname (by omega)
  · simp only [hkind, if_false]
    refine .bind (h.expression _ running (by omega) (hbelow.mono (by omega))
        (.firstArgument hmet hname hopening hnext hkind))
      ((enough g hended steps).expression _ (by omega)) fun first j hfirst => ?_
    have hlt := hfirst.progress
    dsimp only at hlt
    refine .bind (h.moreArguments j running name [first] (by omega) (hbelow.mono (by omega))
        (.otherArguments hmet hname hopening hfirst))
      ((enough g hended steps).moreArguments j (by omega)) fun others k hfacts => ?_
    obtain ⟨hle, _⟩ := hfacts
    exact .closeCall hended hname (by omega)

theorem moreArguments_succ (hended : Ended items) (h : Entering inv steps) {name : Token}
    {args : List Expr} (hsteps : 4 * (items.length - i) + 1 ≤ steps + 1)
    (hbelow : Below (2 * i + 2) running) (hmet : Met g (itemAt items) (.arguments name args) i) :
    Maintains inv running i (Parser.moreArguments g (steps + 1)) := by
  refine .after (.peek 0) (.peeked hended) fun token i hfacts => ?_
  obtain ⟨rfl, htoken⟩ := hfacts
  by_cases hkind : token.kind = .comma
  · have hlength := hended.lt_length htoken (by simp [hkind])
    have hcomma : Stands (itemAt items) _ .comma token := ⟨htoken, hkind⟩
    simp only [hkind, if_true]
    refine .advance_bind (.bind
      (h.expression _ running (by omega) (hbelow.mono (by omega)) (.nextArgument hmet hcomma))
      ((enough g hended steps).expression _ (by omega)) fun arg j harg => ?_)
    have hlt := harg.progress
    dsimp only at hlt
    refine .bind (h.moreArguments j running name (args ++ [arg]) (by omega) (hbelow.mono (by omega))
        (.nextRest hmet hcomma harg))
      ((enough g hended steps).moreArguments j (by omega)) fun _ _ _ => ?_
    exact .of_silent (.pure _)
  · simp only [hkind, if_false]
    exact .of_silent (.pure _)

theorem paren_succ (hended : Ended items) (h : Entering inv steps)
    (hsteps : 4 * (items.length - i) + 1 ≤ steps + 1) (hbelow : Below (2 * i + 2) running)
    (hmet : Met g (itemAt items) .paren i) : Maintains inv running i (Parser.paren g (steps + 1)) := by
  refine .after (.expect .leftParen .expression) (.expected hended .leftParen .expression)
    fun opening _ hfacts => ?_
  obtain ⟨rfl, hopening⟩ := hfacts
  have hlength := hended.lt_length hopening.1 (by simp [hopening.2])
  refine .bind (h.expression _ running (by omega) (hbelow.mono (by omega)) (.inner hmet hopening))
    ((enough g hended steps).expression _ (by omega)) fun inner j hinner => ?_
  have hlt := hinner.progress
  dsimp only at hlt
  refine .after (.expect .rightParen .expression) (.expected hended .rightParen .expression)
    fun closing _ hfacts => ?_
  obtain ⟨rfl, hclosing⟩ := hfacts
  exact .enclose (.parens hopening hclosing (by omega))

theorem unary_succ (hended : Ended items) (h : Entering inv steps)
    (hsteps : 4 * (items.length - i) + 1 ≤ steps + 1) (hbelow : Below (2 * i + 2) running)
    (hmet : Met g (itemAt items) .unary i) : Maintains inv running i (Parser.unary g (steps + 1)) := by
  refine .after (.peek 0) (.peeked hended) fun token i hfacts => ?_
  obtain ⟨rfl, htoken⟩ := hfacts
  cases hop : unaryOp? token with
  | none => exact .of_silent (.stop _)
  | some op =>
    have hlength := hended.lt_length htoken (by simp [unaryOp?_kind hop])
    refine .advance_bind (.after (.peek 0) (.peeked hended) fun next _ hfacts => ?_)
    obtain ⟨rfl, hnext⟩ := hfacts
    cases hstarts : startsOperand next with
    | false => exact .of_silent (.stop _)
    | true =>
      refine .bind (h.term _ running (by omega) (hbelow.mono (by omega))
          (.signed hmet htoken hop hnext hstarts))
        ((enough g hended steps).term _ (by omega)) fun operand _ hterm => ?_
      exact .unite_bind (.signed ⟨htoken, unaryOp?_kind hop⟩ hterm) (.of_silent (.pure _))

end Entering

/-- Whatever is entered, it keeps the property. -/
theorem entering (hended : Ended items) (inv : ParseInvariant g items) (steps : Nat) :
    Entering inv steps := by
  induction steps with
  | zero => constructor <;> intros <;> omega
  | succ steps ih =>
    exact {
      expression := fun i _ h hbelow hmet =>
        .entering hbelow (fun hrunning => ih.chain i _ 0 (by omega) hrunning hmet) hmet
      chain := fun _ _ _ h => ih.chain_succ hended h
      extend := fun _ _ _ _ h => ih.extend_succ hended h
      term := fun _ _ h => ih.term_succ hended h
      call := fun _ _ h => ih.call_succ hended h
      moreArguments := fun _ _ _ _ h => ih.moreArguments_succ hended h
      paren := fun _ _ h => ih.paren_succ hended h
      unary := fun _ _ h => ih.unary_succ hended h }

/-! ## Whole texts -/

theorem maintains_wholeExpression (hended : Ended items) {steps : Nat}
    (hsteps : 4 * items.length + 4 ≤ steps) : Maintains inv [] 0 (wholeExpression g steps) := by
  refine .bind ((entering hended inv steps).expression 0 [] hsteps (.nil _) .expression)
    ((enough g hended steps).expression 0 hsteps) fun _ _ _ => ?_
  exact .of_silent (.bind (.skip .finish .expression) fun _ => .pure _)

theorem maintains_wholeAssignment (hended : Ended items) {steps : Nat}
    (hsteps : 4 * items.length + 4 ≤ steps) : Maintains inv [] 0 (wholeAssignment g steps) := by
  refine .after (.expect .ident .assignment) (.expected hended .ident .assignment)
    fun target _ hfacts => ?_
  obtain ⟨rfl, htarget⟩ := hfacts
  refine .after (.skip .equals .assignment) (.skipped hended .equals .assignment) fun _ _ hfacts => ?_
  obtain ⟨rfl, equals, hequals⟩ := hfacts
  refine .bind ((entering hended inv steps).expression 2 [] (by omega) (.nil _)
      (.assignment htarget hequals))
    ((enough g hended steps).expression 2 (by omega)) fun value _ hvalue => ?_
  refine .unite_bind (.assigned htarget hequals hvalue) ?_
  exact .of_silent (.bind (.skip .finish .expression) fun _ => .pure _)

theorem maintains_statement (hended : Ended items) {steps : Nat}
    (hsteps : 4 * items.length + 4 ≤ steps) : Maintains inv [] 0 (statement g steps) := by
  refine .bind (.attempt (maintains_wholeExpression hended hsteps))
    (.attempt (wholeExpression_yields hended hsteps)) fun outcome _ houtcome => ?_
  cases outcome with
  | ok value => exact .of_silent (.pure value)
  | error asExpression =>
    obtain ⟨_, _, rfl⟩ := houtcome
    refine .bind (.attempt (maintains_wholeAssignment hended hsteps))
      (.attempt (wholeAssignment_yields hended hsteps)) fun outcome _ _ => ?_
    cases outcome with
    | ok value => exact .of_silent (.pure value)
    | error asAssignment => exact .of_silent (.stop _)

/-- What holds when nothing is read yet holds behind the whole parse. -/
theorem invariant_final (inv : ParseInvariant g (tokenize source))
    (hstart : inv.holds [] (.start source)) :
    ∃ running, inv.holds running
      (finalOf (statement g (stepsFor source.length) (.start source))) :=
  (maintains_statement (ended_tokenize source) (length_le_stepsFor source) [] _
    (kept_start g source) rfl hstart).exists_holds

/-! ## Rules and spans -/

/-- Each rule that the state notes as worked out is entered where it is noted, and the spans that it notes as
united are. -/
def Noted (g : Grammar) (items : List Lexed) (state : State) : Prop :=
  (∀ rule i, (rule, i) ∈ state.worked → Met g (itemAt items) (goalOf rule) i) ∧
    ∀ first last, (first, last) ∈ state.united → Unites g (itemAt items) first last

/-- That the notes are right is kept, whatever is being worked out. -/
def notedInvariant (g : Grammar) (items : List Lexed) : ParseInvariant g items where
  holds _ := Noted g items
  quiet hsame h := ⟨hsame.worked ▸ h.1, hsame.united ▸ h.2⟩
  unites {_ _ first last} hunites h := by
    refine ⟨h.1, fun first' last' hmem => ?_⟩
    rcases List.mem_cons.mp hmem with heq | hmem
    · obtain ⟨rfl, rfl⟩ := Prod.mk.inj heq
      exact hunites
    · exact h.2 first' last' hmem
  enters {_ state rule} hmet _ _ h := by
    refine ⟨fun rule' i' hmem => ?_, h.2⟩
    rcases List.mem_cons.mp hmem with heq | hmem
    · obtain ⟨rfl, rfl⟩ := Prod.mk.inj heq
      exact hmet
    · exact h.1 rule' i' hmem
  remembers _ h := h
  forgets _ h := h

/-- A parse notes only rules that are entered and spans that are united. -/
theorem noted_final (g : Grammar) (source : List Char) :
    Noted g (tokenize source) (finalOf (statement g (stepsFor source.length) (.start source))) := by
  have hstart : Noted g (tokenize source) (.start source) := by
    constructor <;> intro _ _ hmem <;> cases hmem
  obtain ⟨_, hnoted⟩ := invariant_final (notedInvariant g (tokenize source)) hstart
  exact hnoted

/-! ## No lexical error is replaced -/

/-- The rules that are worked out when a source text is read, and the items where they are entered. -/
def workedOut (g : Grammar) (source : List Char) : List (Rule × Nat) :=
  (finalOf (statement g (stepsFor source.length) (.start source))).worked

/-- The pairs of spans that are united when a source text is read, in alternatives that fail too. -/
def unitedSpans (g : Grammar) (source : List Char) : List (Span × Span) :=
  (finalOf (statement g (stepsFor source.length) (.start source))).united

/-- If the reader meets a lexical error from item `i` on, whatever was read or remembered before, then it
is the error of the text. -/
def LexicalReported (g : Grammar) (source : List Char) (i : Nat) (m : Nat → Parser α) : Prop :=
  ∀ steps state final error, Reached g source state → state.position = i →
    m steps state = .error (.failed (.refused error)) final → error.val.isLexical = true →
    Statement.parse? g source = .error (.refused error)

theorem LexicalReported.of_yields {m : Nat → Parser α}
    (hsucc : ∀ steps, Outlasts g source (m steps) (m (steps + 1)))
    (hyields : ∀ steps, 4 * (tokenize source).length + 4 ≤ steps →
      Yields g (tokenize source) post fail i (m steps))
    (hunread : ∀ why, fail why → why.isFatal = true → Unread g (itemAt (tokenize source)) why) :
    LexicalReported g source i m := by
  intro steps state final error hstate hposition hrun hlexical
  have hmore := Outlasts.add hsucc steps (4 * (tokenize source).length + 4) state hstate
  rw [hrun] at hmore
  have hmeets := hyields (steps + (4 * (tokenize source).length + 4) + 1) (by omega) state.marks
    state hstate.kept hposition
  unfold Meets at hmeets
  rw [hmore.1] at hmeets
  exact parse?_eq_error_iff.mpr (hunread _ hmeets.1 hlexical)

/-- Neither of the two ways to read a text nor any rule that is worked out for it meets a lexical error
that is not the error of the text. -/
theorem lexical_reported (g : Grammar) (source : List Char) :
    LexicalReported g source 0 (wholeExpression g) ∧ LexicalReported g source 0 (wholeAssignment g) ∧
      ∀ rule i, (rule, i) ∈ workedOut g source →
        LexicalReported g source i fun steps => bodyOf g steps rule := by
  have hended := ended_tokenize source
  refine ⟨.of_yields (wholeExpression_succ g source) (fun _ => wholeExpression_yields hended)
      fun _ => .fatal,
    .of_yields (wholeAssignment_succ g source) (fun _ => wholeAssignment_yields hended)
      fun _ => NoAssignment.unread, fun rule i hworked => ?_⟩
  have hnoted := noted_final g source
  exact .of_yields (fun steps => bodyOf_succ g source steps rule)
    (fun _ hsteps => settles_bodyOf hended hsteps rule i)
    fun _ => (hnoted.1 rule i hworked).unread

end Abacus.Reading
