import Abacus.Proofs.Reading.Run

/-!
# Statements

A statement is an expression or an assignment, up to the end of the input.  A parser tries the
expression first, and a name before an equals sign is all that an expression could read of an
assignment; so at most one of the two alternatives applies.

`parse?_outcome` says what a source text gives, statement or failure.  `parse?_eq_ok_iff` says what
is read from it, and `parse?_eq_error_iff` why it is not read: `ReadsWhole` and `Unread` leave out
the parser.
-/

namespace Abacus.Reading

open Abacus.Parser

variable (g : Grammar) (s : Nat → Lexed)

/-- The items are a statement. -/
inductive ReadsWhole : Statement → Prop
  | expression {j : Nat} {expr : Expr} {finish : Token}
      (expression : Reads g s (.chain 0) 0 j expr) (hfinish : Stands s j .finish finish) :
      ReadsWhole (.expression expr)
  | assignment {j : Nat} {target equals finish : Token} {expr : Expr}
      (htarget : Stands s 0 .ident target) (hequals : Stands s 1 .equals equals)
      (expression : Reads g s (.chain 0) 2 j expr) (hfinish : Stands s j .finish finish) :
      ReadsWhole (.assignment (target.span.unite expr.span) ⟨target.span, target.text⟩ expr)

/-- The items are no expression up to the end. -/
inductive NoExpression : SyntaxFailure → Prop
  | expression {why : SyntaxFailure} (expression : Fails g s (.chain 0) 0 why) : NoExpression why
  | finish {j : Nat} {expr : Expr} {error : Located SyntaxError}
      (expression : Reads g s (.chain 0) 0 j expr)
      (hfinish : missing? .finish .expression (s j) = some error) : NoExpression (.refused error)

/-- The items are no assignment up to the end. -/
inductive NoAssignment : SyntaxFailure → Prop
  | target {error : Located SyntaxError}
      (htarget : missing? .ident .assignment (s 0) = some error) : NoAssignment (.refused error)
  | equals {target : Token} {error : Located SyntaxError} (htarget : Stands s 0 .ident target)
      (hequals : missing? .equals .assignment (s 1) = some error) : NoAssignment (.refused error)
  | expression {target equals : Token} {why : SyntaxFailure}
      (htarget : Stands s 0 .ident target) (hequals : Stands s 1 .equals equals)
      (expression : Fails g s (.chain 0) 2 why) : NoAssignment why
  | finish {j : Nat} {target equals : Token} {expr : Expr} {error : Located SyntaxError}
      (htarget : Stands s 0 .ident target) (hequals : Stands s 1 .equals equals)
      (expression : Reads g s (.chain 0) 2 j expr)
      (hfinish : missing? .finish .expression (s j) = some error) : NoAssignment (.refused error)

/-- The items are not read as a statement.  A fatal failure ends the search for an alternative. -/
inductive Unread : SyntaxFailure → Prop
  | fatal {why : SyntaxFailure} (expression : NoExpression g s why)
      (hfatal : why.isFatal = true) : Unread why
  | assignmentFatal {asExpression : Located SyntaxError} {why : SyntaxFailure}
      (expression : NoExpression g s (.refused asExpression))
      (hexpression : asExpression.val.isLexical = false) (assignment : NoAssignment g s why)
      (hfatal : why.isFatal = true) : Unread why
  | neither {asExpression asAssignment : Located SyntaxError}
      (expression : NoExpression g s (.refused asExpression))
      (hexpression : asExpression.val.isLexical = false)
      (assignment : NoAssignment g s (.refused asAssignment))
      (hassignment : asAssignment.val.isLexical = false) :
      Unread (.refused (if asExpression.span.offset < asAssignment.span.offset then asAssignment
        else asExpression))

variable {g s} {items : List Lexed}

/-! ## What a parser gives -/

theorem wholeExpression_yields (hended : Ended items) {steps : Nat}
    (hsteps : 4 * items.length + 4 ≤ steps) :
    Yields g items (fun statement _ => ReadsWhole g (itemAt items) statement)
      (NoExpression g (itemAt items)) 0 (wholeExpression g steps) := by
  refine Yields.bind ((enough g hended steps).expression 0 hsteps)
    (fun _ hwhy => .expression hwhy) ?_
  intro expr j hexpr
  refine Yields.seq (Yields.skip hended .finish .expression fun _ herror => .finish hexpr herror) ?_
  intro _ _ hfacts
  obtain ⟨_, finish, hfinish⟩ := hfacts
  exact Yields.pure (.expression hexpr hfinish)

theorem wholeAssignment_yields (hended : Ended items) {steps : Nat}
    (hsteps : 4 * items.length + 4 ≤ steps) :
    Yields g items (fun statement _ => ReadsWhole g (itemAt items) statement)
      (NoAssignment g (itemAt items)) 0 (wholeAssignment g steps) := by
  refine Yields.seq (Yields.expect hended .ident .assignment fun _ herror => .target herror) ?_
  intro target _ hfacts
  obtain ⟨rfl, htarget⟩ := hfacts
  refine Yields.seq
    (Yields.skip hended .equals .assignment fun _ herror => .equals htarget herror) ?_
  intro _ _ hfacts
  obtain ⟨rfl, equals, hequals⟩ := hfacts
  refine Yields.bind ((enough g hended steps).expression 2 (by omega))
    (fun _ hwhy => .expression htarget hequals hwhy) ?_
  intro expr j hexpr
  refine Yields.seq (Yields.unite target.span expr.span) ?_
  intro _ _ hfacts
  obtain ⟨rfl, rfl⟩ := hfacts
  refine Yields.seq (Yields.skip hended .finish .expression
    fun _ herror => .finish htarget hequals hexpr herror) ?_
  intro _ _ hfacts
  obtain ⟨_, finish, hfinish⟩ := hfacts
  exact Yields.pure (.assignment htarget hequals hexpr hfinish)

theorem statement_yields (hended : Ended items) {steps : Nat}
    (hsteps : 4 * items.length + 4 ≤ steps) :
    Yields g items (fun statement _ => ReadsWhole g (itemAt items) statement)
      (Unread g (itemAt items)) 0 (Parser.statement g steps) := by
  refine Yields.bind (Yields.attempt (wholeExpression_yields hended hsteps))
    (fun _ hwhy => .fatal hwhy.1 hwhy.2) ?_
  intro outcome j houtcome
  cases outcome with
  | ok statement => exact Yields.pure houtcome
  | error asExpression =>
    obtain ⟨hexpression, hlexical, rfl⟩ := houtcome
    refine Yields.bind (Yields.attempt (wholeAssignment_yields hended hsteps))
      (fun _ hwhy => .assignmentFatal hexpression hlexical hwhy.1 hwhy.2) ?_
    intro outcome j houtcome
    cases outcome with
    | ok statement => exact Yields.pure houtcome
    | error asAssignment =>
      obtain ⟨hassignment, hlexical', rfl⟩ := houtcome
      exact Yields.refuse (.neither hexpression hlexical hassignment hlexical')

/-- Before anything is read the buffer and the memory are empty. -/
theorem kept_start (g : Grammar) (source : List Char) :
    Kept g (tokenize source) [] (.start source) :=
  ⟨⟨tokenize source, by simp [State.start], gives_tokenize source⟩, by simp [State.start], rfl⟩

/-- A parser starts with steps enough for its text. -/
theorem length_le_stepsFor (source : List Char) :
    4 * (tokenize source).length + 4 ≤ stepsFor source.length := by
  have hlength := tokenize_length_le source
  unfold stepsFor
  omega

/-- Every source text is read as a statement or not, by the rules of the grammar. -/
theorem parse?_outcome (g : Grammar) (source : List Char) :
    match Statement.parse? g source with
    | .ok statement => ReadsWhole g (itemAt (tokenize source)) statement
    | .error why => Unread g (itemAt (tokenize source)) why := by
  have hrun := statement_yields (ended_tokenize source) (length_le_stepsFor source) [] _
    (kept_start g source) rfl
  unfold Meets at hrun
  unfold Statement.parse?
  split at hrun
  · rename_i hvalue
    rw [hvalue]
    exact hrun.1
  · rename_i herror
    rw [herror]
    exact hrun.1
  · exact hrun.elim

/-! ## The alternatives exclude each other -/

theorem joins?_of_kind {token : Token} {least : UInt64} (hsign : token.kind ≠ .sign)
    (hoperator : token.kind ≠ .operator) : joins? g least token = none := by
  cases hop : binaryOp? token with
  | none => simp [joins?, hop]
  | some op =>
    rcases binaryOp?_kind hop with h | h
    · exact absurd h hsign
    · exact absurd h hoperator

/-- Of an assignment an expression reads the name. -/
theorem Reads.of_target {least : UInt64} {i j : Nat} {target equals : Token} {expr : Expr}
    (h : Reads g s (.chain least) i j expr) (htarget : Stands s i .ident target)
    (hequals : Stands s (i + 1) .equals equals) : j = i + 1 := by
  cases h with
  | @chain _ k _ _ lhs _ first rest =>
    have hk : k = i + 1 := by
      cases first with
      | number htoken _ => exact absurd (htarget.unique htoken).2 (by decide)
      | var _ _ _ => rfl
      | called call =>
        obtain ⟨_, _, _, hopening⟩ := call.stands_of_call
        exact absurd (hequals.unique hopening).2 (by decide)
      | grouped paren =>
        obtain ⟨token, htoken⟩ := paren.starts
        exact absurd (htarget.unique htoken).2 (by decide)
      | signed unary =>
        obtain ⟨token, htoken⟩ := unary.starts
        exact absurd (htarget.unique htoken).2 (by decide)
    subst hk
    cases rest with
    | done _ _ => rfl
    | join htoken hjoins _ _ _ =>
      obtain ⟨rfl, _⟩ := hequals.unique ⟨htoken, rfl⟩
      have hnone : joins? g least equals = none :=
        joins?_of_kind (by simp [hequals.2]) (by simp [hequals.2])
      rw [hnone] at hjoins
      cases hjoins

/-- A name before an equals sign is an expression. -/
theorem Reads.target {least : UInt64} {i : Nat} {target equals : Token}
    (htarget : Stands s i .ident target) (hequals : Stands s (i + 1) .equals equals) :
    Reads g s (.chain least) i (i + 1) (.var target.span target.text) := by
  refine .chain (.var htarget hequals.1 (by simp [hequals.2])) (.done hequals.1 ?_)
  exact joins?_of_kind (by simp [hequals.2]) (by simp [hequals.2])

theorem ReadsWhole.unique {statement statement' : Statement} (h : ReadsWhole g s statement)
    (h' : ReadsWhole g s statement') : statement' = statement := by
  cases h with
  | expression expression hfinish =>
    cases h' with
    | expression expression' hfinish' => rw [(expression.unique expression').2]
    | assignment htarget hequals _ _ =>
      obtain rfl := expression.of_target htarget hequals
      exact absurd (hequals.unique hfinish).2 (by decide)
  | assignment htarget hequals expression hfinish =>
    cases h' with
    | expression expression' hfinish' =>
      obtain rfl := expression'.of_target htarget hequals
      exact absurd (hequals.unique hfinish').2 (by decide)
    | assignment htarget' hequals' expression' hfinish' =>
      obtain ⟨rfl, _⟩ := htarget.unique htarget'
      rw [(expression.unique expression').2]

theorem Reads.not_noExpression {j : Nat} {expr : Expr} {finish : Token}
    {why : SyntaxFailure} (h : Reads g s (.chain 0) 0 j expr)
    (hfinish : Stands s j .finish finish) : ¬ NoExpression g s why := by
  intro hno
  cases hno with
  | expression hfails => exact h.not_fails hfails
  | finish h' hmissing =>
    obtain ⟨rfl, _⟩ := h.unique h'
    simp [hfinish.missing?] at hmissing

/-- Where an assignment stands, an expression stops at the equals sign. -/
theorem NoExpression.not_fatal {target equals : Token} {why : SyntaxFailure}
    (h : NoExpression g s why) (htarget : Stands s 0 .ident target)
    (hequals : Stands s 1 .equals equals) : why.isFatal = false := by
  have hname : Reads g s (.chain 0) 0 1 (.var target.span target.text) :=
    Reads.target htarget hequals
  cases h with
  | expression hfails => exact absurd hfails hname.not_fails
  | finish h' hmissing =>
    obtain ⟨rfl, _⟩ := hname.unique h'
    simp only [missing?, hequals.1, hequals.2, reduceCtorEq, if_false,
      Option.some.injEq] at hmissing
    rw [← hmissing]
    rfl

theorem ReadsWhole.not_unread {statement : Statement} {why : SyntaxFailure}
    (h : ReadsWhole g s statement) : ¬ Unread g s why := by
  intro hunread
  cases h with
  | expression expression hfinish =>
    have hno : ∀ why, ¬ NoExpression g s why := fun _ => expression.not_noExpression hfinish
    cases hunread with
    | fatal expression' _ | assignmentFatal expression' _ _ _ | neither expression' _ _ _ =>
      exact hno _ expression'
  | assignment htarget hequals expression hfinish =>
    have hno : ∀ why, ¬ NoAssignment g s why := by
      intro why hno
      cases hno with
      | target hmissing => simp [htarget.missing?] at hmissing
      | equals _ hmissing => simp [hequals.missing?] at hmissing
      | expression _ _ hfails => exact expression.not_fails hfails
      | finish _ _ expression' hmissing =>
        obtain ⟨rfl, _⟩ := expression.unique expression'
        simp [hfinish.missing?] at hmissing
    cases hunread with
    | fatal expression' hfatal =>
      rw [expression'.not_fatal htarget hequals] at hfatal
      cases hfatal
    | assignmentFatal _ _ assignment _ | neither _ _ assignment _ => exact hno _ assignment

theorem NoExpression.unique {why why' : SyntaxFailure} (h : NoExpression g s why)
    (h' : NoExpression g s why') : why' = why := by
  cases h with
  | expression expression =>
    cases h' with
    | expression expression' => exact expression.unique expression'
    | finish expression' _ => exact absurd expression expression'.not_fails
  | finish expression hfinish =>
    cases h' with
    | expression expression' => exact absurd expression' expression.not_fails
    | finish expression' hfinish' =>
      obtain ⟨rfl, _⟩ := expression.unique expression'
      rw [Option.some.inj (hfinish'.symm.trans hfinish)]

theorem NoAssignment.unique {why why' : SyntaxFailure} (h : NoAssignment g s why)
    (h' : NoAssignment g s why') : why' = why := by
  cases h with
  | target htarget => cases h' <;> grind [Stands.missing?]
  | equals htarget hequals => cases h' <;> grind [Stands.missing?]
  | expression htarget hequals expression =>
    cases h' with
    | expression _ _ expression' => exact expression.unique expression'
    | finish _ _ expression' _ => exact absurd expression expression'.not_fails
    | _ => grind [Stands.missing?]
  | finish htarget hequals expression hfinish =>
    cases h' with
    | expression _ _ expression' => exact absurd expression' expression.not_fails
    | finish _ _ expression' hfinish' =>
      obtain ⟨rfl, _⟩ := expression.unique expression'
      rw [Option.some.inj (hfinish'.symm.trans hfinish)]
    | _ => grind [Stands.missing?]

theorem Unread.unique {why why' : SyntaxFailure} (h : Unread g s why) (h' : Unread g s why') :
    why' = why := by
  cases h with
  | fatal expression hfatal =>
    cases h' with
    | fatal expression' _ => exact expression.unique expression'
    | assignmentFatal expression' hexpression' _ _ | neither expression' hexpression' _ _ =>
      rw [← expression.unique expression', SyntaxFailure.isFatal_refused, hexpression'] at hfatal
      cases hfatal
  | assignmentFatal expression hexpression assignment hfatal =>
    cases h' with
    | fatal expression' hfatal' =>
      rw [expression.unique expression', SyntaxFailure.isFatal_refused, hexpression] at hfatal'
      cases hfatal'
    | assignmentFatal _ _ assignment' _ => exact assignment.unique assignment'
    | neither _ _ assignment' hassignment' =>
      rw [← assignment.unique assignment', SyntaxFailure.isFatal_refused, hassignment'] at hfatal
      cases hfatal
  | neither expression hexpression assignment hassignment =>
    cases h' with
    | fatal expression' hfatal' =>
      rw [expression.unique expression', SyntaxFailure.isFatal_refused, hexpression] at hfatal'
      cases hfatal'
    | assignmentFatal _ _ assignment' hfatal' =>
      rw [assignment.unique assignment', SyntaxFailure.isFatal_refused, hassignment] at hfatal'
      cases hfatal'
    | neither expression' _ assignment' _ =>
      obtain rfl := Failure.refused.inj (expression.unique expression')
      obtain rfl := Failure.refused.inj (assignment.unique assignment')
      rfl

/-- Behind the equals sign no expression can take the place of the assignment. -/
theorem Unread.of_assignment {target equals : Token} {why : SyntaxFailure}
    (h : NoAssignment g s why) (htarget : Stands s 0 .ident target)
    (hequals : Stands s 1 .equals equals) (hfatal : why.isFatal = true) : Unread g s why := by
  have hexpression :
      NoExpression g s (.refused ⟨equals.span, .mismatched .expression .finish equals.kind⟩) :=
    .finish (Reads.target htarget hequals) (by simp [missing?, hequals.1, hequals.2])
  exact .assignmentFatal hexpression rfl h hfatal

/-- A source text is read as the statement that its items are. -/
theorem parse?_eq_ok_iff {source : List Char} {statement : Statement} :
    Statement.parse? g source = .ok statement ↔
      ReadsWhole g (itemAt (tokenize source)) statement := by
  have houtcome := parse?_outcome g source
  cases hparse : Statement.parse? g source with
  | ok found =>
    rw [hparse] at houtcome
    constructor
    · intro heq
      cases heq
      exact houtcome
    · intro h
      rw [houtcome.unique h]
  | error why =>
    rw [hparse] at houtcome
    constructor
    · intro heq
      cases heq
    · intro h
      exact absurd houtcome h.not_unread

/-- A source text is not read for the reason that its items have. -/
theorem parse?_eq_error_iff {source : List Char} {why : SyntaxFailure} :
    Statement.parse? g source = .error why ↔ Unread g (itemAt (tokenize source)) why := by
  have houtcome := parse?_outcome g source
  cases hparse : Statement.parse? g source with
  | ok statement =>
    rw [hparse] at houtcome
    constructor
    · intro heq
      cases heq
    · intro h
      exact absurd h houtcome.not_unread
  | error found =>
    rw [hparse] at houtcome
    constructor
    · intro heq
      cases heq
      exact houtcome
    · intro h
      rw [houtcome.unique h]

end Abacus.Reading
