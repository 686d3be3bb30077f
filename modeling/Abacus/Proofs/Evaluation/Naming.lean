import Abacus.Proofs.Evaluation.Session
import Abacus.Proofs.Evaluation.Steady
import Abacus.Proofs.Reading.Spans

/-!
# Names in evaluations

A variable is created only under a text that can be a name.  In a statement that was read each name is the
text of an identifier, so an evaluation never refuses one.  But what an operator of the host's own fails
with is not known, and neither is what a function fails with that checks the number of its arguments in its
own way (`errsOnly_evaluateWith`).  The operators of the three families do not look at names, and no check
of an arity does (`evaluateWith_ne_invalidName`).

The main statement is `spans_faithful`.
-/

namespace Abacus

/-- The operator is of one of the three families. -/
inductive Operator.OfFamily : Operator → Prop
  | arithmetical (op : Arithmetical) : OfFamily op.toOperator
  | relational (symbol : String) (test : Ordering → Bool) : OfFamily (relational symbol test)
  | logical (symbol : String) (precedence : UInt64) (isUnary : Bool) (combine : Bool → Bool → Bool) :
      OfFamily (logical symbol precedence isUnary combine)

/-- The error is not that a text cannot be a name. -/
def EvalError.SparesNames : EvalError → Prop
  | .invalidName _ => False
  | _ => True

/-- The function refuses only numbers of arguments that its arity does not accept. -/
def Callable.ChecksArity (callee : Callable) : Prop := callee.checkArity = callee.arity.check

/-- So do the functions of the scope's own. -/
def Scope.ChecksArity (scope : Scope) : Prop :=
  ∀ (name : String) (callee : Callable), scope.callables[name]? = some callee → callee.ChecksArity

/-- An operator of no family fails with the error. -/
def Registry.OperatorFails (registry : Registry) (error : EvalError) : Prop :=
  ∃ symbol operator x y, registry.operator? symbol = some operator ∧ ¬operator.OfFamily ∧
    operator.apply x y = .error error

/-- A function that has a check of its own refuses a number of arguments with the error. -/
def Scope.CheckFails (scope : Scope) (error : EvalError) : Prop :=
  ∃ name callee count, scope.callable? name = some callee ∧ ¬callee.ChecksArity ∧
    callee.checkArity name count = .error error

/-- The error spares names, or a rule of the host's own gives it. -/
def Scope.Excuses (scope : Scope) (error : EvalError) : Prop :=
  error.SparesNames ∨ scope.registry.OperatorFails error ∨ scope.CheckFails error

/-! ## Errors of a kind -/

/-- If there is no value, then the error is such a one. -/
def ErrsOnly {ε α : Type} (P : ε → Prop) (result : Except ε α) : Prop :=
  ∀ error, result = .error error → P error

namespace ErrsOnly

variable {ε α β : Type} {P Q : ε → Prop} {result : Except ε α} {reason : ε}

theorem ok (a : α) : ErrsOnly P (.ok a : Except ε α) := by
  intro error heq
  cases heq

theorem error (h : P reason) : ErrsOnly P (.error reason : Except ε α) := by
  intro found heq
  obtain rfl := Except.error.inj heq
  exact h

theorem bind {f : α → Except ε β} (h : ErrsOnly P result) (hf : ∀ a, ErrsOnly P (f a)) :
    ErrsOnly P (result >>= f) := by
  cases result with
  | ok a => exact hf a
  | error found => exact .error (h found rfl)

theorem mono (h : ErrsOnly P result) (hPQ : ∀ error, P error → Q error) : ErrsOnly Q result :=
  fun found heq => hPQ found (h found heq)

end ErrsOnly

namespace Evaluation

variable {α β : Type} {P Q : EvalError → Prop} {m : Evaluation α}

/-- Where the computation fails, the error is such a one. -/
def FailsOnly (P : EvalError → Prop) (m : Evaluation α) : Prop :=
  ∀ session, ErrsOnly (fun error => P error.val) (m.run session)

theorem FailsOnly.bind {f : α → Evaluation β} (h : FailsOnly P m) (hf : ∀ a, FailsOnly P (f a)) :
    FailsOnly P (m >>= f) := by
  intro session
  rw [StateT.run_bind]
  exact (h session).bind fun pair => hf pair.1 pair.2

theorem FailsOnly.mono (h : FailsOnly P m) (hPQ : ∀ error, P error → Q error) : FailsOnly Q m :=
  fun session => (h session).mono fun error => hPQ error.val

/-- Where sessions do not matter one of them tells all errors. -/
theorem Apart.failsOnly (h : Apart m) (hresult : ErrsOnly (fun error => P error.val) m.result) :
    FailsOnly P m := by
  intro session
  rw [h session]
  exact hresult.bind fun _ => .ok _

theorem failsOnly_pure (a : α) : FailsOnly P (pure a : Evaluation α) := fun _ => .ok _

theorem failsOnly_raise (span : Span) {error : EvalError} (h : P error) :
    FailsOnly P (raise span error : Evaluation α) :=
  fun _ => .error h

theorem errsOnly_placed (span : Span) {rule : Except EvalError α} (h : ErrsOnly P rule) :
    ErrsOnly (fun error => P error.val) (placed span rule) := by
  cases rule with
  | ok a => exact .ok a
  | error error => exact .error (h error rfl)

theorem failsOnly_located (span : Span) {rule : Except EvalError α} (h : ErrsOnly P rule) :
    FailsOnly P (located span rule) :=
  (apart_located span rule).failsOnly (result_located span rule ▸ errsOnly_placed span h)

end Evaluation

/-! ## The families -/

theorem Value.toDecimal?_sparesNames (value : Value) :
    ErrsOnly EvalError.SparesNames value.toDecimal? := by
  unfold toDecimal?
  cases value.toNumeral with
  | number x => exact .ok _
  | missing => exact .ok _
  | notANumber => exact .error trivial

theorem Arithmetical.operand_sparesNames (op : Arithmetical) (value : Value) :
    ErrsOnly EvalError.SparesNames (op.operand value) :=
  value.toDecimal?_sparesNames.bind fun _ => .ok _

/-- No operator of the families looks at names. -/
theorem Operator.OfFamily.sparesNames {operator : Operator} (h : operator.OfFamily) (x y : Value) :
    ErrsOnly EvalError.SparesNames (operator.apply x y) := by
  cases h with
  | arithmetical op =>
    refine (op.operand_sparesNames x).bind fun lhs => (op.operand_sparesNames y).bind fun rhs => ?_
    cases op.compute lhs rhs with
    | ok value => exact .ok _
    | error error => exact .error trivial
  | relational | logical => exact .ok _

theorem Registry.ofFamily_of_standard {settings : Settings} {symbol : String} {operator : Operator}
    (h : (Registry.standard settings).operator? symbol = some operator) : operator.OfFamily := by
  have hmem := mem_standardOperators settings h
  simp only [standardOperators, List.mem_append] at hmem
  rcases hmem with (hmem | hmem) | hmem
  · obtain ⟨op, _, rfl⟩ := List.mem_map.mp hmem
    exact .arithmetical op
  · simp only [Operator.relationals, List.mem_cons, List.not_mem_nil, or_false] at hmem
    rcases hmem with rfl | rfl | rfl | rfl | rfl | rfl <;> exact .relational _ _
  · simp only [Operator.logicals, List.mem_cons, List.not_mem_nil, or_false] at hmem
    rcases hmem with rfl | rfl | rfl <;> exact .logical _ _ _ _

theorem Arity.check_sparesNames (arity : Arity) (name : String) (count : Nat) :
    ErrsOnly EvalError.SparesNames (arity.check name count) := by
  unfold check
  split
  · exact .ok _
  · exact .error trivial

theorem Registry.checksArity_of_standard {settings : Settings} {name : String} {callee : Callable}
    (h : (standard settings).callable? name = some callee) : callee.ChecksArity := by
  have hmem := (callable?_standard_iff settings).mp h
  simp only [standardCallables, List.mem_cons, Prod.mk.injEq, List.not_mem_nil, or_false] at hmem
  rcases hmem with ⟨_, rfl⟩ | ⟨_, rfl⟩ | ⟨_, rfl⟩ | ⟨_, rfl⟩ | ⟨_, rfl⟩ | ⟨_, rfl⟩ | ⟨_, rfl⟩ |
    ⟨_, rfl⟩ | ⟨_, rfl⟩ | ⟨_, rfl⟩ <;> rfl

/-- With the standard registry, and functions of the scope's own that check their arity, every error that is
excused spares names. -/
theorem Scope.Excuses.sparesNames {scope : Scope} {settings : Settings} {error : EvalError}
    (h : scope.Excuses error) (hregistry : scope.registry = .standard settings)
    (hown : scope.ChecksArity) : error.SparesNames := by
  rcases h with h | ⟨symbol, operator, x, y, hoperator, hno, _⟩ | ⟨name, callee, _, hcallee, hno, _⟩
  · exact h
  · rw [hregistry] at hoperator
    exact absurd (Registry.ofFamily_of_standard hoperator) hno
  · rw [callable?_eq, Option.or_eq_some_iff, hregistry] at hcallee
    rcases hcallee with hcallee | ⟨_, hcallee⟩
    · exact absurd (hown name callee hcallee) hno
    · exact absurd (Registry.checksArity_of_standard hcallee) hno

/-! ## The steps of an evaluation -/

namespace Evaluation

variable {scope : Scope}

theorem excuses_apply {symbol : String} {operator : Operator}
    (h : scope.registry.operator? symbol = some operator) (x y : Value) :
    ErrsOnly scope.Excuses (operator.apply x y) := by
  intro error happly
  by_cases hfamily : operator.OfFamily
  · exact .inl (hfamily.sparesNames x y error happly)
  · exact .inr (.inl ⟨symbol, operator, x, y, h, hfamily, happly⟩)

theorem excuses_checkArity {name : String} {callee : Callable} (h : scope.callable? name = some callee)
    (count : Nat) : ErrsOnly scope.Excuses (callee.checkArity name count) := by
  intro error hcheck
  by_cases hchecks : callee.ChecksArity
  · rw [hchecks] at hcheck
    exact .inl (callee.arity.check_sparesNames name count error hcheck)
  · exact .inr (.inr ⟨name, callee, count, h, hchecks, hcheck⟩)

theorem argument_sparesNames (value : Value) : ErrsOnly EvalError.SparesNames (argument value) := by
  refine value.toDecimal?_sparesNames.bind fun number => ?_
  cases number with
  | none => exact .error trivial
  | some x => exact .ok _

theorem arguments_failsOnly (values : List (Located Value)) :
    FailsOnly EvalError.SparesNames (arguments values) := by
  induction values with
  | nil => exact failsOnly_pure _
  | cons value values ih =>
    exact (failsOnly_located _ (argument_sparesNames value.val)).bind fun _ =>
      ih.bind fun _ => failsOnly_pure _

theorem applyCallable_failsOnly {callee : Callable} {name : String}
    (h : scope.callable? name = some callee) (draw : Nat) (span : Span)
    (values : List (Located Value)) :
    FailsOnly scope.Excuses (applyCallable callee draw span name values) := by
  have hrun : ∀ numbers,
      ErrsOnly EvalError.SparesNames ((callee.run draw numbers).mapError .ofCall) := by
    intro numbers
    cases callee.run draw numbers with
    | ok value => exact .ok _
    | error error =>
      refine .error ?_
      cases error <;> trivial
  refine (failsOnly_located _ (excuses_checkArity h values.length)).bind fun _ => ?_
  exact ((arguments_failsOnly values).bind fun numbers => failsOnly_located _ (hrun numbers)).mono
    fun _ => .inl

theorem applyUnary_failsOnly (span : Span) (op : Located UnaryOp) (value : Value) :
    FailsOnly scope.Excuses (applyUnary scope span op value) := by
  refine (apart_applyUnary scope span op value).failsOnly ?_
  rw [result_applyUnary]
  cases hoperator : scope.registry.operator? op.val.symbol with
  | none => exact .error (.inl trivial)
  | some operator =>
    change ErrsOnly _ (if operator.isUnary then _ else _)
    split
    · exact errsOnly_placed span (excuses_apply hoperator .void value)
    · exact .error (.inl trivial)

theorem applyBinary_failsOnly (span : Span) (op : Located BinaryOp) (x y : Value) :
    FailsOnly scope.Excuses (applyBinary scope span op x y) := by
  refine (apart_applyBinary scope span op x y).failsOnly ?_
  rw [result_applyBinary]
  cases hoperator : scope.registry.operator? op.val.symbol with
  | none => exact .error (.inl trivial)
  | some operator => exact errsOnly_placed span (excuses_apply hoperator x y)

/-- A variable that is bound where it is used gets a name that it can have. -/
theorem useVariable_failsOnly {name : String} (hname : Variable.isName name = true) (span : Span) :
    FailsOnly EvalError.SparesNames (useVariable scope span name) := by
  intro session
  rw [run_useVariable_commit]
  split
  · exact .ok _
  · exact .error trivial
  · rw [untyped_eq, if_pos hname]
    exact .ok _

theorem evaluateAll_failsOnly {P : EvalError → Prop} {args : List Expr}
    (h : ∀ arg ∈ args, ∀ draws, FailsOnly P (arg.evaluate scope draws)) (draws : Draws) :
    FailsOnly P (Expr.evaluateAll scope draws args) := by
  induction args generalizing draws with
  | nil => exact failsOnly_pure _
  | cons arg args ih =>
    have hrest := ih fun other hmem => h other (List.mem_cons_of_mem _ hmem)
    rw [Expr.evaluateAll]
    exact (h arg List.mem_cons_self _).bind fun _ => (hrest _).bind fun _ => failsOnly_pure _

end Evaluation

open Evaluation

variable {source : List Char}

/-- An identifier can be the name of a variable. -/
theorem NamedAt.isName {span : Span} {name : String} (h : NamedAt source span name) :
    Variable.isName name = true :=
  ((spelled_tokenize source _ h.token).name rfl).isName

/-- Where all variables are identifiers an evaluation refuses no name. -/
theorem Expr.Faithful.failsOnly {expr : Expr} (h : expr.Faithful source) (scope : Scope)
    (draws : Draws) : FailsOnly scope.Excuses (expr.evaluate scope draws) := by
  induction h generalizing draws with
  | number =>
    rw [Expr.evaluate]
    exact failsOnly_pure _
  | var hname =>
    rw [Expr.evaluate]
    exact (useVariable_failsOnly hname.isName _).mono fun _ => .inl
  | call _ _ _ _ ih =>
    rw [Expr.evaluate]
    split
    · exact failsOnly_raise _ (.inl trivial)
    · rename_i callee hcallee
      exact (evaluateAll_failsOnly ih draws).bind fun values =>
        applyCallable_failsOnly hcallee _ _ values
  | unary _ _ _ _ ih =>
    rw [Expr.evaluate_unary]
    exact (ih _).bind fun value => applyUnary_failsOnly _ _ value
  | binary _ _ _ _ _ ihlhs ihrhs =>
    rw [Expr.evaluate_binary]
    exact (ihlhs _).bind fun x => (ihrhs _).bind fun y => applyBinary_failsOnly _ _ x y

theorem Variable.setValue_sparesNames (target : Variable) (value : Value) :
    ErrsOnly EvalError.SparesNames (target.setValue value) := by
  have htype : ErrsOnly EvalError.SparesNames (checkType target.type value) := by
    unfold checkType
    split
    · exact .ok _
    · exact .error trivial
  unfold setValue
  cases target.isConstant with
  | true => exact .error trivial
  | false => exact htype.bind fun _ => .ok _

theorem Statement.Faithful.failsOnly {statement : Statement} (h : statement.Faithful source)
    (scope : Scope) (draws : Draws) :
    FailsOnly scope.Excuses (statement.evaluate scope draws) := by
  cases h with
  | expression hvalue => exact hvalue.failsOnly scope draws
  | @assignment span target value hspan htarget hparts hvalue =>
    have hassign : ∀ value, FailsOnly EvalError.SparesNames (assign scope target value) := by
      intro value session
      rw [run_assign_commit]
      refine (errsOnly_placed _ ?_).bind fun _ => .ok _
      unfold assigned
      split
      · exact Variable.setValue_sparesNames _ _
      · rw [untyped_eq, if_pos htarget.isName]
        exact .ok _
    exact (hvalue.failsOnly scope draws).bind fun value =>
      ((hassign value).mono fun _ => .inl).bind fun _ => failsOnly_pure _

/-- An evaluation of a statement that was read never fails because of a name, unless a rule of the host's
own makes it. -/
theorem errsOnly_evaluateWith {g : Grammar} {statement : Statement}
    (h : Statement.parse? g source = .ok statement) (scope : Scope) (draws : Draws)
    (supply : List Value) :
    ErrsOnly (fun error => scope.Excuses error.val) (scope.evaluateWith draws statement supply) :=
  ((Reading.faithful_of_parse? h).failsOnly scope draws ⟨∅, supply⟩).bind fun _ => .ok _

/-- With the standard operators and functions, and others that check their arity, no evaluation of a text
fails because of a name. -/
theorem evaluateWith_ne_invalidName {g : Grammar} {statement : Statement}
    (h : Statement.parse? g source = .ok statement) {scope : Scope} {settings : Settings}
    (hregistry : scope.registry = .standard settings)
    (hown : scope.ChecksArity) (draws : Draws) (supply : List Value) (span : Span) (name : String) :
    scope.evaluateWith draws statement supply ≠ .error ⟨span, .invalidName name⟩ := by
  intro herror
  have hexcuses : scope.Excuses (.invalidName name) :=
    errsOnly_evaluateWith h scope draws supply _ herror
  exact hexcuses.sparesNames hregistry hown

/-- The spans in the tree of a text are places in it, and lie within one another as the nodes do.  Spans are
united only in order and within the text, in alternatives that fail too.  Every variable, and every name
in a call or an assignment, is an identifier of the text.  So an evaluation refuses none of them as a
name.  It fails in this way only if an operator of no family does, or the check that a function has of its
own; never with the standard operators and functions. -/
theorem spans_faithful (g : Grammar) (source : List Char) :
    (∀ first last, (first, last) ∈ Reading.unitedSpans g source → Span.Unitable source first last) ∧
      ∀ statement, Statement.parse? g source = .ok statement →
        statement.Faithful source ∧
          (∀ (scope : Scope) (draws : Draws) (supply : List Value) (span : Span) (name : String),
            scope.evaluateWith draws statement supply = .error ⟨span, .invalidName name⟩ →
              scope.registry.OperatorFails (.invalidName name) ∨
                scope.CheckFails (.invalidName name)) ∧
          ∀ (scope : Scope) (settings : Settings), scope.registry = .standard settings →
            scope.ChecksArity → ∀ draws supply span name,
              scope.evaluateWith draws statement supply ≠ .error ⟨span, .invalidName name⟩ := by
  refine ⟨fun _ _ => Reading.unitable_of_united, fun statement hparse =>
    ⟨Reading.faithful_of_parse? hparse, fun scope draws supply span name herror => ?_, ?_⟩⟩
  · rcases errsOnly_evaluateWith hparse scope draws supply _ herror with hspares | hhost
    · exact hspares.elim
    · exact hhost
  · exact fun _ _ hregistry hown => evaluateWith_ne_invalidName hparse hregistry hown

/-- The span of the variable leaves its parentheses out, and so does that of the sum.  No evaluation with the
standard operators refuses a name. -/
theorem spans_faithful_of_parentheses :
    (⟨2, 1, 1⟩, ⟨8, 1, 1⟩) ∈ Reading.unitedSpans .default "((a)) + 2".toList ∧
      Span.Unitable "((a)) + 2".toList ⟨2, 1, 1⟩ ⟨8, 1, 1⟩ ∧
      ∃ statement, Statement.parse? .default "((a)) + 2".toList = .ok statement ∧
        statement.Faithful "((a)) + 2".toList ∧
        ∀ (draws : Draws) (supply : List Value) (span : Span) (name : String),
          (Scope.ofRegistry (.standard .default)).evaluateWith draws statement supply ≠
            .error ⟨span, .invalidName name⟩ := by
  obtain ⟨hunited, hread⟩ := spans_faithful .default "((a)) + 2".toList
  have hspans : Reading.unitedSpans .default "((a)) + 2".toList = [(⟨2, 1, 1⟩, ⟨8, 1, 1⟩)] := by cbv
  have hmem := hspans ▸ List.mem_singleton_self _
  have hparse : Statement.parse? .default "((a)) + 2".toList = .ok (.expression
      (.binary ⟨2, 7, 1⟩ (.var ⟨2, 1, 1⟩ "a") ⟨⟨6, 1, 1⟩, .add⟩ (.number ⟨8, 1, 1⟩ ⟨2, 0⟩))) := by cbv
  obtain ⟨hfaithful, _, hnames⟩ := hread _ hparse
  have hown : (Scope.ofRegistry (.standard .default)).ChecksArity := by
    intro _ _ hcallee
    cases hcallee
  exact ⟨hmem, hunited _ _ hmem, _, hparse, hfaithful, hnames _ .default rfl hown⟩

/-- An operator of the host's own can fail as if a name were refused, and so can the check that a function
makes of its arguments. -/
theorem host_rules_refuse_names :
    Statement.parse? .default "((a)) + 2".toList = .ok (.expression (.binary ⟨2, 7, 1⟩
        (.var ⟨2, 1, 1⟩ "a") ⟨⟨6, 1, 1⟩, .add⟩ (.number ⟨8, 1, 1⟩ ⟨2, 0⟩))) ∧
      (Scope.ofRegistry (Registry.empty.withOperator
          ⟨"+", 5, false, fun _ _ => .error (.invalidName "sum")⟩)).evaluateWith (fun _ => 0)
        (.expression (.binary ⟨2, 7, 1⟩ (.var ⟨2, 1, 1⟩ "a") ⟨⟨6, 1, 1⟩, .add⟩
          (.number ⟨8, 1, 1⟩ ⟨2, 0⟩))) [.bool true] = .error ⟨⟨2, 7, 1⟩, .invalidName "sum"⟩ ∧
      Statement.parse? .default "f()".toList =
        .ok (.expression (.call ⟨0, 3, 1⟩ ⟨⟨0, 1, 1⟩, "f"⟩ [])) ∧
      ((Scope.ofRegistry .empty).withCallable "f"
          { Callable.sum with checkArity := fun name _ => .error (.invalidName name) }).evaluateWith
        (fun _ => 0) (.expression (.call ⟨0, 3, 1⟩ ⟨⟨0, 1, 1⟩, "f"⟩ [])) [] =
        .error ⟨⟨0, 3, 1⟩, .invalidName "f"⟩ :=
  ⟨by cbv, rfl, by cbv, rfl⟩

end Abacus
