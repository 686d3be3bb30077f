import Abacus.Formula
import Abacus.Proofs.Evaluation.Follows
import Abacus.Proofs.Evaluation.Session
import Abacus.Proofs.Evaluation.Steady
import Abacus.Proofs.Reading.RoundTrip

/-!
# The value of an infix form

An infix form is read as the same tree, with some literals at other scales.  Its operations and
functions follow those of the source, with one exception: how many digits a square root gets
depends on the scale of its argument.  So all values are kept exactly where the square roots are
(`everywhere_keeps_iff`).

The main statement is `evaluate_toInfix`.
-/

namespace Abacus

/-- The standard operators and functions, and no functions of the scope's own. -/
structure Scope.IsStandard (scope : Scope) (settings : Settings) : Prop where
  registry : scope.registry = .standard settings
  callables : scope.callables = ∅

/-- If the two expressions give numbers of one value, these are converted to one binary number. -/
def FloatsAgree (scope : Scope) (expr expr' : Expr) : Prop :=
  ∀ draws x x', expr.Gives scope draws x → expr'.Gives scope draws x' → x.value = x'.value →
    x.toBits = x'.toBits

/-- If the two expressions are square roots of numbers of one value, the roots have one value. -/
def RootsAgree (scope : Scope) (precision : Nat) : Expr → Expr → Prop
  | .call _ name [arg], .call _ name' [arg'] =>
    name.val = "sqrt" → name'.val = "sqrt" → ∀ draws x x', arg.Gives scope draws x →
      arg'.Gives scope draws x' → x.value = x'.value → x.SameRoot precision x'
  | _, _ => True

/-- If the first expression has a value, the second has the same one, unless a scale gets out of
range there. -/
def Keeps (scope : Scope) (expr expr' : Expr) : Prop :=
  ∀ draws, Follows IsOverflow Value.Same (expr.result scope draws) (expr'.result scope draws)

variable {scope : Scope} {settings : Settings}

theorem Scope.IsStandard.callables_eq_none (h : scope.IsStandard settings) (name : String) :
    scope.callables[name]? = none := by
  rw [h.callables]
  exact Std.ExtTreeMap.getElem?_empty

theorem Scope.IsStandard.callable? (h : scope.IsStandard settings) (name : String) :
    scope.callable? name = (Registry.standard settings).callable? name := by
  rw [Scope.callable?_eq, h.callables_eq_none, h.registry]
  rfl

/-! ## Expressions -/

theorem Keeps.twins {expr expr' : Expr} (h : Keeps scope expr expr')
    (hfloats : FloatsAgree scope expr expr') (draws : Draws) :
    Follows IsOverflow Value.Twins (expr.result scope draws) (expr'.result scope draws) :=
  (h draws).mono fun v v' hv hv' hsame => ⟨hsame, fun x x' hx hx' =>
    hfloats draws x x' ⟨v, hv, hx⟩ ⟨v', hv', hx'⟩ (hsame.value_eq hx hx')⟩

theorem keeps_number {x x' : Decimal} (h : x.value = x'.value) (span span' : Span) :
    Keeps scope (.number span x) (.number span' x') := by
  intro draws
  rw [Expr.result_number, Expr.result_number]
  exact .ok h

theorem keeps_var (span span' : Span) (name : String) :
    Keeps scope (.var span name) (.var span' name) := by
  intro draws
  rw [Expr.result_var, Expr.result_var]
  cases scope.entry? name with
  | none => exact .error _
  | some v => exact .ok (.refl _)

theorem keeps_unary (hstandard : scope.IsStandard settings) {span span' : Span}
    {op op' : Located UnaryOp} {operand operand' : Expr} (hop : op.val = op'.val)
    (h : ∀ draws, Follows IsOverflow Value.Twins (operand.result scope draws)
      (operand'.result scope draws)) :
    Keeps scope (.unary span op operand) (.unary span' op' operand') := by
  obtain ⟨rule, hrule, hunary⟩ := Registry.operator?_unary settings op.val
  rw [← hstandard.registry] at hrule
  have hvoid : Value.void.Twins .void := ⟨rfl, fun _ _ hx => by cases hx⟩
  intro draws
  rw [Expr.result_unary hrule hunary, Expr.result_unary (hop ▸ hrule) hunary]
  exact (h _).bind fun v v' _ _ hv => (apply_follows settings rule hvoid hv).placed _ _

theorem keeps_binary (hstandard : scope.IsStandard settings) {span span' : Span}
    {lhs lhs' rhs rhs' : Expr} {op op' : Located BinaryOp} (hop : op.val = op'.val)
    (hlhs : ∀ draws, Follows IsOverflow Value.Twins (lhs.result scope draws)
      (lhs'.result scope draws))
    (hrhs : ∀ draws, Follows IsOverflow Value.Twins (rhs.result scope draws)
      (rhs'.result scope draws)) :
    Keeps scope (.binary span lhs op rhs) (.binary span' lhs' op' rhs') := by
  have hrule := Registry.operator?_binary settings op.val
  rw [← hstandard.registry] at hrule
  have hrule' : scope.registry.operator? op'.val.symbol =
      some (Registry.standardOperation settings op.val).toOperator := hop ▸ hrule
  intro draws
  rw [Expr.result_binary hrule, Expr.result_binary hrule']
  exact (hlhs _).bind fun x x' _ _ hx => (hrhs _).bind fun y y' _ _ hy =>
    (apply_follows settings op.val hx hy).placed _ _

theorem keeps_call (hstandard : scope.IsStandard settings) {span span' : Span}
    {name name' : Located String} {args args' : List Expr} (hname : name.val = name'.val)
    (hrandom : name.val ≠ "random")
    (hroots : RootsAgree scope settings.precision (.call span name args) (.call span' name' args'))
    (h : List.Forall₂ (fun arg arg' => ∀ draws,
      Follows IsOverflow Value.Twins (arg.result scope draws) (arg'.result scope draws)) args args') :
    Keeps scope (.call span name args) (.call span' name' args') := by
  intro draws
  cases hcallee : scope.callable? name.val with
  | none =>
    rw [Expr.result_call_none hcallee]
    exact .error _
  | some callee =>
    rw [Expr.result_call hcallee, Expr.result_call (hname ▸ hcallee), ← hname]
    refine (results_follow h draws).bind fun values values' hvalues hvalues' htwins => ?_
    refine applyCallable_follows (· = .arithmetic .scaleOverflow) htwins.length_eq
      (arguments_follow (fun _ _ => argument_follows) htwins) ?_ _ _ _
    intro xs xs' hxs hxs' hnumbers
    have hrun : RunsAlike callee draws.own xs xs' := by
      rw [hstandard.callable?] at hcallee
      refine run_follows settings hcallee hrandom hnumbers ?_
      rintro hsqrt x x' rfl rfl
      obtain ⟨arg, rfl, harg⟩ := Expr.gives_of_arguments hvalues hxs
      obtain ⟨arg', rfl, harg'⟩ := Expr.gives_of_arguments hvalues' hxs'
      cases hnumbers with
      | cons hx _ => exact hroots hsqrt (hname ▸ hsqrt) draws.first x x' harg harg' hx.1
    exact hrun.mapError fun error herror => by rw [herror]; rfl

/-- The law at all places of two expressions, one of which is the other at other scales. -/
theorem everywhere_keeps (hstandard : scope.IsStandard settings) {expr expr' : Expr}
    (halike : expr.Alike (fun x x' => x.value = x'.value) expr') (hrandom : "random" ∉ expr.called)
    (hfloats : expr.Everywhere (FloatsAgree scope) expr')
    (hroots : expr.Everywhere (RootsAgree scope settings.precision) expr') :
    expr.Everywhere (Keeps scope) expr' := by
  revert hrandom hfloats hroots
  refine Expr.Alike.induction (motive := fun expr expr' => "random" ∉ expr.called →
    expr.Everywhere (FloatsAgree scope) expr' →
    expr.Everywhere (RootsAgree scope settings.precision) expr' →
    expr.Everywhere (Keeps scope) expr') ?number ?var ?call ?unary ?binary halike
  case number => exact fun span span' x x' hvalue _ _ _ => keeps_number hvalue span span'
  case var => exact fun span span' name _ _ _ => keeps_var span span' name
  case call =>
    intro span span' name name' args args' hname _ ih hrandom hfloats hroots
    rw [Expr.called, List.mem_cons, not_or, mem_calledAll] at hrandom
    have hargs : List.Forall₂ (Expr.Everywhere (Keeps scope)) args args' := by
      have hnot : ∀ arg ∈ args, "random" ∉ arg.called :=
        fun arg hmem hcalled => hrandom.2 ⟨arg, hmem, hcalled⟩
      have hih := (List.forall₂_and_left args args').mpr ⟨hnot, ih⟩
      refine List.Forall₂.mp ?_ hih (List.Forall₂.mp (fun _ _ => And.intro)
        (everywhereOf_iff.mp hfloats.2) (everywhereOf_iff.mp hroots.2))
      exact fun arg arg' hih heverywhere => hih.2 hih.1 heverywhere.1 heverywhere.2
    refine ⟨keeps_call hstandard hname (Ne.symm hrandom.1) hroots.1 ?_, everywhereOf_iff.mpr hargs⟩
    exact List.Forall₂.mp (fun _ _ hkeeps hfloats => hkeeps.here.twins hfloats.here) hargs
      (everywhereOf_iff.mp hfloats.2)
  case unary =>
    intro span span' op op' operand operand' hop _ ih hrandom hfloats hroots
    have hoperand := ih hrandom hfloats.2 hroots.2
    exact ⟨keeps_unary hstandard hop (hoperand.here.twins hfloats.2.here), hoperand⟩
  case binary =>
    intro span span' lhs lhs' op op' rhs rhs' hop _ _ ihlhs ihrhs hrandom hfloats hroots
    rw [Expr.called, List.mem_append, not_or] at hrandom
    have hlhs := ihlhs hrandom.1 hfloats.2.1 hroots.2.1
    have hrhs := ihrhs hrandom.2 hfloats.2.2 hroots.2.2
    exact ⟨keeps_binary hstandard hop (hlhs.here.twins hfloats.2.1.here)
      (hrhs.here.twins hfloats.2.2.here), hlhs, hrhs⟩

/-! ## Square roots -/

theorem Scope.IsStandard.sqrt? (hstandard : scope.IsStandard settings) :
    scope.callable? "sqrt" = some (.sqrt settings.precision) := by
  rw [hstandard.callable?, Registry.callable?_standard_iff]
  simp [Registry.standardCallables]

theorem result_sqrt (hstandard : scope.IsStandard settings) {span : Span} {name : Located String}
    {arg : Expr} {draws : Draws} {x : Decimal} (hname : name.val = "sqrt")
    (hx : arg.Gives scope draws.first x) :
    (Expr.call span name [arg]).result scope draws = .ok (rootValue settings.precision x) := by
  obtain ⟨v, hv, hx⟩ := hx
  have hcallee : scope.callable? name.val = some (.sqrt settings.precision) :=
    hname ▸ hstandard.sqrt?
  have harg : Evaluation.placed arg.span (Evaluation.argument v) = .ok x :=
    Evaluation.mapError_eq_ok_iff.mpr (Evaluation.argument_eq_ok_iff.mpr hx)
  rw [Expr.result_call hcallee, Expr.results_cons, hv]
  change (Evaluation.applyCallable _ draws.own span name.val [⟨arg.span, v⟩]).result = _
  rw [Evaluation.result_applyCallable, Evaluation.result_arguments_cons, harg]
  rfl

/-- Where the values are kept the roots are. -/
theorem Keeps.roots (hstandard : scope.IsStandard settings) {expr expr' : Expr}
    (h : Keeps scope expr expr') : RootsAgree scope settings.precision expr expr' := by
  unfold RootsAgree
  split
  · rename_i span name arg span' name' arg'
    intro hname hname' draws x x' hx hx' hvalue
    -- the roots are to be evaluated with draws that leave these to their arguments
    obtain ⟨whole, rfl⟩ := draws.exists_first
    rcases h _ _ (result_sqrt hstandard hname hx) with ⟨v', hv', hsame⟩ | ⟨error, herror, _⟩
    · rw [result_sqrt hstandard hname' hx'] at hv'
      rw [← Except.ok.inj hv'] at hsame
      exact same_rootValue_iff.mp hsame
    · rw [result_sqrt hstandard hname' hx'] at herror
      cases herror
  · trivial

/-- The values are kept at all places exactly where all roots are. -/
theorem everywhere_keeps_iff (hstandard : scope.IsStandard settings) {expr expr' : Expr}
    (halike : expr.Alike (fun x x' => x.value = x'.value) expr') (hrandom : "random" ∉ expr.called)
    (hfloats : expr.Everywhere (FloatsAgree scope) expr') :
    expr.Everywhere (Keeps scope) expr' ↔
      expr.Everywhere (RootsAgree scope settings.precision) expr' := by
  constructor
  · exact fun h => h.mono fun _ _ hkeeps => hkeeps.roots hstandard
  · exact everywhere_keeps hstandard halike hrandom hfloats

/-! ## Statements -/

/-- Values of one kind are assigned alike. -/
theorem assigned_follows (name : String) {v v' : Value} (h : v.Same v') :
    Follows (· = .arithmetic .scaleOverflow) (fun _ _ => True) (Evaluation.assigned scope name v)
      (Evaluation.assigned scope name v') := by
  have htype : v.type = v'.type := by
    rcases h.cases with rfl | ⟨x, x', rfl, rfl, _⟩ <;> rfl
  unfold Evaluation.assigned
  cases scope.entry? name with
  | some target =>
    intro result hresult
    obtain ⟨hconstant, haccepts, _⟩ := Variable.setValue_eq_ok_iff.mp hresult
    exact .inl ⟨_, Variable.setValue_eq_ok_iff.mpr ⟨hconstant, htype ▸ haccepts, rfl⟩, trivial⟩
  | none =>
    by_cases hname : Variable.isName name
    · simp only [untyped_eq, hname, if_true]
      exact .ok trivial
    · simp only [untyped_eq, hname]
      exact .error _

theorem assign_follows {target target' : Located String} (htarget : target.val = target'.val)
    {v v' : Value} (h : v.Same v') :
    Follows IsOverflow (fun _ _ => True) ((Evaluation.assign scope target v).run .start)
      ((Evaluation.assign scope target' v').run .start) := by
  have hstart : scope.commit .start = scope := Scope.commit_empty []
  rw [Evaluation.run_assign_commit, Evaluation.run_assign_commit, hstart, ← htarget]
  exact ((assigned_follows target.val h).placed _ _).bind fun _ _ _ _ _ => .ok trivial

/-- Statements follow one another if their values do. -/
theorem statement_follows {statement statement' : Statement}
    (halike : statement.Alike (fun x x' => x.value = x'.value) statement')
    (hkeeps : statement.Everywhere (Keeps scope) statement') (draws : Draws) :
    Follows IsOverflow (fun first second => first.1.Same second.1)
      ((statement.evaluate scope draws).run .start)
      ((statement'.evaluate scope draws).run .start) := by
  obtain ⟨value, value', rfl, rfl, _⟩ |
    ⟨_, target, value, _, target', value', rfl, rfl, htarget, _⟩ := halike.cases
  · have hvalue : Keeps scope value value' := Expr.Everywhere.here hkeeps
    have hrun := settled_evaluate scope draws value
    have hrun' := settled_evaluate scope draws value'
    rw [Evaluation.Settled] at hrun hrun'
    rw [Statement.evaluate, Statement.evaluate, hrun, hrun']
    exact (hvalue draws).map fun v v' hsame => hsame
  · have hvalue : Keeps scope value value' := Expr.Everywhere.here hkeeps
    rw [Statement.evaluate, Statement.evaluate, (settled_evaluate scope draws value).run_bind,
      (settled_evaluate scope draws value').run_bind]
    refine (hvalue draws).bind fun v v' _ _ hsame => ?_
    rw [StateT.run_bind, StateT.run_bind]
    exact (assign_follows htarget hsame).bind fun _ _ _ _ _ => .ok hsame

/-! ## Formulas -/

/-- A scale got out of range at some place of a source text. -/
def IsOverflowReport (failure : Failure Report) : Prop :=
  ∃ source span, failure = .refused (.ofEval source ⟨span, .arithmetic .scaleOverflow⟩)

theorem statement_keeps_iff (hstandard : scope.IsStandard settings)
    {statement statement' : Statement}
    (halike : statement.Alike (fun x x' => x.value = x'.value) statement')
    (hrandom : "random" ∉ statement.called)
    (hfloats : statement.Everywhere (FloatsAgree scope) statement') :
    statement.Everywhere (Keeps scope) statement' ↔
      statement.Everywhere (RootsAgree scope settings.precision) statement' := by
  obtain ⟨value, value', rfl, rfl, hvalue⟩ | ⟨_, _, value, _, _, value', rfl, rfl, _, hvalue⟩ :=
    halike.cases
  · exact everywhere_keeps_iff hstandard hvalue hrandom hfloats
  · exact everywhere_keeps_iff hstandard hvalue hrandom hfloats

/-- Formulas in one scope follow one another if their statements do. -/
theorem formula_follows {formula formula' : Formula} {statement statement' : Statement}
    (hstatement : formula.statement = .ok statement)
    (hstatement' : formula'.statement = .ok statement') (hscope : formula.scope = formula'.scope)
    (hsteady : formula.scope.Steady statement.called) {draws draws' : Draws}
    (h : Follows IsOverflow (fun first second => first.1.Same second.1)
      ((statement.evaluate formula.scope draws').run .start)
      ((statement'.evaluate formula.scope draws').run .start)) :
    Follows IsOverflowReport (fun first second => first.1.Same second.1) (formula.evaluate draws)
      (formula'.evaluate draws') := by
  have hscoped : Follows IsOverflow (fun first second => first.1.Same second.1)
      (formula.scope.evaluateWith draws statement [])
      (formula.scope.evaluateWith draws' statement' []) := by
    rw [Scope.evaluateWith_eq_of_steady hsteady draws draws']
    exact h.bind fun _ _ _ _ hsame => .ok hsame
  have hreported : Follows IsOverflowReport (fun first second => first.1.Same second.1)
      ((formula.scope.evaluateWith draws statement []).mapError fun error =>
        Failure.refused (.ofEval formula.source.toList error))
      ((formula.scope.evaluateWith draws' statement' []).mapError fun error =>
        Failure.refused (.ofEval formula'.source.toList error)) := by
    refine hscoped.mapError ?_
    intro error herror
    refine ⟨_, error.span, congrArg _ (congrArg _ ?_)⟩
    rw [← herror]
  rw [Formula.evaluate, Formula.evaluate, Formula.evaluateWith, Formula.evaluateWith, hstatement,
    hstatement', ← hscope]
  exact hreported.bind fun _ _ _ _ hsame => .ok hsame

theorem Scope.IsStandard.steady (hstandard : scope.IsStandard settings) {names : List String}
    (hrandom : "random" ∉ names) : scope.Steady names := by
  refine steady_of_standard hstandard.registry fun name hname => ⟨?_, fun callee hcallee => ?_⟩
  · exact fun heq => hrandom (heq ▸ hname)
  · rw [hstandard.callables_eq_none] at hcallee
    cases hcallee

/-- The infix form keeps the value of a formula, and of all expressions in it, where it keeps the
square roots in it; and only there does it keep all these values. -/
theorem evaluate_toInfix {formula : Formula} {settings : Settings} {statement : Statement}
    (hstandard : formula.scope.IsStandard settings) (hstatement : formula.statement = .ok statement)
    (hrandom : "random" ∉ statement.called) :
    ∃ text statement', formula.toInfix = .ok text ∧
      (Formula.mk text formula.scope).statement = .ok statement' ∧
      (statement.Everywhere (FloatsAgree formula.scope) statement' →
        (statement.Everywhere (Keeps formula.scope) statement' ↔
          statement.Everywhere (RootsAgree formula.scope settings.precision) statement') ∧
        (statement.Everywhere (RootsAgree formula.scope settings.precision) statement' →
          ∀ draws draws', Follows IsOverflowReport (fun first second => first.1.Same second.1)
            (formula.evaluate draws) ((Formula.mk text formula.scope).evaluate draws'))) := by
  have hparse := Evaluation.mapError_eq_ok_iff.mp hstatement
  have hsafe : Reading.Safe formula.scope.registry.grammar (Reading.statementOperations statement) := by
    rw [hstandard.registry]
    exact fun op _ => Reading.not_atTop_standard settings op
  obtain ⟨statement', hparse', hboth⟩ := Reading.exists_parse?_infixForm hparse hsafe
  have halike : statement.Alike (fun x x' => x.value = x'.value) statement' :=
    hboth.mono fun _ _ h => h.1
  have hstatement' : (Formula.mk statement.toInfix formula.scope).statement = .ok statement' := by
    rw [Formula.statement, hparse']
    rfl
  refine ⟨statement.toInfix, statement', ?_, hstatement', ?_⟩
  · rw [Formula.toInfix, hstatement]
    rfl
  · intro hfloats
    have hiff := statement_keeps_iff hstandard halike hrandom hfloats
    refine ⟨hiff, fun hroots draws draws' => ?_⟩
    exact formula_follows hstatement hstatement' rfl (hstandard.steady hrandom)
      (statement_follows halike (hiff.mpr hroots) draws')

theorem FloatsAgree.of_numbers {expr expr' : Expr} {x x' : Decimal}
    (h : ∀ draws, expr.result scope draws = .ok (.number x))
    (h' : ∀ draws, expr'.result scope draws = .ok (.number x'))
    (hbits : x.toBits = x'.toBits) : FloatsAgree scope expr expr' := by
  intro draws y y' hgives hgives' _
  obtain ⟨v, hv, hy⟩ := hgives
  obtain ⟨v', hv', hy'⟩ := hgives'
  obtain rfl := Except.ok.inj ((h draws).symm.trans hv)
  obtain rfl := Except.ok.inj ((h' draws).symm.trans hv')
  rw [← Option.some.inj (Except.ok.inj hy), ← Option.some.inj (Except.ok.inj hy'), hbits]

/-- The root of a hundred is the same in both writings, with whatever draws. -/
theorem evaluate_toInfix_of_exponent :
    ∃ statement statement', (Formula.ofSource "sqrt(1e2)").statement = .ok statement ∧
      (Formula.ofSource "sqrt(100)").statement = .ok statement' ∧
      statement.Everywhere (Keeps (Formula.ofSource "sqrt(1e2)").scope) statement' ∧
      ∀ draws draws', Follows IsOverflowReport (fun first second => first.1.Same second.1)
        ((Formula.ofSource "sqrt(1e2)").evaluate draws)
        ((Formula.ofSource "sqrt(100)").evaluate draws') := by
  have hstandard : (Formula.ofSource "sqrt(1e2)").scope.IsStandard .default := ⟨rfl, rfl⟩
  have hstatement : (Formula.ofSource "sqrt(1e2)").statement = .ok (.expression (.call ⟨0, 9, 1⟩
      ⟨⟨0, 4, 1⟩, "sqrt"⟩ [.number ⟨5, 3, 1⟩ ⟨1, -2⟩])) := by cbv
  have hinfix : (Formula.ofSource "sqrt(100)").statement = .ok (.expression (.call ⟨0, 9, 1⟩
      ⟨⟨0, 4, 1⟩, "sqrt"⟩ [.number ⟨5, 3, 1⟩ ⟨100, 0⟩])) := by cbv
  obtain ⟨text, statement', htext, hstatement', hkeeps⟩ :=
    evaluate_toInfix hstandard hstatement (by decide)
  have htext' : (Formula.ofSource "sqrt(1e2)").toInfix = .ok "sqrt(100)" := by cbv
  obtain rfl := Except.ok.inj (htext.symm.trans htext')
  obtain rfl := Except.ok.inj (hstatement'.symm.trans hinfix)
  have hboth := hkeeps ?floats
  case floats =>
    have hroot : rootValue 16 ⟨1, -2⟩ = .number ⟨10, 0⟩ := by decide +kernel
    have hroot' : rootValue 16 ⟨100, 0⟩ = .number ⟨10, 0⟩ := by decide +kernel
    have hbits : Decimal.toBits ⟨1, -2⟩ = Decimal.toBits ⟨100, 0⟩ := by decide +kernel
    refine And.intro (@FloatsAgree.of_numbers _ _ _ ⟨10, 0⟩ ⟨10, 0⟩ ?_ ?_ rfl)
      (And.intro (.of_numbers (fun _ => rfl) (fun _ => rfl) hbits) trivial)
    · exact fun _ => (result_sqrt hstandard rfl ⟨_, rfl, rfl⟩).trans (congrArg _ hroot)
    · exact fun _ => (result_sqrt hstandard rfl ⟨_, rfl, rfl⟩).trans (congrArg _ hroot')
  have hkept := hboth.1.mpr ?roots
  case roots =>
    -- neither writing of the argument has digits after the point
    refine And.intro ?_ (And.intro trivial trivial)
    intro _ _ draws x x' hgives hgives' hvalue
    obtain ⟨v, hv, hx⟩ := hgives
    obtain ⟨v', hv', hx'⟩ := hgives'
    obtain rfl := Except.ok.inj hv
    obtain rfl := Except.ok.inj hv'
    obtain rfl := Option.some.inj (Except.ok.inj hx)
    obtain rfl := Option.some.inj (Except.ok.inj hx')
    exact Decimal.sameRoot_of_scale hvalue rfl _
  exact ⟨_, _, hstatement, hinfix, hkept, hboth.2 (hboth.1.mp hkept)⟩

/-- With a product in between, the root gets digits for the zeros that its argument was written
with. -/
theorem toInfix_changes_root :
    (Formula.ofSource "sqrt(2e1 * 0.1)").toInfix = .ok "sqrt((20 * 0.1))" ∧
      (evaluate "sqrt(2e1 * 0.1)" (fun _ => 0) []).toOption =
        some (.number ⟨1414213562373095, 15⟩) ∧
      (evaluate "sqrt((20 * 0.1))" (fun _ => 0) []).toOption =
        some (.number ⟨141421356237309504, 17⟩) ∧
      ¬(Value.number ⟨1414213562373095, 15⟩).Same (.number ⟨141421356237309504, 17⟩) := by
  refine ⟨by cbv, by decide +kernel, by decide +kernel, ?_⟩
  rw [Value.Same, Decimal.value, Decimal.value]
  norm_num

end Abacus
