import Abacus.Proofs.Evaluation.Change
import Abacus.Proofs.Evaluation.Composition

/-!
# Assigning is substituting

After an assignment `x = definition` an expression gives what it gives before with `definition` in the place
of each use of `x`.  An assignment changes the entry of its target and nothing else, and the value that the
target has then is the one that the definition gives in the scope before; so the two evaluations go through
the same steps (`sameOutcome_replace`).  They differ in places only: a definition stands elsewhere than the
use that it takes the place of.

The main statement is `evaluate_assigned`.
-/

namespace Abacus

open Evaluation

namespace Expr

mutual

/-- The expression with a definition in the place of each use of a variable. -/
def replace (name : String) (definition : Expr) : Expr → Expr
  | .number span value => .number span value
  | .var span used => if used = name then definition else .var span used
  | .call span callee args => .call span callee (replaceAll name definition args)
  | .unary span op operand => .unary span op (replace name definition operand)
  | .binary span lhs op rhs =>
    .binary span (replace name definition lhs) op (replace name definition rhs)

/-- The same in several expressions. -/
def replaceAll (name : String) (definition : Expr) : List Expr → List Expr
  | [] => []
  | arg :: args => replace name definition arg :: replaceAll name definition args

end

theorem replaceAll_eq_map (name : String) (definition : Expr) (args : List Expr) :
    replaceAll name definition args = args.map (replace name definition) := by
  induction args with
  | nil => rfl
  | cons arg args ih => rw [replaceAll, ih, List.map_cons]

end Expr

/-! ## Results up to places -/

/-- Both results are related values, or both are the same error, at whatever places. -/
inductive SameOutcome {α β : Type} (same : α → β → Prop) :
    Except (Located EvalError) α → Except (Located EvalError) β → Prop
  | ok {a : α} {b : β} (h : same a b) : SameOutcome same (.ok a) (.ok b)
  | error {error error' : Located EvalError} (h : error.val = error'.val) :
      SameOutcome same (.error error) (.error error')

namespace SameOutcome

variable {α α' β β' : Type} {same : α → β → Prop} {same' : α' → β' → Prop}
  {first : Except (Located EvalError) α} {second : Except (Located EvalError) β}

theorem refl {same : α → α → Prop} (hsame : ∀ a, same a a)
    (result : Except (Located EvalError) α) : SameOutcome same result result := by
  cases result with
  | ok a => exact .ok (hsame a)
  | error error => exact .error rfl

theorem bind {f : α → Except (Located EvalError) α'} {g : β → Except (Located EvalError) β'}
    (h : SameOutcome same first second)
    (hf : ∀ a b, same a b → SameOutcome same' (f a) (g b)) :
    SameOutcome same' (first >>= f) (second >>= g) := by
  cases h with
  | ok h => exact hf _ _ h
  | error h => exact .error h

/-- The result of a rule is the same at all places. -/
theorem placed (span span' : Span) (rule : Except EvalError α) :
    SameOutcome (· = ·) (placed span rule) (placed span' rule) := by
  cases rule with
  | ok a => exact .ok rfl
  | error error => exact .error rfl

end SameOutcome

/-- The values are the same, at whatever places. -/
abbrev SameValues (values values' : List (Located Value)) : Prop :=
  List.Forall₂ (fun value value' => value.val = value'.val) values values'

theorem sameOutcome_arguments {values values' : List (Located Value)}
    (h : SameValues values values') :
    SameOutcome (· = ·) (arguments values).result (arguments values').result := by
  induction h with
  | nil => exact .ok rfl
  | cons hvalue _ ih =>
    rw [result_arguments_cons, result_arguments_cons, hvalue]
    refine (SameOutcome.placed _ _ _).bind fun x x' hx => ih.bind fun xs xs' hxs => ?_
    exact .ok (congrArg₂ List.cons hx hxs)

theorem sameOutcome_applyCallable (callee : Callable) (draw : Nat) (span span' : Span)
    (name : String) {values values' : List (Located Value)} (h : SameValues values values') :
    SameOutcome (· = ·) (applyCallable callee draw span name values).result
      (applyCallable callee draw span' name values').result := by
  rw [result_applyCallable, result_applyCallable, h.length_eq]
  refine (SameOutcome.placed _ _ _).bind fun _ _ _ => (sameOutcome_arguments h).bind ?_
  intro xs xs' hxs
  rw [hxs]
  exact .placed _ _ _

theorem sameOutcome_results {scope scope' : Scope} {args args' : List Expr}
    (h : List.Forall₂ (fun arg arg' => ∀ draws,
      SameOutcome (· = ·) (arg.result scope draws) (arg'.result scope' draws)) args args')
    (draws : Draws) :
    SameOutcome SameValues (Expr.results scope draws args) (Expr.results scope' draws args') := by
  induction h generalizing draws with
  | nil => exact .ok .nil
  | cons harg _ ih =>
    rw [Expr.results_cons, Expr.results_cons]
    refine (harg _).bind fun v v' hv => (ih _).bind fun values values' hvalues => ?_
    exact .ok (.cons hv hvalues)

/-! ## Substitution -/

/-- The second scope differs from the first one in the value of a variable. -/
structure Scope.Assigned (before : Scope) (name : String) (value : Value) (after : Scope) : Prop where
  registry : after.registry = before.registry
  callables : after.callables = before.callables
  others : ∀ other, other ≠ name → after.entry? other = before.entry? other
  target : ∃ v, after.entry? name = some v ∧ v.content = value

/-- An assignment has the value of its expression, and writes it to the target. -/
theorem Scope.evaluate_assignment (scope : Scope) (draws : Draws) (span : Span)
    (target : Located String) (definition : Expr) :
    scope.evaluate draws (.assignment span target definition) =
      definition.result scope draws >>= fun value =>
        placed target.span (assigned scope target.val value) >>= fun v =>
          .ok (value, scope.commit (Session.start.insert target.val v)) := by
  have hrun := (settled_evaluate scope draws definition).run_bind fun value =>
    assign scope target value >>= fun _ => pure value
  rw [evaluate, evaluateWith, Statement.evaluate]
  change (StateT.run _ Session.start >>= _) = _
  rw [hrun]
  change (definition.result scope draws >>= _) >>= _ = _
  cases definition.result scope draws with
  | error error => rfl
  | ok value =>
    have hassign := @run_assign_commit scope Session.start target value
    rw [Session.start, Scope.commit_empty] at hassign
    change ((assign scope target value).run _ >>= _) >>= _ = _
    rw [Session.start, hassign]
    change (placed _ _ >>= _) >>= _ >>= _ = placed _ _ >>= _
    cases placed target.span (assigned scope target.val value) <;> rfl

/-- An assignment that has a value gives it to its target, and changes nothing else. -/
theorem assigned_of_evaluate {scope after : Scope} {draws : Draws} {span : Span}
    {target : Located String} {definition : Expr} {value : Value}
    (h : scope.evaluate draws (.assignment span target definition) = .ok (value, after)) :
    definition.result scope draws = .ok value ∧ scope.Assigned target.val value after := by
  have hchanged := changedBy_evaluateWith h
  constructor
  · rw [Scope.evaluate_assignment] at h
    obtain ⟨found, hfound, h⟩ := eq_ok_of_bind h
    obtain ⟨v, _, h⟩ := eq_ok_of_bind h
    obtain ⟨rfl, _⟩ := Prod.mk.inj (Except.ok.inj h)
    exact hfound
  · refine ⟨hchanged.registry, hchanged.callables, fun other hother => ?_,
      _, hchanged.assigned target.val rfl, rfl⟩
    have hne : Statement.target? (.assignment span target definition) ≠ some other :=
      fun heq => hother (Option.some.inj heq).symm
    rcases hchanged.bound other hne with hsame | ⟨_, _, _, hmem, _⟩
    · exact hsame
    · cases hmem

variable {scope after : Scope} {name : String} {value : Value} {definition : Expr}

/-- An expression gives the same where a variable has a value and where its definition has it. -/
theorem sameOutcome_replace (hassigned : scope.Assigned name value after)
    (hdefinition : ∀ draws, definition.result scope draws = .ok value) (expr : Expr) (draws : Draws) :
    SameOutcome (· = ·) (expr.result after draws)
      ((Expr.replace name definition expr).result scope draws) := by
  induction expr using Expr.induct generalizing draws with
  | number span literal =>
    rw [Expr.replace]
    exact .ok rfl
  | var span used =>
    rw [Expr.replace, Expr.result_var]
    by_cases hused : used = name
    · obtain ⟨v, hv, rfl⟩ := hassigned.target
      rw [if_pos hused, hused, hv, hdefinition]
      exact .ok rfl
    · rw [if_neg hused, hassigned.others used hused, Expr.result_var]
      exact .refl (fun _ => rfl) _
  | call span callee args ih =>
    have hmeaning : after.callable? callee.val = scope.callable? callee.val := by
      rw [Scope.callable?_eq, Scope.callable?_eq, hassigned.registry, hassigned.callables]
    rw [Expr.replace, Expr.replaceAll_eq_map]
    cases hcallee : scope.callable? callee.val with
    | none =>
      rw [Expr.result_call_none (hmeaning.trans hcallee), Expr.result_call_none hcallee]
      exact .error rfl
    | some function =>
      rw [Expr.result_call (hmeaning.trans hcallee), Expr.result_call hcallee]
      have hargs : List.Forall₂ (fun arg arg' => ∀ draws,
          SameOutcome (· = ·) (arg.result after draws) (arg'.result scope draws)) args
            (args.map (Expr.replace name definition)) := by
        rw [List.forall₂_map_right_iff, List.forall₂_same]
        exact ih
      exact (sameOutcome_results hargs draws).bind fun _ _ =>
        sameOutcome_applyCallable function _ _ _ _
  | unary span op operand ih =>
    rw [Expr.replace, Expr.result_unary_eq, Expr.result_unary_eq]
    refine (ih _).bind fun v v' hv => ?_
    rw [hv, result_applyUnary, result_applyUnary, hassigned.registry]
    exact .refl (fun _ => rfl) _
  | binary span lhs op rhs ihlhs ihrhs =>
    rw [Expr.replace, Expr.result_binary_eq, Expr.result_binary_eq]
    refine (ihlhs _).bind fun x x' hx => (ihrhs _).bind fun y y' hy => ?_
    rw [hx, hy, result_applyBinary, result_applyBinary, hassigned.registry]
    exact .refl (fun _ => rfl) _

/-- After an assignment an expression gives the value, or the error, that it gives before with the assigned
expression in the place of each use of the target.  What the assigned expression calls draws nothing; then
the same draws give the same, and any draws do where the expression calls nothing that draws either. -/
theorem evaluate_assigned {draws : Draws} {span : Span} {target : Located String}
    (h : scope.evaluate draws (.assignment span target definition) = .ok (value, after))
    (hsteady : scope.Steady definition.called) (expr : Expr) {draws' draws'' : Draws}
    (hdraws : draws' = draws'' ∨ scope.Steady expr.called) :
    SameOutcome (fun first second => first.1 = second.1) (after.evaluate draws' (.expression expr))
      (scope.evaluate draws'' (.expression (Expr.replace target.val definition expr))) := by
  obtain ⟨hdefinition, hassigned⟩ := assigned_of_evaluate h
  have hdefinition : ∀ draws', definition.result scope draws' = .ok value := fun draws' =>
    (Expr.result_eq_of_steady hsteady draws' draws).trans hdefinition
  have hsame : expr.result after draws' = expr.result after draws'' := by
    rcases hdraws with rfl | hexpr
    · rfl
    · have hafter : after.Steady expr.called := by
        intro name hmem callee hcallee
        rw [Scope.callable?_eq, hassigned.registry, hassigned.callables, ← Scope.callable?_eq]
          at hcallee
        exact hexpr name hmem callee hcallee
      exact Expr.result_eq_of_steady hafter draws' draws''
  rw [Scope.evaluate_expression, Scope.evaluate_expression, hsame]
  exact (sameOutcome_replace hassigned hdefinition expr draws'').bind fun _ _ heq => .ok heq

/-- A variable is assigned a value that depends on the one it has, and used in a call. -/
theorem evaluate_assigned_of_update :
    ∃ scope after span target definition expr,
      scope = (Scope.ofRegistry (.standard .default)).insert (.fresh "x" (.number ⟨2, 0⟩)) ∧
      Statement.parse? .default "x = x + 1.50".toList = .ok (.assignment span target definition) ∧
      Statement.parse? .default "abs(x) * x".toList = .ok (.expression expr) ∧
      (∀ draws, scope.evaluate draws (.assignment span target definition) =
        .ok (.number ⟨350, 2⟩, after)) ∧
      ∀ draws draws',
        SameOutcome (fun first second => first.1 = second.1) (after.evaluate draws (.expression expr))
          (scope.evaluate draws' (.expression (Expr.replace target.val definition expr))) := by
  have hdefinition : Statement.parse? .default "x = x + 1.50".toList =
      .ok (.assignment ⟨0, 12, 1⟩ ⟨⟨0, 1, 1⟩, "x"⟩ (.binary ⟨4, 8, 1⟩ (.var ⟨4, 1, 1⟩ "x")
        ⟨⟨6, 1, 1⟩, .add⟩ (.number ⟨8, 4, 1⟩ ⟨150, 2⟩))) := by cbv
  have hexpr : Statement.parse? .default "abs(x) * x".toList =
      .ok (.expression (.binary ⟨0, 10, 1⟩ (.call ⟨0, 6, 1⟩ ⟨⟨0, 3, 1⟩, "abs"⟩
        [.var ⟨4, 1, 1⟩ "x"]) ⟨⟨7, 1, 1⟩, .mul⟩ (.var ⟨9, 1, 1⟩ "x"))) := by cbv
  obtain ⟨scope, hscope⟩ : ∃ scope, scope =
      (Scope.ofRegistry (.standard .default)).insert (.fresh "x" (.number ⟨2, 0⟩)) := ⟨_, rfl⟩
  have hassign : ∀ draws, scope.evaluate draws (.assignment ⟨0, 12, 1⟩ ⟨⟨0, 1, 1⟩, "x"⟩
      (.binary ⟨4, 8, 1⟩ (.var ⟨4, 1, 1⟩ "x") ⟨⟨6, 1, 1⟩, .add⟩ (.number ⟨8, 4, 1⟩ ⟨150, 2⟩))) =
      .ok (.number ⟨350, 2⟩,
        scope.commit (Session.start.insert "x" (.fresh "x" (.number ⟨350, 2⟩)))) := by
    intro draws
    rw [Scope.evaluate_assignment, hscope]
    rfl
  have hsteady : scope.Steady ["abs"] := by
    rw [hscope]
    refine Scope.steady_of_standard rfl fun name hname => ?_
    obtain rfl := List.mem_singleton.mp hname
    exact ⟨by decide, fun callee hcallee => by cases hcallee⟩
  refine ⟨scope, _, _, _, _, _, hscope, hdefinition, hexpr, hassign, fun draws draws' => ?_⟩
  exact evaluate_assigned (hassign draws) (fun _ hname => by cases hname) _ (.inr hsteady)

end Abacus
