import Abacus.Proofs.Evaluation.Result
import Abacus.Proofs.Registry

/-!
# Functions that draw nothing

Of the standard functions only `random` looks at its draw.  An expression that calls no function that
does gives the same with all draws (`Expr.evaluate_eq_of_steady`), and so does a statement.
-/

namespace Abacus

/-- What the function gives does not depend on its draw. -/
def Callable.Steady (callee : Callable) : Prop :=
  ∀ draw draw', callee.run draw = callee.run draw'

/-- What is called by these names draws nothing. -/
def Scope.Steady (scope : Scope) (names : List String) : Prop :=
  ∀ name ∈ names, ∀ callee, scope.callable? name = some callee → callee.Steady

theorem Callable.steady_ofUnary (f : Decimal → Except CallError Value) : (ofUnary f).Steady := by
  intro draw draw'
  funext xs
  rcases xs with _ | ⟨x, _ | ⟨y, xs⟩⟩ <;> rfl

theorem Callable.steady_ofBinary (f : Decimal → Decimal → Except CallError Value) :
    (ofBinary f).Steady := by
  intro draw draw'
  funext xs
  rcases xs with _ | ⟨x, _ | ⟨y, _ | ⟨z, xs⟩⟩⟩ <;> rfl

theorem Callable.steady_round : round.Steady := by
  intro draw draw'
  funext xs
  rcases xs with _ | ⟨x, _ | ⟨y, _ | ⟨z, xs⟩⟩⟩ <;> rfl

/-- Of the standard functions all but `random` draw nothing. -/
theorem Registry.steady_standard {settings : Settings} {name : String} {callee : Callable}
    (h : (standard settings).callable? name = some callee) (hrandom : name ≠ "random") :
    callee.Steady := by
  have hmem := (callable?_standard_iff settings).mp h
  simp only [standardCallables, List.mem_cons, Prod.mk.injEq, List.not_mem_nil, or_false] at hmem
  rcases hmem with ⟨_, rfl⟩ | ⟨_, rfl⟩ | ⟨_, rfl⟩ | ⟨_, rfl⟩ | ⟨_, rfl⟩ | ⟨_, rfl⟩ | ⟨_, rfl⟩ |
    ⟨_, rfl⟩ | ⟨_, rfl⟩ | ⟨hname, _⟩
  · exact Callable.steady_ofUnary _
  · exact Callable.steady_ofBinary _
  · exact Callable.steady_ofBinary _
  · exact fun _ _ => rfl
  · exact Callable.steady_ofUnary _
  · exact Callable.steady_round
  · exact Callable.steady_ofUnary _
  · exact Callable.steady_ofUnary _
  · exact Callable.steady_ofUnary _
  · exact absurd hname hrandom

theorem Callable.Steady.applyCallable {callee : Callable} (h : callee.Steady) (draw draw' : Nat) :
    Evaluation.applyCallable callee draw = Evaluation.applyCallable callee draw' := by
  funext span name values
  unfold Evaluation.applyCallable
  rw [h draw draw']

variable {scope : Scope}

theorem Scope.callable?_eq (scope : Scope) (name : String) :
    scope.callable? name = scope.callables[name]?.or (scope.registry.callable? name) := by
  rw [Option.or_eq_orElse]
  rfl

/-- With the standard registry all names but one draw nothing, as long as no function of the scope's own
does. -/
theorem Scope.steady_of_standard {settings : Settings} (hregistry : scope.registry = .standard settings)
    {names : List String} (h : ∀ name ∈ names, name ≠ "random" ∧
      ∀ callee, scope.callables[name]? = some callee → callee.Steady) : scope.Steady names := by
  intro name hmem callee hcallee
  obtain ⟨hrandom, hown⟩ := h name hmem
  rw [callable?_eq, Option.or_eq_some_iff, hregistry] at hcallee
  rcases hcallee with hcallee | ⟨_, hcallee⟩
  · exact hown callee hcallee
  · exact Registry.steady_standard hcallee hrandom

theorem Scope.Steady.mono {names names' : List String} (h : scope.Steady names)
    (hsubset : names' ⊆ names) : scope.Steady names' :=
  fun name hmem => h name (hsubset hmem)

namespace Expr

theorem called_subset {arg : Expr} {args : List Expr} (h : arg ∈ args) :
    arg.called ⊆ calledAll args :=
  fun _ hmem => mem_calledAll.mpr ⟨arg, h, hmem⟩

theorem evaluateAll_eq_of_steady {args : List Expr}
    (h : ∀ arg ∈ args, ∀ draws draws' : Draws, arg.evaluate scope draws = arg.evaluate scope draws')
    (draws draws' : Draws) : evaluateAll scope draws args = evaluateAll scope draws' args := by
  induction args generalizing draws draws' with
  | nil => rfl
  | cons arg args ih =>
    have hrest := ih fun other hmem => h other (List.mem_cons_of_mem _ hmem)
    rw [evaluateAll, evaluateAll, h arg List.mem_cons_self draws.first draws'.first,
      hrest draws.second draws'.second]

/-- An expression that calls steady functions alone gives the same with all draws. -/
theorem evaluate_eq_of_steady {expr : Expr} (h : scope.Steady expr.called) (draws draws' : Draws) :
    expr.evaluate scope draws = expr.evaluate scope draws' := by
  induction expr using Expr.induct generalizing draws draws' with
  | number span value | var span name => rw [evaluate, evaluate]
  | call span name args ih =>
    have hargs : ∀ arg ∈ args, ∀ draws draws' : Draws,
        arg.evaluate scope draws = arg.evaluate scope draws' := fun arg harg =>
      ih arg harg (h.mono fun n hn => List.mem_cons_of_mem _ (called_subset harg hn))
    cases hcallee : scope.callable? name.val with
    | none => rw [evaluate_call_none hcallee, evaluate_call_none hcallee]
    | some callee =>
      have hsteady := h name.val List.mem_cons_self callee hcallee
      rw [evaluate_call hcallee, evaluate_call hcallee, evaluateAll_eq_of_steady hargs draws draws',
        hsteady.applyCallable draws.own draws'.own]
  | unary span op operand ih =>
    rw [evaluate_unary, evaluate_unary, ih h draws.first draws'.first]
  | binary span lhs op rhs ihlhs ihrhs =>
    rw [evaluate_binary, evaluate_binary,
      ihlhs (h.mono (List.subset_append_left _ _)) draws.first draws'.first,
      ihrhs (h.mono (List.subset_append_right _ _)) draws.second draws'.second]

theorem result_eq_of_steady {expr : Expr} (h : scope.Steady expr.called) (draws draws' : Draws) :
    expr.result scope draws = expr.result scope draws' := by
  rw [result, result, evaluate_eq_of_steady h draws draws']

end Expr

theorem Statement.evaluate_eq_of_steady {statement : Statement} (h : scope.Steady statement.called)
    (draws draws' : Draws) : statement.evaluate scope draws = statement.evaluate scope draws' := by
  cases statement with
  | expression value | assignment span target value =>
    rw [evaluate, evaluate, Expr.evaluate_eq_of_steady h draws draws']

/-- So does a statement. -/
theorem Scope.evaluateWith_eq_of_steady {statement : Statement} (h : scope.Steady statement.called)
    (draws draws' : Draws) (supply : List Value) :
    scope.evaluateWith draws statement supply = scope.evaluateWith draws' statement supply := by
  rw [evaluateWith, evaluateWith, statement.evaluate_eq_of_steady h draws draws']

end Abacus
