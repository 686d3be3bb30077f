import Abacus.Proofs.Evaluation.Result
import Abacus.Proofs.Expr.Uses

/-!
# What an evaluation sees

While a statement is evaluated, a name means what it would mean if everything bound so far were in the
scope already (`entry?_commit`).  Of all the steps of an evaluation only two look at this: the use of a
variable, which binds the next supplied value to a name that means nothing yet
(`run_useVariable_commit`), and the assignment at the end (`run_assign_commit`).  So what holds from
before to after each use of a variable holds from before to after an expression (`relates_evaluate`).
-/

namespace Abacus

/-- A new variable for values of every type. -/
def Variable.fresh (name : String) (value : Value) : Variable := ⟨name, some value, .any, false⟩

/-- Whether a variable can be created depends on its name only. -/
theorem untyped_eq (name : String) (value : Value) :
    Variable.untyped name value =
      if Variable.isName name then .ok (.fresh name value) else .error (.invalidName name) := by
  unfold Variable.untyped Variable.typed Variable.checkName
  split <;> rfl

/-- The session with a variable put into it. -/
def Session.insert (session : Session) (name : String) (v : Variable) : Session :=
  { session with bound := session.bound.insert name v }

variable {scope : Scope}

theorem Scope.entry?_commit (session : Session) (name : String) :
    Scope.entry? (scope.commit session) name = session.bound[name]?.or (scope.entry? name) :=
  Table.getElem?_override ..

theorem Scope.entry?_commit_insert (session : Session) (name asked : String) (v : Variable) :
    Scope.entry? (scope.commit (session.insert name v)) asked =
      if asked = name then some v else Scope.entry? (scope.commit session) asked := by
  rw [entry?_commit, entry?_commit, Session.insert, Std.ExtTreeMap.getElem?_insert]
  by_cases h : asked = name
  · simp [h]
  · simp [h, Ne.symm h]

/-- Two scopes are equal if they have the same functions and the same entries. -/
theorem Scope.ext_entry? {first second : Scope} (hregistry : first.registry = second.registry)
    (hcallables : first.callables = second.callables)
    (hentries : ∀ name, first.entry? name = second.entry? name) : first = second := by
  obtain ⟨registry, vars, callables⟩ := first
  obtain ⟨registry', vars', callables'⟩ := second
  have hvars : vars = vars' := Std.ExtTreeMap.ext_getElem? (fun name => hentries name)
  obtain rfl : registry = registry' := hregistry
  obtain rfl : callables = callables' := hcallables
  rw [hvars]

/-- Where nothing is bound the scope is as it was. -/
theorem Scope.commit_empty (supply : List Value) : scope.commit ⟨∅, supply⟩ = scope := by
  refine Scope.ext_entry? rfl rfl fun name => ?_
  rw [entry?_commit, Std.ExtTreeMap.getElem?_empty]
  rfl

namespace Evaluation

theorem run_lookup?_commit (session : Session) (name : String) :
    (lookup? scope name).run session = .ok (Scope.entry? (scope.commit session) name, session) := by
  rw [Scope.entry?_commit, Option.or_eq_orElse]
  rfl

/-- A variable that has no entry is bound to the next supplied value. -/
theorem run_useVariable_commit (session : Session) (span : Span) (name : String) :
    (useVariable scope span name).run session =
      match Scope.entry? (scope.commit session) name, session.supply with
      | some v, _ => .ok (v.content, session)
      | none, [] => .error ⟨span, .undefinedVariable⟩
      | none, value :: supply =>
        placed span (Variable.untyped name value) >>= fun v =>
          .ok (value, Session.insert ⟨session.bound, supply⟩ name v) := by
  rw [useVariable, StateT.run_bind, run_lookup?_commit]
  cases Scope.entry? (scope.commit session) name with
  | some v => rfl
  | none =>
    obtain ⟨bound, supply⟩ := session
    cases supply with
    | nil => rfl
    | cons value supply =>
      change (located span (Variable.untyped name value) >>= fun v =>
        keep name v >>= fun _ => pure value).run ⟨bound, supply⟩ = _
      rw [(apart_located _ _).run_bind, result_located]
      rfl

/-- Where nothing is supplied a variable without an entry has no value. -/
theorem result_useVariable (scope : Scope) (span : Span) (name : String) :
    (useVariable scope span name).result =
      (scope.entry? name).elim (.error ⟨span, .undefinedVariable⟩) fun v => .ok v.content := by
  rw [result, StateT.run'_eq, run_useVariable]
  cases scope.entry? name <;> rfl

/-- The variable that an assignment writes. -/
def assigned (scope : Scope) (name : String) (value : Value) : Except EvalError Variable :=
  match scope.entry? name with
  | some v => v.setValue value
  | none => Variable.untyped name value

/-- An assignment writes what it would write if everything bound so far were in the scope. -/
theorem run_assign_commit (session : Session) (target : Located String) (value : Value) :
    (assign scope target value).run session =
      placed target.span (assigned (scope.commit session) target.val value) >>= fun v =>
        .ok ((), session.insert target.val v) := by
  rw [assign, StateT.run_bind, run_lookup?_commit, assigned]
  cases Scope.entry? (scope.commit session) target.val with
  | some v =>
    change (located target.span (v.setValue value) >>= keep target.val).run session = _
    rw [(apart_located _ _).run_bind, result_located]
    rfl
  | none =>
    change (located target.span (Variable.untyped target.val value) >>=
      keep target.val).run session = _
    rw [(apart_located _ _).run_bind, result_located]
    rfl

/-! ## What becomes of a session -/

/-- Where the computation succeeds, the sessions before and after it are in the relation. -/
def Relates {α : Type} (R : Session → Session → Prop) (m : Evaluation α) : Prop :=
  ∀ session a session', m.run session = .ok (a, session') → R session session'

section

variable {α β : Type} {R : Session → Session → Prop} (hrefl : ∀ session, R session session)

include hrefl in
/-- A step that leaves sessions alone. -/
theorem Apart.relates {m : Evaluation α} (h : Apart m) : Relates R m := by
  intro session a session' hrun
  rw [h session] at hrun
  cases hresult : m.result with
  | error error =>
    rw [hresult] at hrun
    cases hrun
  | ok b =>
    rw [hresult] at hrun
    obtain ⟨_, rfl⟩ := Prod.mk.inj (Except.ok.inj hrun)
    exact hrefl session

variable (htrans : ∀ first second third, R first second → R second third → R first third)

include htrans in
theorem Relates.bind {m : Evaluation α} {f : α → Evaluation β} (h : Relates R m)
    (hf : ∀ a, Relates R (f a)) : Relates R (m >>= f) := by
  intro session b session'' hrun
  rw [StateT.run_bind] at hrun
  obtain ⟨⟨a, session'⟩, hfirst, hsecond⟩ := eq_ok_of_bind hrun
  exact htrans _ _ _ (h session a session' hfirst) (hf a session' b session'' hsecond)

include hrefl htrans

theorem relates_evaluateAll {args : List Expr}
    (h : ∀ arg ∈ args, ∀ draws, Relates R (arg.evaluate scope draws)) (draws : Draws) :
    Relates R (Expr.evaluateAll scope draws args) := by
  induction args generalizing draws with
  | nil => exact (apart_pure _).relates hrefl
  | cons arg args ih =>
    rw [Expr.evaluateAll]
    have hfirst := h arg List.mem_cons_self
    have hrest := ih fun other hmem => h other (List.mem_cons_of_mem _ hmem)
    exact (hfirst _).bind htrans fun _ => (hrest _).bind htrans fun _ => (apart_pure _).relates hrefl

/-- What every use of a variable makes of a session, all of an expression makes of it. -/
theorem relates_evaluate {expr : Expr}
    (h : ∀ use ∈ expr.uses, Relates R (useVariable scope use.span use.val)) (draws : Draws) :
    Relates R (expr.evaluate scope draws) := by
  induction expr using Expr.induct generalizing draws with
  | number span value =>
    rw [Expr.evaluate]
    exact (apart_pure _).relates hrefl
  | var span name =>
    rw [Expr.evaluate]
    exact h ⟨span, name⟩ (List.mem_singleton_self _)
  | call span name args ih =>
    have hargs : ∀ arg ∈ args, ∀ draws, Relates R (arg.evaluate scope draws) := fun arg harg =>
      ih arg harg fun use hmem => h use (mem_usesAll.mpr ⟨arg, harg, hmem⟩)
    rw [Expr.evaluate]
    split
    · exact (apart_raise _ _).relates hrefl
    · exact (relates_evaluateAll hrefl htrans hargs draws).bind htrans fun _ =>
        (apart_applyCallable _ _ _ _ _).relates hrefl
  | unary span op operand ih =>
    rw [Expr.evaluate_unary]
    exact (ih h _).bind htrans fun value => (apart_applyUnary scope span op value).relates hrefl
  | binary span lhs op rhs ihlhs ihrhs =>
    have hlhs := ihlhs fun use hmem => h use (List.mem_append_left rhs.uses hmem)
    have hrhs := ihrhs fun use hmem => h use (List.mem_append_right lhs.uses hmem)
    rw [Expr.evaluate_binary]
    exact (hlhs _).bind htrans fun x => (hrhs _).bind htrans fun y =>
      (apart_applyBinary scope span op x y).relates hrefl

end

end Evaluation

end Abacus
