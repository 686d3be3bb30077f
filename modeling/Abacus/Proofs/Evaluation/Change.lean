import Abacus.Proofs.Evaluation.Session

/-!
# What an evaluation changes

Every step of an evaluation leaves the entries that there are as they are, and adds at most the names
of variables that are used, with values from the supply (`gains_evaluate`).  Only the assignment at the
end writes to an entry, and never to a constant.  So the scope after a statement differs from the scope
before it in the assigned variable and in what was bound to supplied values, and a statement that fails
anywhere leaves no trace: `execute_changes`.

A run of statements, some of which may fail, therefore keeps the functions, the constants and the types
of all variables (`persists_executeAll`).
-/

namespace Abacus

/-- The entries of the second session are those of the first and new ones, for names that are used and
had no entry, with supplied values. -/
structure Session.Extends (scope : Scope) (uses : List (Located String))
    (session session' : Session) : Prop where
  supply : ∀ value ∈ session'.supply, value ∈ session.supply
  entries : ∀ name, Scope.entry? (scope.commit session') name = Scope.entry? (scope.commit session) name ∨
    Scope.entry? (scope.commit session) name = none ∧ (∃ use ∈ uses, use.val = name) ∧
      ∃ value ∈ session.supply, Scope.entry? (scope.commit session') name = some (.fresh name value)

/-- Where the computation succeeds, it has done no more than bind some of the names. -/
def Evaluation.Gains {α : Type} (scope : Scope) (uses : List (Located String))
    (m : Evaluation α) : Prop :=
  ∀ session a session', m.run session = .ok (a, session') → session.Extends scope uses session'

variable {scope : Scope} {uses more : List (Located String)}

namespace Session.Extends

variable {session session' session'' : Session}

theorem refl (session : Session) : session.Extends scope uses session :=
  ⟨fun _ h => h, fun _ => .inl rfl⟩

theorem mono (h : session.Extends scope uses session') (hsub : ∀ use ∈ uses, use ∈ more) :
    session.Extends scope more session' := by
  refine ⟨h.supply, fun name => ?_⟩
  rcases h.entries name with hsame | ⟨hnone, ⟨use, hmem, hname⟩, hbound⟩
  · exact .inl hsame
  · exact .inr ⟨hnone, ⟨use, hsub use hmem, hname⟩, hbound⟩

theorem trans (h : session.Extends scope uses session')
    (h' : session'.Extends scope uses session'') : session.Extends scope uses session'' := by
  refine ⟨fun value hmem => h.supply value (h'.supply value hmem), fun name => ?_⟩
  rcases h'.entries name with hsame | ⟨hnone, hused, value, hvalue, hbound⟩
  · rw [hsame]
    exact h.entries name
  · rcases h.entries name with hsame' | ⟨_, _, _, _, hbound'⟩
    · exact .inr ⟨hsame'.symm.trans hnone, hused, value, h.supply value hvalue, hbound⟩
    · rw [hbound'] at hnone
      cases hnone

end Session.Extends

/-! ## Steps -/

namespace Evaluation

variable {α : Type}

theorem Gains.mono {m : Evaluation α} (h : Gains scope uses m) (hsub : ∀ use ∈ uses, use ∈ more) :
    Gains scope more m :=
  fun session a session' hrun => (h session a session' hrun).mono hsub

theorem gains_useVariable (span : Span) (name : String) :
    Gains scope [⟨span, name⟩] (useVariable scope span name) := by
  intro session a session' hrun
  rw [run_useVariable_commit] at hrun
  split at hrun
  · obtain ⟨_, rfl⟩ := Prod.mk.inj (Except.ok.inj hrun)
    exact .refl session
  · cases hrun
  · rename_i value supply hnone hsupply
    obtain ⟨v, hv, hrun⟩ := eq_ok_of_bind hrun
    obtain ⟨_, rfl⟩ := Prod.mk.inj (Except.ok.inj hrun)
    have hv := mapError_eq_ok_iff.mp hv
    rw [untyped_eq] at hv
    split at hv
    · obtain rfl := Except.ok.inj hv
      refine ⟨fun value hmem => ?_, fun asked => ?_⟩
      · rw [hsupply]
        exact List.mem_cons_of_mem _ hmem
      · rw [Scope.entry?_commit_insert]
        by_cases hasked : asked = name
        · rw [if_pos hasked, hasked, hsupply]
          exact .inr ⟨hnone, ⟨_, List.mem_singleton_self _, rfl⟩, value, List.mem_cons_self, rfl⟩
        · rw [if_neg hasked]
          exact .inl rfl
    · cases hv

end Evaluation

open Evaluation

/-! ## Expressions -/

/-- Evaluation binds only variables that are used. -/
theorem gains_evaluate (scope : Scope) (draws : Draws) (expr : Expr) :
    Gains scope expr.uses (expr.evaluate scope draws) := by
  refine relates_evaluate Session.Extends.refl (fun _ _ _ => Session.Extends.trans) ?_ draws
  intro use hmem
  apply (gains_useVariable use.span use.val).mono
  intro other hother
  rwa [List.mem_singleton.mp hother]

/-! ## Statements -/

/-- What a statement that has this value makes of a scope. -/
structure Scope.ChangedBy (before : Scope) (statement : Statement) (supply : List Value)
    (value : Value) (after : Scope) : Prop where
  registry : after.registry = before.registry
  callables : after.callables = before.callables
  /-- Constants are never written. -/
  constants : ∀ name v, before.entry? name = some v → v.isConstant = true →
    after.entry? name = some v
  /-- The target has the value of the statement, in the variable that it was or in a new one. -/
  assigned : ∀ target, statement.target? = some target → after.entry? target =
    some { (before.entry? target).getD (.fresh target value) with value := some value }
  /-- Another variable is new, is used by the statement, and holds a supplied value. -/
  bound : ∀ name, statement.target? ≠ some name → after.entry? name = before.entry? name ∨
    before.entry? name = none ∧ (∃ use ∈ statement.uses, use.val = name) ∧
      ∃ supplied ∈ supply, after.entry? name = some (.fresh name supplied)

/-- What has only been extended has the old entries. -/
theorem Session.Extends.entry {supply : List Value} {session : Session}
    (h : Session.Extends scope uses ⟨∅, supply⟩ session) {name : String} {v : Variable}
    (hentry : scope.entry? name = some v) : Scope.entry? (scope.commit session) name = some v := by
  rcases h.entries name with hsame | ⟨hnone, _⟩
  · rw [hsame, Scope.commit_empty, hentry]
  · rw [Scope.commit_empty, hentry] at hnone
    cases hnone

theorem Session.Extends.changedBy {supply : List Value} {session : Session} {expr : Expr}
    (h : Session.Extends scope expr.uses ⟨∅, supply⟩ session) (value : Value) :
    scope.ChangedBy (.expression expr) supply value (scope.commit session) where
  registry := rfl
  callables := rfl
  constants _ _ hentry _ := h.entry hentry
  assigned _ htarget := by cases htarget
  bound name _ := by
    have hentries := h.entries name
    rwa [Scope.commit_empty] at hentries

/-- What an assignment makes of the target. -/
theorem assigned_eq_ok {supply : List Value} {session : Session} {target : String} {value : Value}
    {v : Variable} (h : Session.Extends scope uses ⟨∅, supply⟩ session)
    (hassigned : Evaluation.assigned (scope.commit session) target value = .ok v) :
    v = { (scope.entry? target).getD (.fresh target value) with value := some value } ∧
      ∀ w, scope.entry? target = some w → w.isConstant = false := by
  rw [Evaluation.assigned] at hassigned
  split at hassigned
  · rename_i w hw
    obtain ⟨hconstant, _, rfl⟩ := Variable.setValue_eq_ok_iff.mp hassigned
    rcases h.entries target with hsame | ⟨hnone, _, supplied, _, hbound⟩
    · rw [Scope.commit_empty, hw] at hsame
      rw [← hsame]
      refine ⟨rfl, fun w' hw' => ?_⟩
      obtain rfl := Option.some.inj hw'
      exact hconstant
    · obtain rfl := Option.some.inj (hw.symm.trans hbound)
      rw [Scope.commit_empty] at hnone
      rw [hnone]
      exact ⟨rfl, fun w' hw' => by cases hw'⟩
  · rename_i hnone
    have hbefore : scope.entry? target = none := by
      rw [Option.eq_none_iff_forall_ne_some]
      intro w hw
      rw [h.entry hw] at hnone
      cases hnone
    rw [untyped_eq] at hassigned
    split at hassigned
    · obtain rfl := Except.ok.inj hassigned
      rw [hbefore]
      exact ⟨rfl, fun w hw => by cases hw⟩
    · cases hassigned

theorem Session.Extends.changedBy_assignment {supply : List Value} {session : Session}
    {span : Span} {target : Located String} {expr : Expr} {value : Value} {v : Variable}
    (h : Session.Extends scope expr.uses ⟨∅, supply⟩ session)
    (hassigned : Evaluation.assigned (scope.commit session) target.val value = .ok v) :
    scope.ChangedBy (.assignment span target expr) supply value
      (scope.commit (session.insert target.val v)) where
  registry := rfl
  callables := rfl
  constants name w hw hconstant := by
    rw [Scope.entry?_commit_insert]
    by_cases hname : name = target.val
    · rw [hname] at hw
      rw [(assigned_eq_ok h hassigned).2 w hw] at hconstant
      cases hconstant
    · rw [if_neg hname]
      exact h.entry hw
  assigned name hname := by
    obtain rfl := Option.some.inj hname
    rw [Scope.entry?_commit_insert, if_pos rfl, (assigned_eq_ok h hassigned).1]
  bound name hname := by
    have hne : name ≠ target.val := fun heq => hname (congrArg some heq.symm)
    have hentries := h.entries name
    rw [Scope.entry?_commit_insert, if_neg hne]
    rwa [Scope.commit_empty] at hentries

/-- A statement that has a value changes the scope in this way only. -/
theorem changedBy_evaluateWith {draws : Draws} {statement : Statement} {supply : List Value}
    {value : Value} {after : Scope}
    (h : scope.evaluateWith draws statement supply = .ok (value, after)) :
    scope.ChangedBy statement supply value after := by
  obtain ⟨⟨result, session⟩, hrun, hresult⟩ := eq_ok_of_bind h
  obtain ⟨rfl, rfl⟩ := Prod.mk.inj (Except.ok.inj hresult)
  cases statement with
  | expression expr => exact (gains_evaluate scope draws expr _ _ _ hrun).changedBy result
  | assignment span target expr =>
    rw [Statement.evaluate, StateT.run_bind] at hrun
    obtain ⟨⟨value, session'⟩, hvalue, hrun⟩ := eq_ok_of_bind hrun
    have hextends := gains_evaluate scope draws expr _ _ _ hvalue
    simp only [StateT.run_bind, run_assign_commit] at hrun
    obtain ⟨⟨_, session''⟩, hassign, hrun⟩ := eq_ok_of_bind hrun
    obtain ⟨rfl, rfl⟩ := Prod.mk.inj (Except.ok.inj hrun)
    obtain ⟨v, hv, hassign⟩ := eq_ok_of_bind hassign
    obtain ⟨_, rfl⟩ := Prod.mk.inj (Except.ok.inj hassign)
    exact hextends.changedBy_assignment (mapError_eq_ok_iff.mp hv)

/-- What comes of a statement: an error and the scope as it was, or a value and its changes. -/
inductive Scope.AllOrNothing (before : Scope) (statement : Statement) (supply : List Value) :
    Except (Located EvalError) Value × Scope → Prop
  | nothing (error : Located EvalError) : AllOrNothing before statement supply (.error error, before)
  | all {value : Value} {after : Scope} (h : before.ChangedBy statement supply value after) :
      AllOrNothing before statement supply (.ok value, after)

/-- A statement that fails leaves the scope as it was.  One that has a value writes it to the variable
that it assigns to, and binds variables without entries to supplied values. -/
theorem execute_changes (scope : Scope) (draws : Draws) (statement : Statement)
    (supply : List Value) :
    scope.AllOrNothing statement supply (scope.execute draws statement supply) := by
  rw [Scope.execute]
  cases h : scope.evaluateWith draws statement supply with
  | error error => exact .nothing error
  | ok result => exact .all (changedBy_evaluateWith h)

/-! ## Runs -/

/-- What no statement takes from a scope: its functions, its variables with their types, and the values
of its constants. -/
structure Scope.Persists (before after : Scope) : Prop where
  registry : after.registry = before.registry
  callables : after.callables = before.callables
  entries : ∀ name v, before.entry? name = some v → ∃ v', after.entry? name = some v' ∧
    v'.type = v.type ∧ v'.isConstant = v.isConstant ∧ (v.isConstant = true → v' = v)

theorem Scope.Persists.refl (scope : Scope) : scope.Persists scope :=
  ⟨rfl, rfl, fun _ v hv => ⟨v, hv, rfl, rfl, fun _ => rfl⟩⟩

theorem Scope.Persists.trans {before between after : Scope} (h : before.Persists between)
    (h' : between.Persists after) : before.Persists after := by
  refine ⟨h'.registry.trans h.registry, h'.callables.trans h.callables, fun name v hv => ?_⟩
  obtain ⟨v', hv', htype, hconstant, hsame⟩ := h.entries name v hv
  obtain ⟨v'', hv'', htype', hconstant', hsame'⟩ := h'.entries name v' hv'
  refine ⟨v'', hv'', htype'.trans htype, hconstant'.trans hconstant, fun hv => ?_⟩
  rw [hsame' (hconstant.trans hv), hsame hv]

theorem Scope.ChangedBy.persists {before after : Scope} {statement : Statement}
    {supply : List Value} {value : Value} (h : before.ChangedBy statement supply value after) :
    before.Persists after := by
  refine ⟨h.registry, h.callables, fun name v hv => ?_⟩
  by_cases htarget : statement.target? = some name
  · have hassigned := h.assigned name htarget
    rw [hv] at hassigned
    refine ⟨_, hassigned, rfl, rfl, fun hconstant => ?_⟩
    exact Option.some.inj (hassigned.symm.trans (h.constants name v hv hconstant))
  · rcases h.bound name htarget with hsame | ⟨hnone, _⟩
    · exact ⟨v, hsame.trans hv, rfl, rfl, fun _ => rfl⟩
    · rw [hnone] at hv
      cases hv

theorem persists_execute (scope : Scope) (draws : Draws) (statement : Statement)
    (supply : List Value) : scope.Persists (scope.execute draws statement supply).2 := by
  rw [Scope.execute]
  cases h : scope.evaluateWith draws statement supply with
  | error error => exact .refl scope
  | ok result => exact (changedBy_evaluateWith h).persists

/-- The scope after statements that were run one after the other, each with its draws and its supplied
values. -/
def Scope.executeAll (scope : Scope) (steps : List (Draws × Statement × List Value)) : Scope :=
  steps.foldl (fun scope (draws, statement, supply) => (scope.execute draws statement supply).2) scope

/-- Whatever statements are run, and whichever of them fail, what persists is still there. -/
theorem persists_executeAll (scope : Scope) (steps : List (Draws × Statement × List Value)) :
    scope.Persists (scope.executeAll steps) := by
  induction steps generalizing scope with
  | nil => exact .refl scope
  | cons step steps ih =>
    have hrest := ih (scope.execute step.1 step.2.1 step.2.2).2
    exact (persists_execute scope step.1 step.2.1 step.2.2).trans hrest

end Abacus
