import Abacus.Proofs.Evaluation.Session
import Abacus.Proofs.Evaluation.Steady
import Abacus.Proofs.Reading.Order

/-!
# Supplied values

An evaluation binds a variable at its first use, and whether it comes to that use depends on all the
operations before it.  It makes no difference if all variables are bound beforehand, in the order of
their first use: where one use stays without a value the supply is used up, so nothing is bound after it
either (`entry?_useAll_append`).  Each step of an evaluation is therefore the same step in a scope with
everything bound (`boundFirst_evaluate`).

The main statement is `evaluateWith_eq_evaluate`: supplied values are definitions of the names without
an entry, in the order in which the text has them.
-/

namespace Abacus

/-! ## Binding beforehand -/

/-- The session after the use of a variable. -/
def Session.use (scope : Scope) (session : Session) (name : String) : Session :=
  match Scope.entry? (scope.commit session) name, session.supply with
  | none, value :: supply => Session.insert ⟨session.bound, supply⟩ name (.fresh name value)
  | _, _ => session

/-- The session after the uses of several variables. -/
def Session.useAll (scope : Scope) (session : Session) (uses : List (Located String)) : Session :=
  uses.foldl (fun session use => session.use scope use.val) session

namespace Session

variable {scope : Scope} {session : Session}

theorem use_of_some {name : String} {v : Variable}
    (h : Scope.entry? (scope.commit session) name = some v) : session.use scope name = session := by
  rw [use, h]

theorem use_of_nil (h : session.supply = []) (name : String) : session.use scope name = session := by
  rw [use, h]
  cases Scope.entry? (scope.commit session) name <;> rfl

theorem use_of_none {name : String} {value : Value} {supply : List Value}
    (h : Scope.entry? (scope.commit session) name = none) (hsupply : session.supply = value :: supply) :
    session.use scope name = Session.insert ⟨session.bound, supply⟩ name (.fresh name value) := by
  rw [use, h, hsupply]

theorem useAll_cons (session : Session) (use : Located String) (uses : List (Located String)) :
    session.useAll scope (use :: uses) = (session.use scope use.val).useAll scope uses := rfl

theorem useAll_append (session : Session) (uses more : List (Located String)) :
    session.useAll scope (uses ++ more) = (session.useAll scope uses).useAll scope more :=
  List.foldl_append

theorem useAll_of_nil (h : session.supply = []) (uses : List (Located String)) :
    session.useAll scope uses = session := by
  induction uses with
  | nil => rfl
  | cons use uses ih =>
    rw [useAll_cons, use_of_nil h]
    exact ih

/-- What has an entry keeps it. -/
theorem entry?_use {name asked : String} {v : Variable}
    (h : Scope.entry? (scope.commit session) asked = some v) :
    Scope.entry? (scope.commit (session.use scope name)) asked = some v := by
  cases hname : Scope.entry? (scope.commit session) name with
  | some w => rwa [use_of_some hname]
  | none =>
    cases hsupply : session.supply with
    | nil => rwa [use_of_nil hsupply]
    | cons value supply =>
      have hne : asked ≠ name := by
        intro heq
        rw [heq, hname] at h
        cases h
      rw [use_of_none hname hsupply, Scope.entry?_commit_insert, if_neg hne]
      exact h

theorem entry?_useAll {uses : List (Located String)} {asked : String} {v : Variable}
    (h : Scope.entry? (scope.commit session) asked = some v) :
    Scope.entry? (scope.commit (session.useAll scope uses)) asked = some v := by
  induction uses generalizing session with
  | nil => exact h
  | cons use uses ih => exact ih (entry?_use h)

/-- What has been used has an entry, unless the supply is used up. -/
theorem entry?_use_self (session : Session) (name : String) :
    (∃ v, Scope.entry? (scope.commit (session.use scope name)) name = some v) ∨
      (session.use scope name).supply = [] := by
  cases hname : Scope.entry? (scope.commit session) name with
  | some v =>
    rw [use_of_some hname]
    exact .inl ⟨v, hname⟩
  | none =>
    cases hsupply : session.supply with
    | nil =>
      rw [use_of_nil hsupply]
      exact .inr hsupply
    | cons value supply =>
      rw [use_of_none hname hsupply, Scope.entry?_commit_insert, if_pos rfl]
      exact .inl ⟨_, rfl⟩

theorem entry?_useAll_self {uses : List (Located String)} {use : Located String} (h : use ∈ uses)
    (session : Session) :
    (∃ v, Scope.entry? (scope.commit (session.useAll scope uses)) use.val = some v) ∨
      (session.useAll scope uses).supply = [] := by
  induction uses generalizing session with
  | nil => cases h
  | cons first uses ih =>
    rcases List.mem_cons.mp h with rfl | hmem
    · rw [useAll_cons]
      rcases entry?_use_self session use.val with ⟨v, hv⟩ | hnil
      · exact .inl ⟨v, entry?_useAll hv⟩
      · rw [useAll_of_nil hnil]
        exact .inr hnil
    · exact ih hmem (session.use scope first.val)

/-- Later uses do not change what a name means that has been used. -/
theorem entry?_useAll_append {uses : List (Located String)} {use : Located String}
    (h : use ∈ uses) (session : Session) (more : List (Located String)) :
    Scope.entry? (scope.commit (session.useAll scope uses)) use.val =
      Scope.entry? (scope.commit (session.useAll scope (uses ++ more))) use.val := by
  rw [useAll_append]
  rcases entry?_useAll_self h session with ⟨v, hv⟩ | hnil
  · rw [hv, entry?_useAll hv]
  · rw [useAll_of_nil hnil]

end Session

/-! ## Steps -/

namespace Evaluation

variable {α β : Type} {scope : Scope}

/-- A computation that reads a scope uses these variables and no others: it does what it would do in a
scope where they mean what they mean after all these uses. -/
def BoundFirst (scope : Scope) (uses : List (Located String)) (m : Scope → Evaluation α) : Prop :=
  ∀ session later : Session,
    (∀ use ∈ uses, Scope.entry? (scope.commit (session.useAll scope uses)) use.val =
      Scope.entry? (scope.commit later) use.val) →
    (m scope).run session =
      (fun a => (a, session.useAll scope uses)) <$> (m (scope.commit later)).result

/-- A step that reads only the functions of the scope. -/
theorem Apart.boundFirst {m : Scope → Evaluation α} (h : Apart (m scope))
    (hsame : ∀ session, m (scope.commit session) = m scope) : BoundFirst scope [] m := by
  intro session later _
  rw [h session, hsame]
  rfl

theorem BoundFirst.bind {uses more : List (Located String)} {m : Scope → Evaluation α}
    {f : Scope → α → Evaluation β} (h : BoundFirst scope uses m)
    (hf : ∀ a, BoundFirst scope more fun scope => f scope a) (hsettled : ∀ scope, Settled (m scope)) :
    BoundFirst scope (uses ++ more) fun scope => m scope >>= f scope := by
  intro session later hagree
  have hfirst := h session later fun use hmem =>
    (Session.entry?_useAll_append hmem session more).trans
      (hagree use (List.mem_append_left _ hmem))
  rw [Session.useAll_append] at hagree ⊢
  rw [StateT.run_bind, hfirst, result_bind (hsettled _)]
  cases (m (scope.commit later)).result with
  | error error => rfl
  | ok a => exact hf a _ later fun use hmem => hagree use (List.mem_append_right _ hmem)

/-- After the last use the steps read only the functions of the scope. -/
theorem BoundFirst.bind_apart {uses : List (Located String)} {m : Scope → Evaluation α}
    {f : Scope → α → Evaluation β} (h : BoundFirst scope uses m) (hf : ∀ a, Apart (f scope a))
    (hsame : ∀ session a, f (scope.commit session) a = f scope a)
    (hsettled : ∀ scope, Settled (m scope)) :
    BoundFirst scope uses fun scope => m scope >>= f scope := by
  have hlast : ∀ a, BoundFirst scope [] fun scope => f scope a :=
    fun a => Apart.boundFirst (hf a) fun session => hsame session a
  have hbind := h.bind hlast hsettled
  rwa [List.append_nil] at hbind

theorem boundFirst_useVariable {name : String} (hname : Variable.isName name = true)
    (span : Span) :
    BoundFirst scope [⟨span, name⟩] fun scope => useVariable scope span name := by
  intro session later hagree
  have hlater := hagree ⟨span, name⟩ (List.mem_singleton_self _)
  have huse : session.useAll scope [⟨span, name⟩] = session.use scope name := rfl
  rw [huse] at hlater ⊢
  rw [run_useVariable_commit, result_useVariable, ← hlater]
  cases hentry : Scope.entry? (scope.commit session) name with
  | some v =>
    rw [Session.use_of_some hentry, hentry]
    rfl
  | none =>
    cases hsupply : session.supply with
    | nil =>
      rw [Session.use_of_nil hsupply, hentry]
      rfl
    | cons value supply =>
      rw [Session.use_of_none hentry hsupply, Scope.entry?_commit_insert, if_pos rfl]
      simp only [untyped_eq, hname, if_true]
      rfl

end Evaluation

open Evaluation

/-! ## Expressions -/

variable {scope : Scope}

theorem boundFirst_evaluateAll {args : List Expr}
    (h : ∀ arg ∈ args, (∀ use ∈ arg.uses, Variable.isName use.val = true) → ∀ draws,
      BoundFirst scope arg.uses fun scope => arg.evaluate scope draws)
    (hnames : ∀ use ∈ usesAll args, Variable.isName use.val = true) (draws : Draws) :
    BoundFirst scope (usesAll args) fun scope => Expr.evaluateAll scope draws args := by
  induction args generalizing draws with
  | nil => exact Apart.boundFirst (apart_pure _) fun _ => rfl
  | cons arg args ih =>
    have hfirst := h arg List.mem_cons_self fun use hmem =>
      hnames use (List.mem_append_left (usesAll args) hmem)
    have hrest := ih (fun other hmem => h other (List.mem_cons_of_mem _ hmem)) fun use hmem =>
      hnames use (List.mem_append_right arg.uses hmem)
    refine (hfirst draws.first).bind (fun value => ?_) fun scope => settled_evaluate scope _ arg
    exact (hrest draws.second).bind_apart (fun values => apart_pure _) (fun _ _ => rfl)
      fun scope => Expr.settled_results scope _ args

/-- An expression has the value that it has in a scope where its variables were bound beforehand, or the
error, and leaves the session as they do. -/
theorem boundFirst_evaluate {expr : Expr}
    (hnames : ∀ use ∈ expr.uses, Variable.isName use.val = true) (draws : Draws) :
    BoundFirst scope expr.uses fun scope => expr.evaluate scope draws := by
  induction expr using Expr.induct generalizing draws with
  | number span value =>
    simp only [Expr.evaluate]
    exact fun _ _ _ => rfl
  | var span name =>
    simp only [Expr.evaluate]
    exact boundFirst_useVariable (hnames _ (List.mem_singleton_self _)) span
  | call span name args ih =>
    intro session later hagree
    cases hcallee : scope.callable? name.val with
    | none =>
      have hlater : (scope.commit later).callable? name.val = none := hcallee
      simp only [Expr.evaluate_call_none hcallee, Expr.evaluate_call_none hlater]
      rfl
    | some callee =>
      have hlater : (scope.commit later).callable? name.val = some callee := hcallee
      have hcall : BoundFirst scope (usesAll args) fun scope =>
          Expr.evaluateAll scope draws args >>= applyCallable callee draws.own span name.val :=
        (boundFirst_evaluateAll ih hnames draws).bind_apart
          (apart_applyCallable callee draws.own span name.val) (fun _ _ => rfl)
          fun scope => Expr.settled_results scope draws args
      simp only [Expr.evaluate_call hcallee, Expr.evaluate_call hlater]
      exact hcall session later hagree
  | unary span op operand ih =>
    simp only [Expr.evaluate_unary]
    exact (ih hnames _).bind_apart (apart_applyUnary scope span op) (fun _ _ => rfl)
      fun scope => settled_evaluate scope _ operand
  | binary span lhs op rhs ihlhs ihrhs =>
    simp only [Expr.evaluate_binary]
    have hlhs := ihlhs fun use hmem => hnames use (List.mem_append_left rhs.uses hmem)
    have hrhs := ihrhs fun use hmem => hnames use (List.mem_append_right lhs.uses hmem)
    refine (hlhs _).bind (fun x => ?_) fun scope => settled_evaluate scope _ lhs
    exact (hrhs _).bind_apart (apart_applyBinary scope span op x) (fun _ _ => rfl)
      fun scope => settled_evaluate scope _ rhs

/-- The run of an expression, with its variables bound beforehand. -/
theorem run_evaluate {expr : Expr} (hnames : ∀ use ∈ expr.uses, Variable.isName use.val = true)
    (draws : Draws) (session : Session) :
    (expr.evaluate scope draws).run session =
      (fun value => (value, session.useAll scope expr.uses)) <$>
        expr.result (scope.commit (session.useAll scope expr.uses)) draws :=
  boundFirst_evaluate hnames draws session _ fun _ _ => rfl

/-! ## Statements -/

theorem evaluateWith_expression {expr : Expr}
    (hnames : ∀ use ∈ expr.uses, Variable.isName use.val = true) (scope : Scope) (draws : Draws)
    (supply : List Value) :
    scope.evaluateWith draws (.expression expr) supply =
      expr.result (scope.commit (Session.useAll scope ⟨∅, supply⟩ expr.uses)) draws >>=
        fun value => .ok (value, scope.commit (Session.useAll scope ⟨∅, supply⟩ expr.uses)) := by
  rw [Scope.evaluateWith, Statement.evaluate, run_evaluate hnames]
  cases expr.result _ _ <;> rfl

theorem evaluateWith_assignment {expr : Expr}
    (hnames : ∀ use ∈ expr.uses, Variable.isName use.val = true) (scope : Scope) (draws : Draws)
    (span : Span) (target : Located String) (supply : List Value) :
    scope.evaluateWith draws (.assignment span target expr) supply =
      expr.result (scope.commit (Session.useAll scope ⟨∅, supply⟩ expr.uses)) draws >>= fun value =>
        placed target.span (assigned
          (scope.commit (Session.useAll scope ⟨∅, supply⟩ expr.uses)) target.val value) >>= fun v =>
            .ok (value,
              scope.commit ((Session.useAll scope ⟨∅, supply⟩ expr.uses).insert target.val v)) := by
  rw [Scope.evaluateWith, Statement.evaluate, StateT.run_bind, run_evaluate hnames]
  cases expr.result _ _ with
  | error error => rfl
  | ok value =>
    change ((assign scope target value).run _ >>= fun result =>
      (pure value : Evaluation Value).run result.2) >>= _ = _
    rw [run_assign_commit]
    change (placed _ _ >>= _) >>= _ >>= _ = placed _ _ >>= _
    cases placed target.span (assigned _ target.val value) <;> rfl

/-- What is put into the session last is put into the scope last. -/
theorem Scope.commit_commit_insert (session : Session) (name : String) (v : Variable)
    (supply : List Value) :
    (scope.commit session).commit (Session.insert ⟨∅, supply⟩ name v) =
      scope.commit (session.insert name v) := by
  refine Scope.ext_entry? rfl rfl fun asked => ?_
  rw [entry?_commit_insert, entry?_commit_insert, commit_empty]

/-- A statement has the outcome that it has in the scope with its variables bound. -/
theorem evaluateWith_eq_commit {statement : Statement}
    (hnames : ∀ use ∈ statement.uses, Variable.isName use.val = true) (draws : Draws)
    (supply : List Value) :
    scope.evaluateWith draws statement supply =
      (scope.commit (Session.useAll scope ⟨∅, supply⟩ statement.uses)).evaluate draws statement := by
  have hnothing : ∀ bound : Scope, Session.useAll bound ⟨∅, []⟩ statement.uses = ⟨∅, []⟩ :=
    fun bound => Session.useAll_of_nil rfl statement.uses
  cases statement with
  | expression expr =>
    rw [Statement.uses] at hnames hnothing ⊢
    rw [Scope.evaluate, evaluateWith_expression hnames, evaluateWith_expression hnames, hnothing,
      Scope.commit_empty]
  | assignment span target expr =>
    rw [Statement.uses] at hnames hnothing ⊢
    rw [Scope.evaluate, evaluateWith_assignment hnames, evaluateWith_assignment hnames, hnothing,
      Scope.commit_empty]
    simp only [Scope.commit_commit_insert]

/-! ## Definitions -/

namespace Scope

/-- The scope with variables for values of every type. -/
def defineAll (scope : Scope) (pairs : List (String × Value)) : Except EvalError Scope :=
  pairs.foldlM (fun scope pair => scope.define pair.1 pair.2) scope

/-- The names that are used and have no entry, in the order of their first use. -/
def freeNames (scope : Scope) (uses : List (Located String)) : List String :=
  ((uses.map Located.val).filter fun name => (scope.entry? name).isNone).eraseDups

theorem define_eq_ok {name : String} (h : Variable.isName name = true) (scope : Scope)
    (value : Value) : scope.define name value = .ok (scope.insert (.fresh name value)) := by
  rw [define, untyped_eq, if_pos h]
  rfl

theorem entry?_insert (scope : Scope) (v : Variable) (asked : String) :
    Scope.entry? (scope.insert v) asked = if asked = v.name then some v else scope.entry? asked := by
  rw [Scope.entry?, insert, Std.ExtTreeMap.getElem?_insert]
  by_cases h : asked = v.name
  · simp [h]
  · simp [h, Ne.symm h, entry?]

theorem freeNames_cons_of_some {use : Located String} {v : Variable}
    (h : scope.entry? use.val = some v) (uses : List (Located String)) :
    scope.freeNames (use :: uses) = scope.freeNames uses := by
  simp [freeNames, h]

theorem freeNames_cons_of_none {use : Located String} (h : scope.entry? use.val = none)
    (uses : List (Located String)) (value : Value) :
    scope.freeNames (use :: uses) =
      use.val :: (scope.insert (.fresh use.val value)).freeNames uses := by
  have hfilter : ∀ name, (Scope.entry? (scope.insert (.fresh use.val value)) name).isNone =
      (!name == use.val && (scope.entry? name).isNone) := by
    intro name
    rw [entry?_insert]
    by_cases hname : name = use.val
    · simp [hname, Variable.fresh]
    · simp [hname, Variable.fresh]
  simp [freeNames, h, List.eraseDups_cons, hfilter, List.filter_filter]

end Scope

theorem commit_use_of_none {session : Session} {name : String} {value : Value}
    {supply : List Value} (h : Scope.entry? (scope.commit session) name = none)
    (hsupply : session.supply = value :: supply) :
    scope.commit (session.use scope name) = (scope.commit session).insert (.fresh name value) := by
  rw [Session.use_of_none h hsupply]
  refine Scope.ext_entry? rfl rfl fun asked => ?_
  rw [Scope.entry?_commit_insert, Scope.entry?_insert]
  rfl

/-- Binding by use is defining the names without an entry one after the other. -/
theorem defineAll_freeNames {uses : List (Located String)}
    (hnames : ∀ use ∈ uses, Variable.isName use.val = true) (session : Session) :
    (scope.commit session).defineAll
        (((scope.commit session).freeNames uses).zip session.supply) =
      .ok (scope.commit (session.useAll scope uses)) := by
  induction uses generalizing session with
  | nil => rfl
  | cons use uses ih =>
    have hrest := ih fun other hmem => hnames other (List.mem_cons_of_mem _ hmem)
    rw [Session.useAll_cons]
    cases hentry : Scope.entry? (scope.commit session) use.val with
    | some v =>
      rw [Scope.freeNames_cons_of_some hentry, Session.use_of_some hentry]
      exact hrest session
    | none =>
      cases hsupply : session.supply with
      | nil =>
        rw [Session.use_of_nil hsupply, Session.useAll_of_nil hsupply, List.zip_nil_right]
        rfl
      | cons value supply =>
        have hused := hrest (session.use scope use.val)
        have hsupply' : (session.use scope use.val).supply = supply := by
          rw [Session.use_of_none hentry hsupply]
          rfl
        rw [commit_use_of_none hentry hsupply, hsupply'] at hused
        rw [Scope.freeNames_cons_of_none hentry uses value, List.zip_cons_cons, Scope.defineAll,
          List.foldlM_cons, Scope.define_eq_ok (hnames use List.mem_cons_self)]
        exact hused

/-- Values that are supplied to a statement that was read are definitions of the variables without an
entry, as many as there are values for, in the order of their first use in the text.  Both evaluations
have the same outcome with the same draws, and with any draws where no function that is called draws. -/
theorem evaluateWith_eq_evaluate {g : Grammar} {source : List Char} {statement : Statement}
    (hparse : Statement.parse? g source = .ok statement) (scope : Scope) (values : List Value) :
    statement.uses.Pairwise (fun first second => first.span.offset < second.span.offset) ∧
      ∃ bound, scope.defineAll ((scope.freeNames statement.uses).zip values) = .ok bound ∧
        ∀ draws draws', draws = draws' ∨ scope.Steady statement.called →
          scope.evaluateWith draws statement values = bound.evaluate draws' statement := by
  obtain ⟨hordered, hnames⟩ := Reading.parse?_uses hparse
  have hdefine := @defineAll_freeNames scope _ hnames ⟨∅, values⟩
  rw [Scope.commit_empty] at hdefine
  refine ⟨hordered, _, hdefine, fun draws draws' hdraws => ?_⟩
  rw [← evaluateWith_eq_commit hnames draws' values]
  rcases hdraws with rfl | hsteady
  · rfl
  · exact Scope.evaluateWith_eq_of_steady hsteady draws draws' values

/-- A name that is read and assigned takes the second value, and one with an entry takes none.  Nothing is
called, so the draws do not matter. -/
theorem evaluateWith_eq_evaluate_of_assignment :
    ∃ statement bound,
      Statement.parse? .default "x = y - k * x".toList = .ok statement ∧
      ((Scope.ofRegistry (.standard .default)).insert (.fresh "k" (.number ⟨5, 0⟩))).defineAll
        [("y", .number ⟨7, 0⟩), ("x", .bool true)] = .ok bound ∧
      ∀ draws draws',
        ((Scope.ofRegistry (.standard .default)).insert (.fresh "k" (.number ⟨5, 0⟩))).evaluateWith
          draws statement [.number ⟨7, 0⟩, .bool true, .void] = bound.evaluate draws' statement := by
  have hparse : Statement.parse? .default "x = y - k * x".toList =
      .ok (.assignment ⟨0, 13, 1⟩ ⟨⟨0, 1, 1⟩, "x"⟩ (.binary ⟨4, 9, 1⟩ (.var ⟨4, 1, 1⟩ "y")
        ⟨⟨6, 1, 1⟩, .sub⟩ (.binary ⟨8, 5, 1⟩ (.var ⟨8, 1, 1⟩ "k") ⟨⟨10, 1, 1⟩, .mul⟩
          (.var ⟨12, 1, 1⟩ "x")))) := by cbv
  obtain ⟨_, bound, hdefine, hevaluate⟩ := evaluateWith_eq_evaluate hparse
    ((Scope.ofRegistry (.standard .default)).insert (.fresh "k" (.number ⟨5, 0⟩)))
    [.number ⟨7, 0⟩, .bool true, .void]
  refine ⟨_, bound, hparse, ?_, fun draws draws' => hevaluate draws draws' (.inr ?_)⟩
  case refine_2 => exact fun _ hmem => by cases hmem
  have hempty : ∀ name, Scope.entry? (Scope.ofRegistry (.standard .default)) name = none :=
    fun _ => Std.ExtTreeMap.getElem?_empty
  have hnames : ((Scope.ofRegistry (.standard .default)).insert
      (.fresh "k" (.number ⟨5, 0⟩))).freeNames
        [⟨⟨4, 1, 1⟩, "y"⟩, ⟨⟨8, 1, 1⟩, "k"⟩, ⟨⟨12, 1, 1⟩, "x"⟩] = ["y", "x"] := by
    simp [Scope.freeNames, Scope.entry?_insert, hempty, Variable.fresh]
    decide
  have huses : Statement.uses (.assignment ⟨0, 13, 1⟩ ⟨⟨0, 1, 1⟩, "x"⟩ (.binary ⟨4, 9, 1⟩
      (.var ⟨4, 1, 1⟩ "y") ⟨⟨6, 1, 1⟩, .sub⟩ (.binary ⟨8, 5, 1⟩ (.var ⟨8, 1, 1⟩ "k")
        ⟨⟨10, 1, 1⟩, .mul⟩ (.var ⟨12, 1, 1⟩ "x")))) =
      [⟨⟨4, 1, 1⟩, "y"⟩, ⟨⟨8, 1, 1⟩, "k"⟩, ⟨⟨12, 1, 1⟩, "x"⟩] := rfl
  rw [huses, hnames] at hdefine
  exact hdefine

end Abacus
