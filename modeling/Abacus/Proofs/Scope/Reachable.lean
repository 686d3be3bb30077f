import Abacus.Proofs.Evaluation.Change
import Abacus.Proofs.Evaluation.Composition
import Abacus.Proofs.Evaluation.Supply

/-!
# Reachable scopes

A program makes variables by constructors, which check the name and the value, and writes to them by
assignments, which check the value (`Variable.Obtained`).  It changes a scope by definitions, by clearing
it, by evaluating statements in it, and by merging another scope into it (`Scope.Operation`).

The key fact is that an evaluation makes variables in no other way, and that no operation puts a variable
under a name other than its own: `Filed` is kept by every operation (`filed_perform`), whether it fails
or not.  So in every scope that is reached the entries are well-formed.  What protects the constants is a
second step lemma, `constant_perform`: only a definition under its name takes the place of a constant.

The main statement is `wellFormed_of_reachable`.
-/

namespace Abacus

/-! ## Variables -/

namespace Variable

/-- The variables that a program can make: by a constructor, and by assignments afterwards. -/
inductive Obtained : Variable → Prop
  | typed {name : String} {value : Value} {type : ValueType} {v : Variable}
      (h : Variable.typed name value type = .ok v) : Obtained v
  | declared {name : String} {type : ValueType} {v : Variable}
      (h : Variable.declared name type = .ok v) : Obtained v
  | constant {name : String} {value : Value} {v : Variable}
      (h : Variable.constant name value = .ok v) : Obtained v
  | setValue {target v : Variable} {value : Value} (htarget : Obtained target)
      (h : target.setValue value = .ok v) : Obtained v

/-- The name is one, and the value, if there is one, is missing or of the type of the variable. -/
structure WellFormed (v : Variable) : Prop where
  /-- The name starts with an ASCII letter. -/
  initial : ∃ first rest, v.name.toList = first :: rest ∧ first.isAlpha = true
  /-- The name has no blanks. -/
  solid : ∀ c ∈ v.name.toList, isBlank c = false
  /-- The value fits. -/
  fits : ∀ value, v.value = some value → value = .void ∨ v.type = .any ∨ value.type = v.type

theorem type_eq_void_iff {value : Value} : value.type = .void ↔ value = .void := by
  cases value <;> simp [Value.type]

theorem accepts_iff {type : ValueType} {value : Value} :
    type.accepts value.type = true ↔ value = .void ∨ type = .any ∨ value.type = type := by
  simp only [ValueType.accepts, Bool.or_eq_true, beq_iff_eq, type_eq_void_iff]
  tauto

theorem typed_eq_ok_iff {name : String} {value : Value} {type : ValueType} {v : Variable} :
    typed name value type = .ok v ↔
      isName name = true ∧ type.accepts value.type = true ∧ v = ⟨name, some value, type, false⟩ := by
  by_cases hname : isName name = true
  · by_cases htype : type.accepts value.type = true
    · simp [typed, checkName, checkType, hname, htype, bind, Except.bind, pure, Except.pure, eq_comm]
    · simp [typed, checkName, checkType, hname, htype, bind, Except.bind]
  · simp [typed, checkName, hname, bind, Except.bind]

theorem declared_eq_ok_iff {name : String} {type : ValueType} {v : Variable} :
    declared name type = .ok v ↔ isName name = true ∧ v = ⟨name, none, type, false⟩ := by
  by_cases hname : isName name = true
  · simp [declared, checkName, hname, bind, Except.bind, pure, Except.pure, eq_comm]
  · simp [declared, checkName, hname, bind, Except.bind]

theorem constant_eq_ok_iff {name : String} {value : Value} {v : Variable} :
    constant name value = .ok v ↔ isName name = true ∧ v = ⟨name, some value, .any, true⟩ := by
  rw [constant, untyped_eq]
  by_cases hname : isName name = true
  · simp [hname, fresh, bind, Except.bind, pure, Except.pure, eq_comm]
  · simp [hname, bind, Except.bind]

/-- What is checked of a name. -/
theorem isName_iff {name : String} :
    isName name = true ↔ (∃ first rest, name.toList = first :: rest ∧ first.isAlpha = true) ∧
      ∀ c ∈ name.toList, isBlank c = false := by
  rw [isName]
  cases name.toList with
  | nil => simp
  | cons first rest => simp

/-- A variable has been checked when it was made, and at each assignment. -/
theorem Obtained.wellFormed {v : Variable} (h : v.Obtained) : v.WellFormed := by
  induction h with
  | typed h =>
    obtain ⟨hname, htype, rfl⟩ := typed_eq_ok_iff.mp h
    obtain ⟨hinitial, hsolid⟩ := isName_iff.mp hname
    refine ⟨hinitial, hsolid, fun value hvalue => ?_⟩
    obtain rfl := Option.some.inj hvalue
    exact accepts_iff.mp htype
  | declared h =>
    obtain ⟨hname, rfl⟩ := declared_eq_ok_iff.mp h
    obtain ⟨hinitial, hsolid⟩ := isName_iff.mp hname
    exact ⟨hinitial, hsolid, fun value hvalue => by cases hvalue⟩
  | constant h =>
    obtain ⟨hname, rfl⟩ := constant_eq_ok_iff.mp h
    obtain ⟨hinitial, hsolid⟩ := isName_iff.mp hname
    exact ⟨hinitial, hsolid, fun value _ => .inr (.inl rfl)⟩
  | setValue _ h ih =>
    obtain ⟨_, htype, rfl⟩ := setValue_eq_ok_iff.mp h
    refine ⟨ih.initial, ih.solid, fun value hvalue => ?_⟩
    obtain rfl := Option.some.inj hvalue
    exact accepts_iff.mp htype

/-- Assigns to a variable in place.  The checks come first, and the write comes last. -/
def update (value : Value) : ExceptT EvalError (StateM Variable) Unit := do
  let target ← get
  if target.isConstant then throw .constantTarget
  MonadExcept.ofExcept (checkType target.type value)
  modify fun target => { target with value := some value }

/-- In place there is the new variable afterwards, or the old one. -/
theorem run_update (target : Variable) (value : Value) :
    (update value).run.run target =
      ((fun _ => ()) <$> target.setValue value, (target.setValue value).toOption.getD target) := by
  obtain ⟨name, old, type, isConstant⟩ := target
  cases isConstant with
  | true => rfl
  | false =>
    -- what is left is the outcome of the check, followed by the write
    have hset : setValue ⟨name, old, type, false⟩ value =
        checkType type value >>= fun _ => .ok ⟨name, some value, type, false⟩ := rfl
    have hrun : (update value).run.run ⟨name, old, type, false⟩ =
        ((MonadExcept.ofExcept (checkType type value) : ExceptT EvalError (StateM Variable) Unit) >>=
          fun _ => modify fun target => { target with value := some value }).run.run
            ⟨name, old, type, false⟩ := rfl
    rw [hset, hrun]
    cases checkType type value <;> rfl

end Variable

/-! ## Operations -/

namespace Scope

/-- What is done to a scope in one call. -/
inductive Operation where
  /-- A variable is put under its name. -/
  | insert (v : Variable)
  /-- A variable for values of every type is defined. -/
  | define (name : String) (value : Value)
  /-- A constant is defined. -/
  | defineConstant (name : String) (value : Value)
  /-- A function is defined. -/
  | withCallable (name : String) (callee : Callable)
  /-- The variables are removed. -/
  | clear
  /-- A statement is evaluated, with supplied values if there are any. -/
  | execute (draws : Draws) (statement : Statement) (supply : List Value)
  /-- What another scope has and this one has not is taken over. -/
  | inheritFrom (other : Scope)

/-- The name that the operation defines a variable under. -/
def Operation.defines? : Operation → Option String
  | .insert v => some v.name
  | .define name _ | .defineConstant name _ => some name
  | _ => none

/-- The scope after the operation.  A definition that is refused leaves it as it was. -/
def perform (scope : Scope) : Operation → Scope
  | .insert v => scope.insert v
  | .define name value => (scope.define name value).toOption.getD scope
  | .defineConstant name value => (scope.defineConstant name value).toOption.getD scope
  | .withCallable name callee => scope.withCallable name callee
  | .clear => scope.clear
  | .execute draws statement supply => (scope.execute draws statement supply).2
  | .inheritFrom other => scope.inheritFrom other

/-- The scope after several operations. -/
def performAll (scope : Scope) (operations : List Operation) : Scope :=
  operations.foldl perform scope

/-- The scopes that a program can reach, with variables that it can make and by merging scopes that it
has reached before. -/
inductive Reachable : Scope → Prop
  | ofRegistry (registry : Registry) : Reachable (.ofRegistry registry)
  | perform {scope : Scope} {operation : Operation} (h : Reachable scope)
      (hvariable : ∀ v, operation = .insert v → v.Obtained)
      (hother : ∀ other, operation = .inheritFrom other → Reachable other) :
      Reachable (scope.perform operation)

variable {scope other : Scope} {name : String}

/-- A definition puts in a variable with its name, which the program made before or makes now, or it is
refused. -/
theorem perform_definition {operation : Operation} (h : operation.defines? = some name)
    (scope : Scope) :
    (∃ v, v.name = name ∧ (operation = .insert v ∨ v.Obtained) ∧
      scope.perform operation = scope.insert v) ∨
    scope.perform operation = scope := by
  cases operation with
  | insert v => exact .inl ⟨v, Option.some.inj h, .inl rfl, rfl⟩
  | define defined value =>
    rw [perform, define, Variable.untyped]
    cases hv : Variable.typed defined value .any with
    | error error => exact .inr rfl
    | ok v =>
      obtain ⟨_, _, rfl⟩ := Variable.typed_eq_ok_iff.mp hv
      have hname : defined = name := Option.some.inj h
      exact .inl ⟨_, hname, .inr (.typed hv), rfl⟩
  | defineConstant defined value =>
    rw [perform, defineConstant]
    cases hv : Variable.constant defined value with
    | error error => exact .inr rfl
    | ok v =>
      obtain ⟨_, rfl⟩ := Variable.constant_eq_ok_iff.mp hv
      have hname : defined = name := Option.some.inj h
      exact .inl ⟨_, hname, .inr (.constant hv), rfl⟩
  | withCallable | clear | execute | inheritFrom => cases h

theorem entry?_clear (scope : Scope) (name : String) :
    Scope.entry? scope.clear name = (scope.entry? name).filter fun v => v.isConstant :=
  Std.ExtTreeMap.getElem?_filter'

/-! ## Where entries come from -/

/-- Every entry is a variable that a program can make, under its own name. -/
def Filed (scope : Scope) : Prop :=
  ∀ name v, scope.entry? name = some v → v.name = name ∧ v.Obtained

theorem filed_ofRegistry (registry : Registry) : (ofRegistry registry).Filed := by
  intro name v hentry
  rw [ofRegistry, Scope.entry?, Std.ExtTreeMap.getElem?_empty] at hentry
  cases hentry

theorem Filed.insert (h : scope.Filed) {v : Variable} (hv : v.Obtained) : (scope.insert v).Filed := by
  intro name w hentry
  rw [entry?_insert] at hentry
  by_cases hname : name = v.name
  · rw [if_pos hname] at hentry
    obtain rfl := Option.some.inj hentry
    exact ⟨hname.symm, hv⟩
  · rw [if_neg hname] at hentry
    exact h name w hentry

theorem Filed.clear (h : scope.Filed) : scope.clear.Filed := by
  intro name v hentry
  rw [entry?_clear] at hentry
  exact h name v (Option.filter_eq_some_iff.mp hentry).1

theorem Filed.inheritFrom (h : scope.Filed) (hother : other.Filed) :
    (scope.inheritFrom other).Filed := by
  intro name v hentry
  rw [entry?_inheritFrom] at hentry
  rcases Option.or_eq_some_iff.mp hentry with hown | ⟨_, htaken⟩
  · exact h name v hown
  · exact hother name v htaken

/-- What an evaluation has put into the session is filed as well. -/
theorem Filed.commit_insert {session : Session} (h : (scope.commit session).Filed) {v : Variable}
    (hname : v.name = name) (hv : v.Obtained) : (scope.commit (session.insert name v)).Filed := by
  intro asked w hentry
  rw [entry?_commit_insert] at hentry
  by_cases hasked : asked = name
  · rw [if_pos hasked] at hentry
    obtain rfl := Option.some.inj hentry
    exact ⟨hname.trans hasked.symm, hv⟩
  · rw [if_neg hasked] at hentry
    exact h asked w hentry

open Evaluation

theorem filed_useVariable (scope : Scope) (span : Span) (name : String) :
    Relates (fun session session' => (scope.commit session).Filed → (scope.commit session').Filed)
      (useVariable scope span name) := by
  intro session a session' hrun h
  rw [run_useVariable_commit] at hrun
  split at hrun
  · obtain ⟨_, rfl⟩ := Prod.mk.inj (Except.ok.inj hrun)
    exact h
  · cases hrun
  · obtain ⟨v, hv, hrun⟩ := eq_ok_of_bind hrun
    obtain ⟨_, rfl⟩ := Prod.mk.inj (Except.ok.inj hrun)
    have htyped := mapError_eq_ok_iff.mp hv
    obtain ⟨_, _, rfl⟩ := Variable.typed_eq_ok_iff.mp htyped
    exact h.commit_insert rfl (.typed htyped)

/-- An assignment writes a variable that was filed under the name of its target, or makes a new one. -/
theorem Filed.assigned (h : scope.Filed) {value : Value} {v : Variable}
    (hassigned : Evaluation.assigned scope name value = .ok v) : v.name = name ∧ v.Obtained := by
  rw [Evaluation.assigned] at hassigned
  split at hassigned
  · rename_i target htarget
    obtain ⟨hname, hobtained⟩ := h name target htarget
    obtain ⟨_, _, rfl⟩ := Variable.setValue_eq_ok_iff.mp hassigned
    exact ⟨hname, .setValue hobtained hassigned⟩
  · obtain ⟨_, _, rfl⟩ := Variable.typed_eq_ok_iff.mp hassigned
    exact ⟨rfl, .typed hassigned⟩

theorem Filed.evaluateWith (h : scope.Filed) {draws : Draws} {statement : Statement}
    {supply : List Value} {value : Value} {after : Scope}
    (hok : scope.evaluateWith draws statement supply = .ok (value, after)) : after.Filed := by
  have hstart : (scope.commit ⟨∅, supply⟩).Filed := by rwa [commit_empty]
  have hvalue (expr : Expr) := relates_evaluate (fun _ h => h)
    (fun _ _ _ hfirst hsecond h => hsecond (hfirst h))
    (fun (use : Located String) (_ : use ∈ expr.uses) => filed_useVariable scope use.span use.val)
    draws
  obtain ⟨⟨result, session⟩, hrun, hresult⟩ := eq_ok_of_bind hok
  obtain ⟨rfl, rfl⟩ := Prod.mk.inj (Except.ok.inj hresult)
  cases statement with
  | expression expr => exact hvalue expr _ _ _ hrun hstart
  | assignment span target expr =>
    rw [Statement.evaluate, StateT.run_bind] at hrun
    obtain ⟨⟨value, session'⟩, hfirst, hrun⟩ := eq_ok_of_bind hrun
    simp only [StateT.run_bind, run_assign_commit] at hrun
    obtain ⟨⟨_, session''⟩, hassign, hrun⟩ := eq_ok_of_bind hrun
    obtain ⟨rfl, rfl⟩ := Prod.mk.inj (Except.ok.inj hrun)
    obtain ⟨v, hv, hassign⟩ := eq_ok_of_bind hassign
    obtain ⟨_, rfl⟩ := Prod.mk.inj (Except.ok.inj hassign)
    have hbefore := hvalue expr _ _ _ hfirst hstart
    obtain ⟨hname, hobtained⟩ := hbefore.assigned (mapError_eq_ok_iff.mp hv)
    exact hbefore.commit_insert hname hobtained

theorem Filed.execute (h : scope.Filed) (draws : Draws) (statement : Statement)
    (supply : List Value) : (scope.execute draws statement supply).2.Filed := by
  rw [Scope.execute]
  cases hok : scope.evaluateWith draws statement supply with
  | error error => exact h
  | ok result => exact h.evaluateWith hok

/-- One operation keeps the entries filed, if what it brings in is. -/
theorem filed_perform {operation : Operation} (h : scope.Filed)
    (hvariable : ∀ v, operation = .insert v → v.Obtained)
    (hother : ∀ other, operation = .inheritFrom other → other.Filed) :
    (scope.perform operation).Filed := by
  cases hdefines : operation.defines? with
  | some name =>
    rcases perform_definition hdefines scope with ⟨v, _, hv, hafter⟩ | hsame
    · rw [hafter]
      exact h.insert (hv.elim (hvariable v) id)
    · rwa [hsame]
  | none =>
    cases operation with
    | insert | define | defineConstant => cases hdefines
    | withCallable name callee => exact h
    | clear => exact h.clear
    | execute draws statement supply => exact h.execute draws statement supply
    | inheritFrom other => exact h.inheritFrom (hother other rfl)

theorem Reachable.filed (h : scope.Reachable) : scope.Filed := by
  induction h with
  | ofRegistry registry => exact filed_ofRegistry registry
  | perform _ hvariable _ ih ihother => exact filed_perform ih hvariable ihother

/-- Runs of operations lead from scopes that are reached to others. -/
theorem Reachable.performAll (h : scope.Reachable) (operations : List Operation)
    (hvariables : ∀ v, .insert v ∈ operations → v.Obtained)
    (hothers : ∀ other, .inheritFrom other ∈ operations → other.Reachable) :
    (scope.performAll operations).Reachable := by
  induction operations generalizing scope with
  | nil => exact h
  | cons operation operations ih =>
    have hfirst : (scope.perform operation).Reachable := by
      apply h.perform
      · exact fun v heq => hvariables v (heq ▸ List.mem_cons_self)
      · exact fun other heq => hothers other (heq ▸ List.mem_cons_self)
    apply ih hfirst
    · exact fun v hmem => hvariables v (List.mem_cons_of_mem _ hmem)
    · exact fun other hmem => hothers other (List.mem_cons_of_mem _ hmem)

/-! ## Constants -/

/-- A constant stays what it is, unless something else is defined under its name. -/
theorem constant_perform {operation : Operation} {v : Variable} (hentry : scope.entry? name = some v)
    (hconstant : v.isConstant = true) (hdefines : operation.defines? ≠ some name) :
    Scope.entry? (scope.perform operation) name = some v := by
  cases hdefined : operation.defines? with
  | some defined =>
    rcases perform_definition hdefined scope with ⟨w, hw, _, hafter⟩ | hsame
    · have hne : name ≠ w.name := by
        intro heq
        apply hdefines
        rw [hdefined, heq, hw]
      rw [hafter, entry?_insert, if_neg hne]
      exact hentry
    · rwa [hsame]
  | none =>
    cases operation with
    | insert | define | defineConstant => cases hdefined
    | withCallable name callee => exact hentry
    | clear =>
      rw [perform, entry?_clear, hentry]
      exact Option.filter_some_pos hconstant
    | execute draws statement supply =>
      have hpersists := persists_execute scope draws statement supply
      obtain ⟨w, hw, _, _, hsame⟩ := hpersists.entries name v hentry
      rw [hsame hconstant] at hw
      exact hw
    | inheritFrom other =>
      rw [perform, entry?_inheritFrom, hentry]
      rfl

theorem constant_performAll {operations : List Operation} {v : Variable}
    (hentry : scope.entry? name = some v) (hconstant : v.isConstant = true)
    (hdefines : ∀ operation ∈ operations, operation.defines? ≠ some name) :
    Scope.entry? (scope.performAll operations) name = some v := by
  induction operations generalizing scope with
  | nil => exact hentry
  | cons operation operations ih =>
    have hfirst := constant_perform hentry hconstant (hdefines operation List.mem_cons_self)
    exact ih hfirst fun other hmem => hdefines other (List.mem_cons_of_mem _ hmem)

/-! ## The invariant -/

/-- Every variable stands under its own name and is well-formed. -/
structure WellFormed (scope : Scope) : Prop where
  names : ∀ name v, scope.entry? name = some v → v.name = name
  entries : ∀ name v, scope.entry? name = some v → v.WellFormed

/-- A scope that a program reaches is well-formed.  From there on a constant outlasts every run of
evaluations, clearings, merges and definitions of other names.  And an assignment to a variable in place
writes the value, or is refused and leaves the variable as it was. -/
theorem wellFormed_of_reachable (h : scope.Reachable) :
    scope.WellFormed ∧
    (∀ (operations : List Operation) (name : String) (v : Variable),
      scope.entry? name = some v → v.isConstant = true →
      (∀ operation ∈ operations, operation.defines? ≠ some name) →
      Scope.entry? (scope.performAll operations) name = some v) ∧
    ∀ (target : Variable) (value : Value),
      (∃ after, target.setValue value = .ok after ∧
        (Variable.update value).run.run target = (.ok (), after)) ∨
      ∃ error, target.setValue value = .error error ∧
        (Variable.update value).run.run target = (.error error, target) := by
  refine ⟨⟨fun name v hentry => ?_, fun name v hentry => ?_⟩, ?_, ?_⟩
  · exact (h.filed name v hentry).1
  · exact (h.filed name v hentry).2.wellFormed
  · intro operations name v hentry hconstant hdefines
    exact constant_performAll hentry hconstant hdefines
  · intro target value
    rw [Variable.run_update]
    cases target.setValue value with
    | ok after => exact .inl ⟨after, rfl, rfl⟩
    | error error => exact .inr ⟨error, rfl, rfl⟩

/-- A scope with a constant `k` and a variable `n` for numbers, after `x = k + y` with a value for `y`.  It
is well-formed, and `k` outlasts an assignment to it, a merge with a scope that has a `k` and a clearing;
`n` refuses a text. -/
theorem wellFormed_of_reachable_of_constant :
    ∃ scope : Scope, scope.Reachable ∧ scope.WellFormed ∧
      scope.entry? "k" = some ⟨"k", some (.number ⟨2, 0⟩), .any, true⟩ ∧
      scope.entry? "x" = some (.fresh "x" (.number ⟨9, 0⟩)) ∧
      Scope.entry? (scope.performAll
        [.execute (fun _ => 0) (.assignment ⟨0, 5, 1⟩ ⟨⟨0, 1, 1⟩, "k"⟩ (.number ⟨4, 1, 1⟩ ⟨3, 0⟩)) [],
          .inheritFrom ((Scope.ofRegistry (.standard .default)).insert (.fresh "k" .void)),
          .clear]) "k" = some ⟨"k", some (.number ⟨2, 0⟩), .any, true⟩ ∧
      (Variable.update (.text "a")).run.run ⟨"n", none, .number, false⟩ =
        (.error (.typeMismatch .number .text), ⟨"n", none, .number, false⟩) := by
  have hdeclared : Variable.Obtained ⟨"n", none, .number, false⟩ :=
    .declared (Variable.declared_eq_ok_iff.mpr ⟨by decide, rfl⟩)
  have hreachable := (Reachable.ofRegistry (.standard .default)).performAll
    [.defineConstant "k" (.number ⟨2, 0⟩), .insert ⟨"n", none, .number, false⟩,
      .execute (fun _ => 0) (.assignment ⟨0, 9, 1⟩ ⟨⟨0, 1, 1⟩, "x"⟩ (.binary ⟨4, 5, 1⟩
        (.var ⟨4, 1, 1⟩ "k") ⟨⟨6, 1, 1⟩, .add⟩ (.var ⟨8, 1, 1⟩ "y"))) [.number ⟨7, 0⟩]]
    (by
      intro v hmem
      simp only [List.mem_cons, reduceCtorEq, Operation.insert.injEq, List.not_mem_nil, or_false,
        false_or] at hmem
      exact hmem ▸ hdeclared)
    (by simp)
  obtain ⟨hwellFormed, hconstants, hupdate⟩ := wellFormed_of_reachable hreachable
  refine ⟨_, hreachable, hwellFormed, by decide +kernel, by decide +kernel, ?_, ?_⟩
  · apply hconstants _ _ _ (by decide +kernel) rfl
    simp [Operation.defines?]
  · rcases hupdate ⟨"n", none, .number, false⟩ (.text "a") with ⟨after, hset, _⟩ | ⟨error, hset, hrun⟩
    · cases hset
    · cases hset
      exact hrun

end Scope

end Abacus
