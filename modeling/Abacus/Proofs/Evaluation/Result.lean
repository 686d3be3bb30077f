import Abacus.Evaluation
import Abacus.Proofs.Expr.Alike

/-!
# Evaluation without supplied values

Where no values are supplied, the evaluation of an expression binds nothing: it leaves the session as
it was (`settled_evaluate`).  So its result is a function of the scope, and that of an operation or
a call is put together from the results of the operands (`result_binary`, `result_call`).
-/

namespace Abacus

/-- Nothing is bound, and no values are supplied. -/
def Session.start : Session := ⟨∅, []⟩

namespace Evaluation

variable {α β : Type}

/-- What a computation gives where nothing is supplied. -/
def result (m : Evaluation α) : Except (Located EvalError) α := m.run' .start

/-- The computation leaves the session as it was. -/
def Settled (m : Evaluation α) : Prop := m.run .start = (fun a => (a, .start)) <$> m.result

/-- The result of a rule, with its error put at a place. -/
def placed (span : Span) (result : Except EvalError α) : Except (Located EvalError) α :=
  result.mapError fun error => ⟨span, error⟩

/-- The computation neither looks at the session nor changes it. -/
def Apart (m : Evaluation α) : Prop :=
  ∀ session, m.run session = (fun a => (a, session)) <$> m.result

theorem Apart.settled {m : Evaluation α} (h : Apart m) : Settled m := h .start

theorem apart_pure (a : α) : Apart (pure a : Evaluation α) := fun _ => rfl

theorem apart_raise (span : Span) (error : EvalError) :
    Apart (raise span error : Evaluation α) :=
  fun _ => rfl

theorem apart_located (span : Span) (rule : Except EvalError α) : Apart (located span rule) := by
  cases rule with
  | ok a => exact apart_pure a
  | error error => exact apart_raise span error

theorem settled_pure (a : α) : Settled (pure a : Evaluation α) := (apart_pure a).settled

theorem settled_raise (span : Span) (error : EvalError) :
    Settled (raise span error : Evaluation α) :=
  (apart_raise span error).settled

theorem settled_located (span : Span) (rule : Except EvalError α) :
    Settled (located span rule) :=
  (apart_located span rule).settled

@[simp] theorem result_pure (a : α) : (pure a : Evaluation α).result = .ok a := rfl

@[simp] theorem result_raise (span : Span) (error : EvalError) :
    (raise span error : Evaluation α).result = .error ⟨span, error⟩ := rfl

@[simp] theorem result_located (span : Span) (rule : Except EvalError α) :
    (located span rule).result = placed span rule := by
  cases rule <;> rfl

/-- After a computation that leaves the session as it was, the next one starts in the same way. -/
theorem Settled.run_bind {m : Evaluation α} (h : Settled m) (f : α → Evaluation β) :
    (m >>= f).run .start = m.result >>= fun a => (f a).run .start := by
  rw [StateT.run_bind, h]
  cases m.result <;> rfl

theorem result_bind {m : Evaluation α} (h : Settled m) (f : α → Evaluation β) :
    (m >>= f).result = m.result >>= fun a => (f a).result := by
  have hrun := h.run_bind f
  rw [result, StateT.run'_eq, hrun]
  cases m.result <;> rfl

theorem Settled.bind {m : Evaluation α} {f : α → Evaluation β} (h : Settled m)
    (hf : ∀ a, Settled (f a)) : Settled (m >>= f) := by
  rw [Settled, h.run_bind, result_bind h]
  cases m.result with
  | error error => rfl
  | ok a => exact hf a

theorem Apart.run_bind {m : Evaluation α} (h : Apart m) (f : α → Evaluation β)
    (session : Session) :
    (m >>= f).run session = m.result >>= fun a => (f a).run session := by
  rw [StateT.run_bind, h session]
  cases m.result <;> rfl

theorem Apart.bind {m : Evaluation α} {f : α → Evaluation β} (h : Apart m)
    (hf : ∀ a, Apart (f a)) : Apart (m >>= f) := by
  intro session
  rw [h.run_bind, result_bind h.settled]
  cases m.result with
  | error error => rfl
  | ok a => exact hf a session

/-- A result that is put together has parts. -/
theorem eq_ok_of_bind {ε α β : Type} {m : Except ε α} {f : α → Except ε β} {b : β}
    (h : m >>= f = .ok b) : ∃ a, m = .ok a ∧ f a = .ok b := by
  cases m with
  | error error => cases h
  | ok a => exact ⟨a, rfl, h⟩

theorem mapError_eq_ok_iff {ε ε' α : Type} {f : ε → ε'} {result : Except ε α} {a : α} :
    result.mapError f = .ok a ↔ result = .ok a := by
  cases result <;> simp [Except.mapError]

theorem argument_eq_ok_iff {v : Value} {x : Decimal} :
    argument v = .ok x ↔ v.toDecimal? = .ok (some x) := by
  unfold argument
  cases v.toDecimal? with
  | error error => simp [bind, Except.bind]
  | ok number => cases number <;> simp [bind, Except.bind, pure, Except.pure, throw, throwThe,
      MonadExceptOf.throw]

/-! ## The steps of an evaluation -/

theorem apart_operatorAt (scope : Scope) (span : Span) (symbol : String) :
    Apart (operatorAt scope span symbol) := by
  unfold operatorAt
  split
  · exact apart_pure _
  · exact apart_raise _ _

theorem settled_operatorAt (scope : Scope) (span : Span) (symbol : String) :
    Settled (operatorAt scope span symbol) :=
  (apart_operatorAt scope span symbol).settled

theorem apart_arguments (values : List (Located Value)) : Apart (arguments values) := by
  induction values with
  | nil => exact apart_pure _
  | cons value values ih =>
    exact (apart_located _ _).bind fun x => ih.bind fun xs => apart_pure _

theorem settled_arguments (values : List (Located Value)) : Settled (arguments values) :=
  (apart_arguments values).settled

theorem apart_applyCallable (callee : Callable) (draw : Nat) (span : Span) (name : String)
    (values : List (Located Value)) : Apart (applyCallable callee draw span name values) :=
  (apart_located _ _).bind fun _ => (apart_arguments values).bind fun _ => apart_located _ _

theorem settled_applyCallable (callee : Callable) (draw : Nat) (span : Span) (name : String)
    (values : List (Located Value)) : Settled (applyCallable callee draw span name values) :=
  (apart_applyCallable callee draw span name values).settled

/-- What is left of a unary expression once its operand has a value. -/
def applyUnary (scope : Scope) (span : Span) (op : Located UnaryOp) (value : Value) :
    Evaluation Value := do
  let operator ← operatorAt scope op.span op.val.symbol
  if !operator.isUnary then raise op.span (.notUnary op.val.symbol)
  located span (operator.apply .void value)

/-- What is left of a binary expression once its operands have values. -/
def applyBinary (scope : Scope) (span : Span) (op : Located BinaryOp) (x y : Value) :
    Evaluation Value := do
  let operator ← operatorAt scope op.span op.val.symbol
  located span (operator.apply x y)

theorem apart_applyUnary (scope : Scope) (span : Span) (op : Located UnaryOp) (value : Value) :
    Apart (applyUnary scope span op value) := by
  refine (apart_operatorAt _ _ _).bind fun operator => ?_
  split
  · exact (apart_raise _ _).bind fun _ => apart_located _ _
  · exact apart_located _ _

theorem apart_applyBinary (scope : Scope) (span : Span) (op : Located BinaryOp) (x y : Value) :
    Apart (applyBinary scope span op x y) :=
  (apart_operatorAt _ _ _).bind fun _ => apart_located _ _

theorem result_operatorAt (scope : Scope) (span : Span) (symbol : String) :
    (operatorAt scope span symbol).result =
      (scope.registry.operator? symbol).elim (.error ⟨span, .undefinedOperator symbol⟩) .ok := by
  unfold operatorAt
  cases scope.registry.operator? symbol <;> rfl

theorem result_applyUnary (scope : Scope) (span : Span) (op : Located UnaryOp) (value : Value) :
    (applyUnary scope span op value).result =
      (scope.registry.operator? op.val.symbol).elim
          (.error ⟨op.span, .undefinedOperator op.val.symbol⟩) .ok >>= fun operator =>
        if operator.isUnary then placed span (operator.apply .void value)
        else .error ⟨op.span, .notUnary op.val.symbol⟩ := by
  rw [applyUnary, result_bind (settled_operatorAt _ _ _), result_operatorAt]
  congr
  funext operator
  cases operator.isUnary with
  | false => rfl
  | true => exact result_located _ _

theorem result_applyBinary (scope : Scope) (span : Span) (op : Located BinaryOp) (x y : Value) :
    (applyBinary scope span op x y).result =
      (scope.registry.operator? op.val.symbol).elim
          (.error ⟨op.span, .undefinedOperator op.val.symbol⟩) .ok >>= fun operator =>
        placed span (operator.apply x y) := by
  rw [applyBinary, result_bind (settled_operatorAt _ _ _), result_operatorAt]
  congr
  funext operator
  exact result_located _ _

theorem run_lookup? (scope : Scope) (name : String) :
    (lookup? scope name).run .start = .ok (scope.entry? name, .start) := by
  have hbound : Session.start.bound[name]? = none := Std.ExtTreeMap.getElem?_empty
  change Except.ok ((Session.start.bound[name]? <|> scope.entry? name), Session.start) = _
  rw [hbound]
  rfl

theorem run_useVariable (scope : Scope) (span : Span) (name : String) :
    (useVariable scope span name).run .start =
      match scope.entry? name with
      | some v => .ok (v.content, .start)
      | none => .error ⟨span, .undefinedVariable⟩ := by
  rw [useVariable, StateT.run_bind, run_lookup?]
  cases scope.entry? name <;> rfl

theorem settled_useVariable (scope : Scope) (span : Span) (name : String) :
    Settled (useVariable scope span name) := by
  rw [Settled, result, StateT.run'_eq, run_useVariable]
  cases scope.entry? name <;> rfl

theorem result_arguments_cons (value : Located Value) (values : List (Located Value)) :
    (arguments (value :: values)).result =
      placed value.span (argument value.val) >>= fun x =>
        (arguments values).result >>= fun xs => .ok (x :: xs) := by
  rw [arguments, result_bind (settled_located _ _), result_located]
  congr
  funext x
  rw [result_bind (settled_arguments values)]
  rfl

theorem result_applyCallable (callee : Callable) (draw : Nat) (span : Span) (name : String)
    (values : List (Located Value)) :
    (applyCallable callee draw span name values).result =
      placed span (callee.checkArity name values.length) >>= fun _ =>
        (arguments values).result >>= fun numbers =>
          placed span ((callee.run draw numbers).mapError .ofCall) := by
  rw [applyCallable, result_bind (settled_located _ _), result_located]
  congr
  funext _
  rw [result_bind (settled_arguments values)]
  simp only [result_located]

end Evaluation

open Evaluation

/-! ## Expressions -/

theorem Expr.evaluate_call {scope : Scope} {name : Located String} {callee : Callable}
    (h : scope.callable? name.val = some callee) (draws : Draws) (span : Span)
    (args : List Expr) :
    (Expr.call span name args).evaluate scope draws =
      evaluateAll scope draws args >>= applyCallable callee draws.own span name.val := by
  rw [evaluate, h]

theorem Expr.evaluate_call_none {scope : Scope} {name : Located String}
    (h : scope.callable? name.val = none) (draws : Draws) (span : Span) (args : List Expr) :
    (Expr.call span name args).evaluate scope draws = raise name.span .undefinedFunction := by
  rw [evaluate, h]

theorem Expr.evaluate_unary (scope : Scope) (draws : Draws) (span : Span) (op : Located UnaryOp)
    (operand : Expr) :
    (Expr.unary span op operand).evaluate scope draws =
      operand.evaluate scope draws.first >>= applyUnary scope span op := by
  rw [evaluate]
  rfl

theorem Expr.evaluate_binary (scope : Scope) (draws : Draws) (span : Span) (lhs rhs : Expr)
    (op : Located BinaryOp) :
    (Expr.binary span lhs op rhs).evaluate scope draws =
      lhs.evaluate scope draws.first >>= fun x =>
        rhs.evaluate scope draws.second >>= applyBinary scope span op x := by
  rw [evaluate]
  rfl

theorem settled_evaluateAll {scope : Scope} {args : List Expr}
    (h : ∀ arg ∈ args, ∀ draws, Settled (arg.evaluate scope draws)) (draws : Draws) :
    Settled (Expr.evaluateAll scope draws args) := by
  induction args generalizing draws with
  | nil => exact settled_pure _
  | cons arg args ih =>
    have hrest := ih fun arg hmem => h arg (List.mem_cons_of_mem _ hmem)
    rw [Expr.evaluateAll]
    exact (h arg (List.mem_cons_self ..) _).bind fun _ => (hrest _).bind fun _ => settled_pure _

/-- Evaluation binds nothing. -/
theorem settled_evaluate (scope : Scope) (draws : Draws) (expr : Expr) :
    Settled (expr.evaluate scope draws) := by
  induction expr using Expr.induct generalizing draws with
  | number span value =>
    rw [Expr.evaluate]
    exact settled_pure _
  | var span name =>
    rw [Expr.evaluate]
    exact settled_useVariable scope span name
  | call span name args ih =>
    rw [Expr.evaluate]
    split
    · exact settled_raise _ _
    · exact (settled_evaluateAll ih draws).bind fun _ => settled_applyCallable _ _ _ _ _
  | unary span op operand ih =>
    rw [Expr.evaluate_unary]
    exact (ih _).bind fun value => (apart_applyUnary scope span op value).settled
  | binary span lhs op rhs ihlhs ihrhs =>
    rw [Expr.evaluate_binary]
    exact (ihlhs _).bind fun x => (ihrhs _).bind fun y => (apart_applyBinary scope span op x y).settled

namespace Expr

/-- The value of an expression where no values are supplied. -/
def result (scope : Scope) (draws : Draws) (expr : Expr) : Except (Located EvalError) Value :=
  (expr.evaluate scope draws).result

/-- The values of several expressions, each with its place. -/
def results (scope : Scope) (draws : Draws) (args : List Expr) :
    Except (Located EvalError) (List (Located Value)) :=
  (evaluateAll scope draws args).result

variable {scope : Scope} {draws : Draws}

theorem result_number (span : Span) (value : Decimal) :
    (Expr.number span value).result scope draws = .ok (.number value) := rfl

theorem result_var (span : Span) (name : String) :
    (Expr.var span name).result scope draws =
      match scope.entry? name with
      | some v => .ok v.content
      | none => .error ⟨span, .undefinedVariable⟩ := by
  rw [result, evaluate, Evaluation.result, StateT.run'_eq, run_useVariable]
  cases scope.entry? name <;> rfl

/-- So does the evaluation of arguments. -/
theorem settled_results (scope : Scope) (draws : Draws) (args : List Expr) :
    Settled (evaluateAll scope draws args) :=
  settled_evaluateAll (fun arg _ draws => settled_evaluate scope draws arg) draws

theorem results_cons (arg : Expr) (args : List Expr) :
    results scope draws (arg :: args) =
      arg.result scope draws.first >>= fun value =>
        results scope draws.second args >>= fun values => .ok (⟨arg.span, value⟩ :: values) := by
  rw [results, evaluateAll, result_bind (settled_evaluate scope _ arg)]
  congr
  funext value
  rw [result_bind (settled_results scope _ args)]
  rfl

theorem result_call {span : Span} {name : Located String} {args : List Expr} {callee : Callable}
    (h : scope.callable? name.val = some callee) :
    (Expr.call span name args).result scope draws =
      results scope draws args >>= fun values =>
        (applyCallable callee draws.own span name.val values).result := by
  rw [result, evaluate_call h]
  exact result_bind (settled_results scope draws args) _

theorem result_call_none {span : Span} {name : Located String} {args : List Expr}
    (h : scope.callable? name.val = none) :
    (Expr.call span name args).result scope draws = .error ⟨name.span, .undefinedFunction⟩ := by
  rw [result, evaluate_call_none h]
  rfl

theorem result_unary_eq (scope : Scope) (draws : Draws) (span : Span) (op : Located UnaryOp)
    (operand : Expr) :
    (Expr.unary span op operand).result scope draws =
      operand.result scope draws.first >>= fun value => (applyUnary scope span op value).result := by
  rw [result, evaluate_unary]
  exact result_bind (settled_evaluate scope _ operand) _

theorem result_binary_eq (scope : Scope) (draws : Draws) (span : Span) (lhs rhs : Expr)
    (op : Located BinaryOp) :
    (Expr.binary span lhs op rhs).result scope draws =
      lhs.result scope draws.first >>= fun x => rhs.result scope draws.second >>= fun y =>
        (applyBinary scope span op x y).result := by
  rw [result, evaluate_binary, result_bind (settled_evaluate scope _ lhs)]
  congr
  funext x
  exact result_bind (settled_evaluate scope _ rhs) _

theorem result_unary {span : Span} {op : Located UnaryOp} {operand : Expr} {operator : Operator}
    (h : scope.registry.operator? op.val.symbol = some operator)
    (hunary : operator.isUnary = true) :
    (Expr.unary span op operand).result scope draws =
      operand.result scope draws.first >>= fun value => placed span (operator.apply .void value) := by
  have happly : ∀ value, (applyUnary scope span op value).result =
      placed span (operator.apply .void value) := by
    intro value
    rw [result_applyUnary, h]
    simp [hunary, bind, Except.bind]
  simp only [result_unary_eq, happly]

theorem result_binary {span : Span} {lhs rhs : Expr} {op : Located BinaryOp} {operator : Operator}
    (h : scope.registry.operator? op.val.symbol = some operator) :
    (Expr.binary span lhs op rhs).result scope draws =
      lhs.result scope draws.first >>= fun x => rhs.result scope draws.second >>= fun y =>
        placed span (operator.apply x y) := by
  have happly : ∀ x y, (applyBinary scope span op x y).result = placed span (operator.apply x y) := by
    intro x y
    rw [result_applyBinary, h]
    rfl
  simp only [result_binary_eq, happly]

/-! ## Numbers as arguments -/

/-- The value of the expression is a number, or a text that reads as one. -/
def Gives (scope : Scope) (draws : Draws) (expr : Expr) (x : Decimal) : Prop :=
  ∃ v, expr.result scope draws = .ok v ∧ v.toDecimal? = .ok (some x)

theorem eq_nil_of_arguments {args : List Expr} {values : List (Located Value)}
    (hvalues : results scope draws args = .ok values) (hxs : (arguments values).result = .ok []) :
    args = [] := by
  cases values with
  | cons value values =>
    rw [result_arguments_cons] at hxs
    obtain ⟨x, _, hxs⟩ := eq_ok_of_bind hxs
    obtain ⟨xs, _, hxs⟩ := eq_ok_of_bind hxs
    cases hxs
  | nil =>
    cases args with
    | nil => rfl
    | cons arg args =>
      rw [results_cons] at hvalues
      obtain ⟨v, _, hvalues⟩ := eq_ok_of_bind hvalues
      obtain ⟨rest, _, hvalues⟩ := eq_ok_of_bind hvalues
      cases hvalues

/-- A function that is run on one number has one argument, which gives that number. -/
theorem gives_of_arguments {args : List Expr} {values : List (Located Value)} {x : Decimal}
    (hvalues : results scope draws args = .ok values) (hxs : (arguments values).result = .ok [x]) :
    ∃ arg, args = [arg] ∧ arg.Gives scope draws.first x := by
  cases args with
  | nil =>
    obtain rfl : [] = values := Except.ok.inj hvalues
    cases hxs
  | cons arg args =>
    rw [results_cons] at hvalues
    obtain ⟨v, hv, hvalues⟩ := eq_ok_of_bind hvalues
    obtain ⟨rest, hrest, hvalues⟩ := eq_ok_of_bind hvalues
    obtain rfl := Except.ok.inj hvalues
    rw [result_arguments_cons] at hxs
    obtain ⟨y, hy, hxs⟩ := eq_ok_of_bind hxs
    obtain ⟨ys, hys, hxs⟩ := eq_ok_of_bind hxs
    obtain ⟨rfl, rfl⟩ := List.cons.inj (Except.ok.inj hxs)
    refine ⟨arg, by rw [eq_nil_of_arguments hrest hys], v, hv, ?_⟩
    exact argument_eq_ok_iff.mp (mapError_eq_ok_iff.mp hy)

end Expr

end Abacus
