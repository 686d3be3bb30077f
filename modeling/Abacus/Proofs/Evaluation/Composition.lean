import Abacus.Formula
import Abacus.Proofs.Evaluation.Follows
import Abacus.Proofs.Evaluation.Session
import Abacus.Proofs.Evaluation.Steady
import Abacus.Proofs.Reading.Composition

/-!
# The value of an operand of a composed formula

A composed formula has the entries and the functions of its first operand, and those of the second one
where the first has none.  What the first operand uses it has, so an entry keeps its meaning; but a name
that it takes from the registry may mean a function of the second one (`Scope.Replaces`).  Where no such
name is called, the operand has the value that it has alone: `compose_keeps_left`.
-/

namespace Abacus

open Evaluation

/-! ## Wider scopes -/

namespace Scope

variable {scope other : Scope} {name : String}

theorem entry?_inheritFrom : Scope.entry? (scope.inheritFrom other) name =
    (scope.entry? name).or (other.entry? name) :=
  Table.getElem?_override ..

theorem callable?_inheritFrom : (scope.inheritFrom other).callable? name =
    (scope.callables[name]?.or other.callables[name]?).or (scope.registry.callable? name) := by
  rw [callable?_eq, inheritFrom, Table.getElem?_override]

/-- The function of `other` with the name takes the place of what the scope has from its registry. -/
def Replaces (other scope : Scope) (name : String) : Prop :=
  scope.callables[name]? = none ∧
    ∃ callee, other.callables[name]? = some callee ∧ scope.registry.callable? name ≠ some callee

/-- A name keeps its meaning exactly where the function that it means is not replaced. -/
theorem callable?_inheritFrom_eq_iff :
    (scope.inheritFrom other).callable? name = scope.callable? name ↔
      ¬ other.Replaces scope name := by
  rw [callable?_inheritFrom, callable?_eq, Replaces]
  cases scope.callables[name]? with
  | some callee => simp
  | none =>
    cases other.callables[name]? with
    | none => simp
    | some callee => simp [eq_comm]

end Scope

/-- Where the first result is a value, the second is the same one. -/
abbrev Stays {ε α : Type} (first second : Except ε α) : Prop :=
  Follows (fun _ => False) (· = ·) first second

theorem Stays.eq_ok {ε α : Type} {first second : Except ε α} (h : Stays first second) {a : α}
    (hfirst : first = .ok a) : second = .ok a := by
  rcases h a hfirst with ⟨b, hsecond, rfl⟩ | ⟨_, _, hexcused⟩
  · exact hsecond
  · exact hexcused.elim

theorem Stays.placed {α : Type} (result : Except EvalError α) (span span' : Span) :
    Stays (placed span result) (placed span' result) :=
  Follows.mapError (.refl (fun _ => rfl) result) fun _ h => h

variable {scope wider : Scope}

theorem stays_applyUnary (hregistry : wider.registry = scope.registry) {op op' : Located UnaryOp}
    (hop : op.val = op'.val) (span span' : Span) (v : Value) :
    Stays (applyUnary scope span op v).result (applyUnary wider span' op' v).result := by
  rw [result_applyUnary, result_applyUnary, hregistry, ← hop]
  cases scope.registry.operator? op.val.symbol with
  | none => exact .error _
  | some operator =>
    refine Follows.bind (.ok rfl) fun operator _ _ _ heq => ?_
    subst heq
    split
    · exact Stays.placed _ _ _
    · exact .error _

theorem stays_applyBinary (hregistry : wider.registry = scope.registry) {op op' : Located BinaryOp}
    (hop : op.val = op'.val) (span span' : Span) (x y : Value) :
    Stays (applyBinary scope span op x y).result (applyBinary wider span' op' x y).result := by
  rw [result_applyBinary, result_applyBinary, hregistry, ← hop]
  cases scope.registry.operator? op.val.symbol with
  | none => exact .error _
  | some operator =>
    refine Follows.bind (.ok rfl) fun operator _ _ _ heq => ?_
    subst heq
    exact Stays.placed _ _ _

theorem stays_call {span span' : Span} {name name' : Located String} {args args' : List Expr}
    (hname : name.val = name'.val) (hcallee : wider.callable? name.val = scope.callable? name.val)
    (h : List.Forall₂ (fun arg arg' => ∀ draws,
      Stays (arg.result scope draws) (arg'.result wider draws)) args args') (draws : Draws) :
    Stays ((Expr.call span name args).result scope draws)
      ((Expr.call span' name' args').result wider draws) := by
  cases hscope : scope.callable? name.val with
  | none =>
    rw [Expr.result_call_none hscope]
    exact .error _
  | some callee =>
    rw [Expr.result_call hscope, Expr.result_call (hname ▸ hcallee.trans hscope), ← hname]
    refine (results_follow h draws).bind fun values values' _ _ hvalues => ?_
    have hargument : ∀ v v' : Value, v = v' →
        Follows (fun _ => False) (· = ·) (argument v) (argument v') := by
      intro v v' heq
      exact heq ▸ .refl (fun _ => rfl) _
    -- the values are the same ones, but stand at other places
    refine applyCallable_follows (fun _ => False) hvalues.length_eq
      (arguments_follow hargument hvalues) ?_ _ _ _
    intro xs xs' _ _ hxs
    rw [List.forall₂_eq_eq_eq] at hxs
    subst hxs
    exact .refl (fun _ => rfl) _

/-- An expression that has a value keeps it at another place and in a wider scope, where the names of
functions in it mean the same. -/
theorem result_stays (hregistry : wider.registry = scope.registry)
    (hentries : ∀ name v, scope.entry? name = some v → wider.entry? name = some v)
    {expr expr' : Expr} (halike : expr.Alike (· = ·) expr')
    (hcalled : ∀ name ∈ expr.called, wider.callable? name = scope.callable? name) (draws : Draws) :
    Stays (expr.result scope draws) (expr'.result wider draws) := by
  revert hcalled draws
  refine Expr.Alike.induction (motive := fun expr expr' =>
    (∀ name ∈ expr.called, wider.callable? name = scope.callable? name) →
      ∀ draws, Stays (expr.result scope draws) (expr'.result wider draws))
    ?number ?var ?call ?unary ?binary halike
  case number =>
    intro _ _ value value' heq _ _
    exact .ok (congrArg Value.number heq)
  case var =>
    intro _ _ name _ _
    rw [Expr.result_var, Expr.result_var]
    cases hentry : scope.entry? name with
    | none => exact .error _
    | some v =>
      rw [hentries name v hentry]
      exact .ok rfl
  case call =>
    intro span span' name name' args args' hname _ ih hcalled draws
    rw [Expr.called] at hcalled
    have hargs := (List.forall₂_and_left args args').mpr ⟨fun arg hmem other hother =>
      hcalled other (List.mem_cons_of_mem _ (mem_calledAll.mpr ⟨arg, hmem, hother⟩)), ih⟩
    exact stays_call hname (hcalled _ List.mem_cons_self) (hargs.imp fun _ _ h => h.2 h.1) draws
  case unary =>
    intro span span' op op' operand operand' hop _ ih hcalled draws
    rw [Expr.result_unary_eq, Expr.result_unary_eq]
    refine (ih hcalled _).bind fun v _ _ _ heq => ?_
    exact heq ▸ stays_applyUnary hregistry hop span span' v
  case binary =>
    intro span span' lhs lhs' op op' rhs rhs' hop _ _ ihlhs ihrhs hcalled draws
    have hlhs := ihlhs fun name hmem => hcalled name (List.mem_append_left _ hmem)
    have hrhs := ihrhs fun name hmem => hcalled name (List.mem_append_right _ hmem)
    rw [Expr.result_binary_eq, Expr.result_binary_eq]
    refine (hlhs _).bind fun x _ _ _ hx => (hrhs _).bind fun y _ _ _ hy => ?_
    subst hx hy
    exact stays_applyBinary hregistry hop span span' x y

/-- Where a scope inherits, what it meant before stays, but for functions that are replaced. -/
theorem stays_inheritFrom {other : Scope} {expr expr' : Expr} (halike : expr.Alike (· = ·) expr')
    (hcalled : ∀ name ∈ expr.called, ¬ other.Replaces scope name) (draws : Draws) :
    Stays (expr.result scope draws) (expr'.result (scope.inheritFrom other) draws) := by
  have hregistry : (scope.inheritFrom other).registry = scope.registry := rfl
  refine result_stays hregistry ?_ halike (fun name hmem =>
    Scope.callable?_inheritFrom_eq_iff.mpr (hcalled name hmem)) draws
  intro name v hentry
  rw [Scope.entry?_inheritFrom, hentry]
  rfl

/-! ## Composed formulas -/

/-- An expression gives its value and leaves the scope as it was. -/
theorem Scope.evaluate_expression (scope : Scope) (draws : Draws) (expr : Expr) :
    scope.evaluate draws (.expression expr) = (expr.result scope draws).map fun v => (v, scope) := by
  have hrun := settled_evaluate scope draws expr
  rw [Settled] at hrun
  rw [evaluate, evaluateWith, Statement.evaluate]
  change ((expr.evaluate scope draws).run .start >>= _) = _
  rw [hrun]
  change ((fun v => (v, Session.start)) <$> expr.result scope draws >>= _) = _
  cases expr.result scope draws with
  | error error => rfl
  | ok v => exact congrArg (fun after => Except.ok (v, after)) (Scope.commit_empty [])

namespace Formula

theorem statement_eq_ok_iff {formula : Formula} {statement : Statement} :
    formula.statement = .ok statement ↔
      Statement.parse? formula.scope.registry.grammar formula.source.toList = .ok statement :=
  mapError_eq_ok_iff

/-- A formula that is an expression gives the value of the expression and stays as it is. -/
theorem evaluate_expression {formula : Formula} {expr : Expr}
    (h : formula.statement = .ok (.expression expr)) (draws : Draws) :
    formula.evaluate draws = ((expr.result formula.scope draws).map fun v => (v, formula)).mapError
      fun error => .refused (.ofEval formula.source.toList error) := by
  have hscoped := Scope.evaluate_expression formula.scope draws expr
  rw [Scope.evaluate] at hscoped
  rw [evaluate, evaluateWith, h]
  change (Except.mapError _ (formula.scope.evaluateWith draws (.expression expr) []) >>= _) = _
  rw [hscoped]
  cases expr.result formula.scope draws <;> rfl

theorem evaluate_eq_ok_iff {formula after : Formula} {draws : Draws} {expr : Expr} {v : Value}
    (h : formula.statement = .ok (.expression expr)) :
    formula.evaluate draws = .ok (v, after) ↔
      expr.result formula.scope draws = .ok v ∧ formula = after := by
  rw [evaluate_expression h, mapError_eq_ok_iff]
  cases expr.result formula.scope draws <;> simp [Except.map]

/-- The first operand of a composed formula is read as it is alone, and has the same value with the same
draws, where no function that it calls is replaced by one of the second operand; with any draws if none of
these functions draws.  So the value of the composed formula is that of the operation on this value and
that of the second operand.  The priority of the operation must leave room for the second operand. -/
theorem compose_keeps_left {f g : Formula} {lhs rhs : Expr} {draws : Draws} {v : Value}
    {after : Formula} (hregistry : f.scope.registry = g.scope.registry)
    (hlhs : f.statement = .ok (.expression lhs)) (hrhs : g.statement = .ok (.expression rhs))
    (hvalue : f.evaluate draws = .ok (v, after))
    (hcalled : ∀ name ∈ lhs.called, ¬ g.scope.Replaces f.scope name) {op : BinaryOp}
    (hop : ¬ Reading.AtTop f.scope.registry.grammar op) :
    ∃ span place lhs' rhs',
      (f.compose op g).statement = .ok (.expression (.binary span lhs' ⟨place, op⟩ rhs')) ∧
      lhs.Alike (· = ·) lhs' ∧ rhs.Alike (· = ·) rhs' ∧
      ∀ draws', draws'.first = draws ∨ f.scope.Steady lhs.called →
        lhs'.result (f.compose op g).scope draws'.first = .ok v ∧
        (f.compose op g).evaluate draws' =
          ((rhs'.result (f.compose op g).scope draws'.second >>= fun y =>
            (applyBinary (f.compose op g).scope span ⟨place, op⟩ v y).result).map fun w =>
              (w, f.compose op g)).mapError fun error =>
                .refused (.ofEval (f.compose op g).source.toList error) := by
  have hparse := statement_eq_ok_iff.mp hlhs
  have hparse' := statement_eq_ok_iff.mp hrhs
  rw [← hregistry] at hparse'
  obtain ⟨span, place, lhs', rhs', hcomposed, hleft, hright⟩ :=
    (Reading.parse?_composed op hparse hparse').1 hop
  have hstatement : (f.compose op g).statement =
      .ok (.expression (.binary span lhs' ⟨place, op⟩ rhs')) := by
    rw [statement_eq_ok_iff]
    exact hcomposed
  refine ⟨span, place, lhs', rhs', hstatement, hleft, hright, fun draws' hdraws => ?_⟩
  have halone : lhs.result f.scope draws'.first = .ok v := by
    have hresult := ((evaluate_eq_ok_iff hlhs).mp hvalue).1
    rcases hdraws with rfl | hsteady
    · exact hresult
    · exact (Expr.result_eq_of_steady hsteady _ _).trans hresult
  have hvalue' : lhs'.result (f.compose op g).scope draws'.first = .ok v :=
    (stays_inheritFrom hleft hcalled draws'.first).eq_ok halone
  refine ⟨hvalue', ?_⟩
  rw [evaluate_expression hstatement, Expr.result_binary_eq, hvalue']
  rfl

/-- Both operands have a variable `a` and a function `sum`.  Those of the first one count. -/
theorem compose_keeps_left_of_shared_names :
    ∃ f g, f = withCallable ⟨"sum(a, abs(-3))",
          (Scope.ofRegistry (.standard .default)).insert (.fresh "a" (.number ⟨2, 0⟩))⟩ "sum" .max ∧
        g = withCallable ⟨"a",
          (Scope.ofRegistry (.standard .default)).insert (.fresh "a" (.number ⟨7, 0⟩))⟩ "sum" .min ∧
      f.evaluate (fun _ => 0) = .ok (.number ⟨3, 0⟩, f) ∧
      ∃ span place lhs' rhs',
        (f.multiply g).statement = .ok (.expression (.binary span lhs' ⟨place, .mul⟩ rhs')) ∧
        ∀ draws : Draws, lhs'.result (f.multiply g).scope draws.first = .ok (.number ⟨3, 0⟩) := by
  refine ⟨_, _, rfl, rfl, ?_⟩
  generalize hf : withCallable ⟨"sum(a, abs(-3))",
    (Scope.ofRegistry (.standard .default)).insert (.fresh "a" (.number ⟨2, 0⟩))⟩ "sum" .max = f
  generalize hg : withCallable ⟨"a",
    (Scope.ofRegistry (.standard .default)).insert (.fresh "a" (.number ⟨7, 0⟩))⟩ "sum" .min = g
  have hlhs : f.statement = .ok (.expression (.call ⟨0, 15, 1⟩ ⟨⟨0, 3, 1⟩, "sum"⟩
      [.var ⟨4, 1, 1⟩ "a", .call ⟨7, 7, 1⟩ ⟨⟨7, 3, 1⟩, "abs"⟩
        [.unary ⟨11, 2, 1⟩ ⟨⟨11, 1, 1⟩, .minus⟩ (.number ⟨12, 1, 1⟩ ⟨3, 0⟩)]])) := by
    rw [← hf]
    cbv
  have hrhs : g.statement = .ok (.expression (.var ⟨0, 1, 1⟩ "a")) := by
    rw [← hg]
    cbv
  have hvalue : f.evaluate (fun _ => 0) = .ok (.number ⟨3, 0⟩, f) := by
    rw [evaluate_eq_ok_iff hlhs, ← hf]
    exact ⟨rfl, rfl⟩
  have hregistry : f.scope.registry = g.scope.registry := by
    rw [← hf, ← hg]
    rfl
  have hsum : f.scope.callables["sum"]? = some .max := by
    rw [← hf]
    exact Std.ExtTreeMap.getElem?_insert_self
  have habs : g.scope.callables["abs"]? = none := by
    rw [← hg]
    rfl
  have hstandard : f.scope.registry = .standard .default := by
    rw [← hf]
    rfl
  have hroom : ¬ Reading.AtTop f.scope.registry.grammar .mul :=
    hstandard ▸ Reading.not_atTop_standard .default .mul
  -- the functions that the first operand calls
  have hnames : ∀ name ∈ ["sum", "abs"], name = "sum" ∨ name = "abs" := by simp
  have hown : ∀ name ∈ ["sum", "abs"], ¬ g.scope.Replaces f.scope name := by
    intro name hmem hreplaces
    obtain ⟨hnone, callee, hcallee, _⟩ := hreplaces
    rcases hnames name hmem with rfl | rfl
    · rw [hsum] at hnone
      cases hnone
    · rw [habs] at hcallee
      cases hcallee
  have hsteady : f.scope.Steady ["sum", "abs"] := by
    refine Scope.steady_of_standard hstandard fun name hmem => ?_
    rcases hnames name hmem with rfl | rfl
    · refine ⟨by decide, fun callee hcallee => ?_⟩
      obtain rfl := Option.some.inj (hsum.symm.trans hcallee)
      exact Callable.steady_ofBinary _
    · refine ⟨by decide, fun callee hcallee => ?_⟩
      rw [← hf] at hcallee
      cases hcallee
  obtain ⟨span, place, lhs', rhs', hstatement, _, _, hkept⟩ :=
    compose_keeps_left hregistry hlhs hrhs hvalue hown hroom
  exact ⟨hvalue, span, place, lhs', rhs', hstatement, fun draws => (hkept draws (.inr hsteady)).1⟩

/-- The function that the first operand calls is replaced by one of the second operand, and its value
changes with it. -/
theorem multiply_changes_left :
    ∃ lhs rhs span place lhs' rhs',
      (ofSource "abs(-3)").statement = .ok (.expression lhs) ∧
      ((ofSource "2").withCallable "abs" .sum).statement = .ok (.expression rhs) ∧
      (∀ draws, (ofSource "abs(-3)").evaluate draws =
        .ok (.number ⟨3, 0⟩, ofSource "abs(-3)")) ∧
      ((ofSource "abs(-3)").multiply ((ofSource "2").withCallable "abs" .sum)).statement =
        .ok (.expression (.binary span lhs' ⟨place, .mul⟩ rhs')) ∧
      ∀ draws, lhs'.result
          ((ofSource "abs(-3)").multiply ((ofSource "2").withCallable "abs" .sum)).scope draws =
        .ok (.number ⟨-3, 0⟩) := by
  have hlhs : (ofSource "abs(-3)").statement = .ok (.expression (.call ⟨0, 7, 1⟩
      ⟨⟨0, 3, 1⟩, "abs"⟩ [.unary ⟨4, 2, 1⟩ ⟨⟨4, 1, 1⟩, .minus⟩ (.number ⟨5, 1, 1⟩ ⟨3, 0⟩)])) := by
    cbv
  refine ⟨_, .number ⟨0, 1, 1⟩ ⟨2, 0⟩, ⟨0, 15, 1⟩, ⟨10, 1, 1⟩, .call ⟨0, 9, 1⟩ ⟨⟨1, 3, 1⟩, "abs"⟩
    [.unary ⟨5, 2, 1⟩ ⟨⟨5, 1, 1⟩, .minus⟩ (.number ⟨6, 1, 1⟩ ⟨3, 0⟩)], .number ⟨12, 3, 1⟩ ⟨2, 0⟩,
    hlhs, by cbv, ?_, by cbv, ?_⟩
  · intro draws
    rw [evaluate_eq_ok_iff hlhs]
    exact ⟨rfl, rfl⟩
  · exact fun _ => rfl

end Formula

end Abacus
