import Abacus.Expr.Basic
import Mathlib

/-!
# Expressions up to their places

Two expressions are alike if they are built in the same way, with literals in a given relation; the
spans do not count.  With equality on literals this is equality up to spans.  `Expr.Alike.induction` is
the induction over two such expressions at once.
-/

namespace Abacus

/-- Induction over expressions, with a hypothesis for every argument of a call. -/
theorem Expr.induct {motive : Expr → Prop}
    (number : ∀ span value, motive (.number span value))
    (var : ∀ span name, motive (.var span name))
    (call : ∀ span name args, (∀ arg ∈ args, motive arg) → motive (.call span name args))
    (unary : ∀ span op operand, motive operand → motive (.unary span op operand))
    (binary : ∀ span lhs op rhs, motive lhs → motive rhs → motive (.binary span lhs op rhs))
    (expr : Expr) : motive expr := by
  refine Expr.rec (motive_1 := motive) (motive_2 := fun args => ∀ arg ∈ args, motive arg)
    number var call unary binary (by simp) ?_ expr
  intro first args hfirst hargs arg harg
  rcases List.mem_cons.mp harg with heq | harg
  · exact heq ▸ hfirst
  · exact hargs arg harg

mutual

/-- The expressions are built in the same way, with literals in the relation. -/
def Expr.Alike (same : Decimal → Decimal → Prop) : Expr → Expr → Prop
  | .number _ value, .number _ value' => same value value'
  | .var _ name, .var _ name' => name = name'
  | .call _ name args, .call _ name' args' => name.val = name'.val ∧ AllAlike same args args'
  | .unary _ op operand, .unary _ op' operand' => op.val = op'.val ∧ operand.Alike same operand'
  | .binary _ lhs op rhs, .binary _ lhs' op' rhs' =>
    lhs.Alike same lhs' ∧ op.val = op'.val ∧ rhs.Alike same rhs'
  | _, _ => False

/-- The same of expressions one by one. -/
def AllAlike (same : Decimal → Decimal → Prop) : List Expr → List Expr → Prop
  | [], [] => True
  | arg :: args, arg' :: args' => arg.Alike same arg' ∧ AllAlike same args args'
  | _, _ => False

end

/-- The statements are of one kind, with the same target and expressions built in the same way. -/
def Statement.Alike (same : Decimal → Decimal → Prop) : Statement → Statement → Prop
  | .expression value, .expression value' => value.Alike same value'
  | .assignment _ target value, .assignment _ target' value' =>
    target.val = target'.val ∧ value.Alike same value'
  | _, _ => False

variable {same weaker : Decimal → Decimal → Prop}

theorem allAlike_iff {args args' : List Expr} :
    AllAlike same args args' ↔ List.Forall₂ (Expr.Alike same) args args' := by
  induction args generalizing args' with
  | nil => cases args' <;> simp [AllAlike]
  | cons arg args ih => cases args' <;> simp [AllAlike, ih]

theorem AllAlike.append {args args' more more' : List Expr}
    (h : AllAlike same args args') (hmore : AllAlike same more more') :
    AllAlike same (args ++ more) (args' ++ more') := by
  rw [allAlike_iff] at h hmore ⊢
  exact List.rel_append h hmore

/-- Induction over two expressions that are alike. -/
theorem Expr.Alike.induction {motive : Expr → Expr → Prop}
    (number : ∀ span span' value value', same value value' →
      motive (.number span value) (.number span' value'))
    (var : ∀ span span' name, motive (.var span name) (.var span' name))
    (call : ∀ span span' name name' args args', name.val = name'.val →
      List.Forall₂ (Expr.Alike same) args args' → List.Forall₂ motive args args' →
      motive (.call span name args) (.call span' name' args'))
    (unary : ∀ span span' op op' operand operand', op.val = op'.val →
      operand.Alike same operand' → motive operand operand' →
      motive (.unary span op operand) (.unary span' op' operand'))
    (binary : ∀ span span' lhs lhs' op op' rhs rhs', op.val = op'.val →
      lhs.Alike same lhs' → rhs.Alike same rhs' → motive lhs lhs' → motive rhs rhs' →
      motive (.binary span lhs op rhs) (.binary span' lhs' op' rhs'))
    {expr expr' : Expr} (h : expr.Alike same expr') : motive expr expr' := by
  induction expr using Expr.induct generalizing expr' with
  | number span value =>
    cases expr' with
    | number span' value' => exact number _ _ _ _ h
    | _ => exact h.elim
  | var span name =>
    cases expr' with
    | var span' name' =>
      obtain rfl : name = name' := h
      exact var _ _ _
    | _ => exact h.elim
  | call span name args ih =>
    cases expr' with
    | call span' name' args' =>
      have hargs := allAlike_iff.mp h.2
      refine call _ _ _ _ _ _ h.1 hargs ?_
      exact List.forall₂_iff_zip.mpr ⟨hargs.length_eq, fun hmem =>
        ih _ (List.of_mem_zip hmem).1 (List.forall₂_zip hargs hmem)⟩
    | _ => exact h.elim
  | unary span op operand ih =>
    cases expr' with
    | unary span' op' operand' => exact unary _ _ _ _ _ _ h.1 h.2 (ih h.2)
    | _ => exact h.elim
  | binary span lhs op rhs ihlhs ihrhs =>
    cases expr' with
    | binary span' lhs' op' rhs' =>
      exact binary _ _ _ _ _ _ _ _ h.2.1 h.1 h.2.2 (ihlhs h.1) (ihrhs h.2.2)
    | _ => exact h.elim

theorem Expr.Alike.mono (h : ∀ value value', same value value' → weaker value value')
    {expr expr' : Expr} (halike : expr.Alike same expr') : expr.Alike weaker expr' := by
  refine Expr.Alike.induction (motive := Expr.Alike weaker) ?number ?var ?call ?unary ?binary halike
  case number => exact fun _ _ value value' hsame => h value value' hsame
  case var => exact fun _ _ _ => rfl
  case call => exact fun _ _ _ _ _ _ hname _ ih => ⟨hname, allAlike_iff.mpr ih⟩
  case unary => exact fun _ _ _ _ _ _ hop _ ih => ⟨hop, ih⟩
  case binary => exact fun _ _ _ _ _ _ _ _ hop _ _ ihlhs ihrhs => ⟨ihlhs, hop, ihrhs⟩

theorem Expr.Alike.symm (h : ∀ value value', same value value' → same value' value)
    {expr expr' : Expr} (halike : expr.Alike same expr') : expr'.Alike same expr := by
  refine Expr.Alike.induction (motive := fun expr expr' => expr'.Alike same expr)
    ?number ?var ?call ?unary ?binary halike
  case number => exact fun _ _ value value' hsame => h value value' hsame
  case var => exact fun _ _ _ => rfl
  case call =>
    exact fun _ _ _ _ _ _ hname _ ih => ⟨hname.symm, allAlike_iff.mpr ih.flip⟩
  case unary => exact fun _ _ _ _ _ _ hop _ ih => ⟨hop.symm, ih⟩
  case binary => exact fun _ _ _ _ _ _ _ _ hop _ _ ihlhs ihrhs => ⟨ihlhs, hop.symm, ihrhs⟩

/-- A relation of lists one by one is transitive if it is at every place. -/
theorem forall₂_of_steps {related : Expr → Expr → Prop} {args args' args'' : List Expr}
    (h : List.Forall₂ (fun arg arg' => ∀ arg'', related arg' arg'' → related arg arg'') args args')
    (hnext : List.Forall₂ related args' args'') : List.Forall₂ related args args'' := by
  induction h generalizing args'' with
  | nil => exact hnext
  | cons hfirst _ ih =>
    cases hnext with
    | cons hfirst' hrest' => exact .cons (hfirst _ hfirst') (ih hrest')

theorem Expr.Alike.trans (h : ∀ x y z, same x y → same y z → same x z)
    {expr expr' expr'' : Expr} (halike : expr.Alike same expr') (hnext : expr'.Alike same expr'') :
    expr.Alike same expr'' := by
  refine Expr.Alike.induction
    (motive := fun expr expr' => ∀ expr'', expr'.Alike same expr'' → expr.Alike same expr'')
    ?number ?var ?call ?unary ?binary halike expr'' hnext
  case number =>
    intro _ _ value value' hsame expr'' hnext
    cases expr'' with
    | number _ value'' => exact h value value' value'' hsame hnext
    | _ => exact hnext.elim
  case var =>
    intro _ _ name expr'' hnext
    cases expr'' with
    | var _ name'' => exact hnext
    | _ => exact hnext.elim
  case call =>
    intro _ _ name name' args args' hname _ ih expr'' hnext
    cases expr'' with
    | call _ name'' args'' =>
      have hargs := forall₂_of_steps ih (allAlike_iff.mp hnext.2)
      exact ⟨hname.trans hnext.1, allAlike_iff.mpr hargs⟩
    | _ => exact hnext.elim
  case unary =>
    intro _ _ op op' operand operand' hop _ ih expr'' hnext
    cases expr'' with
    | unary _ op'' operand'' => exact ⟨hop.trans hnext.1, ih _ hnext.2⟩
    | _ => exact hnext.elim
  case binary =>
    intro _ _ lhs lhs' op op' rhs rhs' hop _ _ ihlhs ihrhs expr'' hnext
    cases expr'' with
    | binary _ lhs'' op'' rhs'' =>
      exact ⟨ihlhs _ hnext.1, hop.trans hnext.2.1, ihrhs _ hnext.2.2⟩
    | _ => exact hnext.elim

/-- Statements that are alike are two expressions or two assignments. -/
theorem Statement.Alike.cases {statement statement' : Statement}
    (h : statement.Alike same statement') :
    (∃ value value', statement = .expression value ∧ statement' = .expression value' ∧
      value.Alike same value') ∨
    ∃ span target value span' target' value', statement = .assignment span target value ∧
      statement' = .assignment span' target' value' ∧ target.val = target'.val ∧
      value.Alike same value' := by
  cases statement with
  | expression value =>
    cases statement' with
    | expression value' => exact .inl ⟨value, value', rfl, rfl, h⟩
    | assignment _ _ _ => exact h.elim
  | assignment span target value =>
    cases statement' with
    | expression _ => exact h.elim
    | assignment span' target' value' => exact .inr ⟨_, _, _, _, _, _, rfl, rfl, h⟩

theorem Statement.Alike.mono (h : ∀ value value', same value value' → weaker value value')
    {statement statement' : Statement} (halike : statement.Alike same statement') :
    statement.Alike weaker statement' := by
  obtain ⟨value, value', rfl, rfl, hvalue⟩ |
    ⟨_, _, value, _, _, value', rfl, rfl, htarget, hvalue⟩ := halike.cases
  · exact Expr.Alike.mono h hvalue
  · exact ⟨htarget, Expr.Alike.mono h hvalue⟩

theorem Statement.Alike.symm (h : ∀ value value', same value value' → same value' value)
    {statement statement' : Statement} (halike : statement.Alike same statement') :
    statement'.Alike same statement := by
  obtain ⟨value, value', rfl, rfl, hvalue⟩ |
    ⟨_, _, value, _, _, value', rfl, rfl, htarget, hvalue⟩ := halike.cases
  · exact Expr.Alike.symm h hvalue
  · exact ⟨htarget.symm, Expr.Alike.symm h hvalue⟩

theorem Statement.Alike.trans (h : ∀ x y z, same x y → same y z → same x z)
    {statement statement' statement'' : Statement} (halike : statement.Alike same statement')
    (hnext : statement'.Alike same statement'') : statement.Alike same statement'' := by
  cases statement <;> cases statement' <;> cases statement'' <;>
    first
      | exact halike.elim
      | exact hnext.elim
      | exact Expr.Alike.trans h halike hnext
      | exact ⟨halike.1.trans hnext.1, halike.2.trans h hnext.2⟩

/-- Parentheses change nothing but the place. -/
theorem Expr.Alike.parenthesized {expr expr' : Expr} (h : expr.Alike same expr') (outer : Span) :
    expr.Alike same (expr'.parenthesized outer) := by
  cases expr <;> cases expr' <;> exact h

theorem Expr.Alike.parenthesized_left {expr expr' : Expr} (h : expr.Alike same expr')
    (outer : Span) : (expr.parenthesized outer).Alike same expr' := by
  cases expr <;> cases expr' <;> exact h

/-! ## What holds at all places -/

mutual

/-- The relation holds of the two expressions and of those at the same places in them. -/
def Expr.Everywhere (related : Expr → Expr → Prop) : Expr → Expr → Prop
  | .call span name args, .call span' name' args' =>
    related (.call span name args) (.call span' name' args') ∧ EverywhereOf related args args'
  | .unary span op operand, .unary span' op' operand' =>
    related (.unary span op operand) (.unary span' op' operand') ∧
      operand.Everywhere related operand'
  | .binary span lhs op rhs, .binary span' lhs' op' rhs' =>
    related (.binary span lhs op rhs) (.binary span' lhs' op' rhs') ∧
      lhs.Everywhere related lhs' ∧ rhs.Everywhere related rhs'
  | expr, expr' => related expr expr'

/-- The same of expressions one by one. -/
def EverywhereOf (related : Expr → Expr → Prop) : List Expr → List Expr → Prop
  | [], [] => True
  | arg :: args, arg' :: args' => arg.Everywhere related arg' ∧ EverywhereOf related args args'
  | _, _ => False

end

/-- The relation holds at all places of the values of two statements. -/
def Statement.Everywhere (related : Expr → Expr → Prop) : Statement → Statement → Prop
  | .expression value, .expression value' => value.Everywhere related value'
  | .assignment _ _ value, .assignment _ _ value' => value.Everywhere related value'
  | _, _ => False

theorem everywhereOf_iff {related : Expr → Expr → Prop} {args args' : List Expr} :
    EverywhereOf related args args' ↔ List.Forall₂ (Expr.Everywhere related) args args' := by
  induction args generalizing args' with
  | nil => cases args' <;> simp [EverywhereOf]
  | cons arg args ih => cases args' <;> simp [EverywhereOf, ih]

theorem Expr.Everywhere.here {related : Expr → Expr → Prop} {expr expr' : Expr}
    (h : expr.Everywhere related expr') : related expr expr' := by
  cases expr <;> cases expr' <;> first | exact h | exact h.1

theorem Expr.Everywhere.mono {related weaker : Expr → Expr → Prop}
    (h : ∀ expr expr', related expr expr' → weaker expr expr') {expr expr' : Expr}
    (hall : expr.Everywhere related expr') : expr.Everywhere weaker expr' := by
  induction expr using Expr.induct generalizing expr' with
  | number span value => cases expr' <;> exact h _ _ hall
  | var span name => cases expr' <;> exact h _ _ hall
  | call span name args ih =>
    cases expr' with
    | call span' name' args' =>
      have hargs := everywhereOf_iff.mp hall.2
      refine ⟨h _ _ hall.1, everywhereOf_iff.mpr ?_⟩
      exact List.forall₂_iff_zip.mpr ⟨hargs.length_eq, fun hmem =>
        ih _ (List.of_mem_zip hmem).1 (List.forall₂_zip hargs hmem)⟩
    | _ => exact h _ _ hall
  | unary span op operand ih =>
    cases expr' with
    | unary span' op' operand' => exact ⟨h _ _ hall.1, ih hall.2⟩
    | _ => exact h _ _ hall
  | binary span lhs op rhs ihlhs ihrhs =>
    cases expr' with
    | binary span' lhs' op' rhs' =>
      exact ⟨h _ _ hall.1, ihlhs hall.2.1, ihrhs hall.2.2⟩
    | _ => exact h _ _ hall

mutual

/-- The names of the functions that an expression calls. -/
def Expr.called : Expr → List String
  | .number _ _ | .var _ _ => []
  | .call _ name args => name.val :: calledAll args
  | .unary _ _ operand => operand.called
  | .binary _ lhs _ rhs => lhs.called ++ rhs.called

/-- The names of the functions that several expressions call. -/
def calledAll : List Expr → List String
  | [] => []
  | arg :: args => arg.called ++ calledAll args

end

/-- The names of the functions that a statement calls. -/
def Statement.called : Statement → List String
  | .expression value | .assignment _ _ value => value.called

theorem mem_calledAll {name : String} {args : List Expr} :
    name ∈ calledAll args ↔ ∃ arg ∈ args, name ∈ arg.called := by
  induction args with
  | nil => simp [calledAll]
  | cons arg args ih => simp [calledAll, ih]

/-! ## What holds of all words -/

mutual

/-- The literals and names of an expression have these properties. -/
def Expr.EveryWord (literal : Decimal → Prop) (name : String → Prop) : Expr → Prop
  | .number _ value => literal value
  | .var _ x => name x
  | .call _ f args => name f.val ∧ EveryWordOf literal name args
  | .unary _ _ operand => operand.EveryWord literal name
  | .binary _ lhs _ rhs => lhs.EveryWord literal name ∧ rhs.EveryWord literal name

/-- The same of several expressions. -/
def EveryWordOf (literal : Decimal → Prop) (name : String → Prop) : List Expr → Prop
  | [] => True
  | arg :: args => arg.EveryWord literal name ∧ EveryWordOf literal name args

end

theorem everyWordOf_iff {literal : Decimal → Prop} {name : String → Prop} {args : List Expr} :
    EveryWordOf literal name args ↔ ∀ arg ∈ args, arg.EveryWord literal name := by
  induction args with
  | nil => simp [EveryWordOf]
  | cons arg args ih => simp [EveryWordOf, ih]

theorem Expr.EveryWord.parenthesized {literal : Decimal → Prop} {name : String → Prop} {expr : Expr}
    (h : expr.EveryWord literal name) (outer : Span) :
    (expr.parenthesized outer).EveryWord literal name := by
  cases expr <;> exact h

end Abacus
