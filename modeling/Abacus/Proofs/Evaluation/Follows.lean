import Abacus.Proofs.Decimal.Congruence
import Abacus.Proofs.Evaluation.Result
import Abacus.Proofs.Registry

/-!
# Evaluation at other scales

A computation on numbers is compared with the same computation on numbers of the same values.  The
second one follows the first: where the first has a value, the second has the same one, unless a
scale gets out of range there.  The standard operations and functions do so, the square root
excepted, if the numbers are converted to the same binary numbers (`apply_follows`, `run_follows`).
-/

namespace Abacus

open Evaluation

/-! ## Results that follow one another -/

/-- Where the first result is a value, the second is one that is related to it, or an excused
error. -/
def Follows {ε α β : Type} (excused : ε → Prop) (same : α → β → Prop) (first : Except ε α)
    (second : Except ε β) : Prop :=
  ∀ a, first = .ok a →
    (∃ b, second = .ok b ∧ same a b) ∨ ∃ error, second = .error error ∧ excused error

namespace Follows

variable {ε ε' α α' β β' : Type} {excused : ε → Prop} {excused' : ε' → Prop} {same : α → β → Prop}
  {same' : α' → β' → Prop} {first : Except ε α} {second : Except ε β}

theorem ok {a : α} {b : β} (h : same a b) : Follows excused same (.ok a) (.ok b) := by
  intro c hc
  obtain rfl := Except.ok.inj hc
  exact .inl ⟨b, rfl, h⟩

theorem error (error : ε) : Follows excused same (.error error) second := by
  intro a ha
  cases ha

theorem refl {same : α → α → Prop} (hsame : ∀ a, same a a) (result : Except ε α) :
    Follows excused same result result :=
  fun a ha => .inl ⟨a, ha, hsame a⟩

theorem bind {f : α → Except ε α'} {g : β → Except ε β'} (h : Follows excused same first second)
    (hf : ∀ a b, first = .ok a → second = .ok b → same a b → Follows excused same' (f a) (g b)) :
    Follows excused same' (first >>= f) (second >>= g) := by
  cases hfirst : first with
  | error error => exact Follows.error error
  | ok a =>
    rcases h a hfirst with ⟨b, hsecond, hsame⟩ | ⟨error, hsecond, hexcused⟩
    · rw [hsecond]
      exact hf a b hfirst hsecond hsame
    · rw [hsecond]
      exact fun _ _ => .inr ⟨error, rfl, hexcused⟩

theorem map {f : α → α'} {g : β → β'} (h : Follows excused same first second)
    (hf : ∀ a b, same a b → same' (f a) (g b)) :
    Follows excused same' (f <$> first) (g <$> second) := by
  rw [map_eq_pure_bind, map_eq_pure_bind]
  exact h.bind fun a b _ _ hsame => .ok (hf a b hsame)

theorem mono {weaker : α → β → Prop} (h : Follows excused same first second)
    (hmono : ∀ a b, first = .ok a → second = .ok b → same a b → weaker a b) :
    Follows excused weaker first second := by
  intro a ha
  rcases h a ha with ⟨b, hb, hsame⟩ | herror
  · exact .inl ⟨b, hb, hmono a b ha hb hsame⟩
  · exact .inr herror

theorem mapError {f g : ε → ε'} (h : Follows excused same first second)
    (hexcused : ∀ error, excused error → excused' (g error)) :
    Follows excused' same (first.mapError f) (second.mapError g) := by
  cases hfirst : first with
  | error error => exact Follows.error _
  | ok a =>
    rcases h a hfirst with ⟨b, hsecond, hsame⟩ | ⟨error, hsecond, herror⟩
    · rw [hsecond]
      exact Follows.ok hsame
    · rw [hsecond]
      exact fun _ _ => .inr ⟨_, rfl, hexcused _ herror⟩

end Follows

/-- A scale got out of range at some place. -/
def IsOverflow (error : Located EvalError) : Prop := error.val = .arithmetic .scaleOverflow

theorem Follows.placed {α β : Type} {excused : EvalError → Prop} {same : α → β → Prop}
    {first : Except EvalError α} {second : Except EvalError β} (h : Follows excused same first second)
    (span span' : Span) :
    Follows (fun error => excused error.val) same (placed span first) (placed span' second) :=
  h.mapError fun _ herror => herror

/-! ## Values of one kind -/

/-- The numbers have one value and are converted to one binary number. -/
def Decimal.Twins (x x' : Decimal) : Prop := x.value = x'.value ∧ x.toBits = x'.toBits

/-- The values are numbers of one value, or no numbers and equal. -/
def Value.Same : Value → Value → Prop
  | .number x, .number x' => x.value = x'.value
  | v, v' => v = v'

theorem Value.Same.refl (v : Value) : v.Same v := by
  cases v <;> rfl

/-- Values of one kind, with numbers that are converted to one binary number. -/
def Value.Twins (v v' : Value) : Prop :=
  v.Same v' ∧ ∀ x x', v.toDecimal? = .ok (some x) → v'.toDecimal? = .ok (some x') →
    x.toBits = x'.toBits

theorem Decimal.Twins.refl (x : Decimal) : x.Twins x := ⟨rfl, rfl⟩

/-- Values of one kind are equal or numbers. -/
theorem Value.Same.cases {v v' : Value} (h : v.Same v') :
    v = v' ∨ ∃ x x', v = .number x ∧ v' = .number x' ∧ x.value = x'.value := by
  cases v with
  | number x =>
    cases v' with
    | number x' => exact .inr ⟨x, x', rfl, rfl, h⟩
    | _ => exact .inl h
  | _ => exact .inl h

theorem Value.Same.value_eq {v v' : Value} (h : v.Same v') {x x' : Decimal}
    (hx : v.toDecimal? = .ok (some x)) (hx' : v'.toDecimal? = .ok (some x')) :
    x.value = x'.value := by
  rcases h.cases with rfl | ⟨y, y', rfl, rfl, hvalue⟩
  · rw [Option.some.inj (Except.ok.inj (hx.symm.trans hx'))]
  · rw [← Option.some.inj (Except.ok.inj hx), ← Option.some.inj (Except.ok.inj hx'), hvalue]

theorem Value.Twins.toDecimal? {v v' : Value} (h : v.Twins v') :
    Follows (· = .arithmetic .scaleOverflow) (Option.Rel Decimal.Twins) v.toDecimal?
      v'.toDecimal? := by
  rcases h.1.cases with rfl | ⟨x, x', rfl, rfl, hvalue⟩
  · refine .refl ?_ _
    intro number
    cases number with
    | none => exact .none
    | some x => exact .some (.refl x)
  · exact .ok (.some ⟨hvalue, h.2 x x' rfl rfl⟩)

/-! ## Operations -/

theorem operand_follows (op : Arithmetical) {v v' : Value} (h : v.Twins v') :
    Follows (· = .arithmetic .scaleOverflow) Decimal.Twins (op.operand v) (op.operand v') := by
  refine h.toDecimal?.bind ?_
  intro number number' _ _ hnumber
  cases hnumber with
  | none => exact .ok (.refl _)
  | some htwins => exact .ok htwins

variable (settings : Settings)

/-- The standard operations compute with values, and powers also with the binary numbers that their
operands are converted to. -/
theorem compute_agree (op : BinaryOp) {x x' y y' : Decimal} (hx : x.value = x'.value)
    (hy : y.value = y'.value)
    (hbits : op = .pow → x.toBits = x'.toBits ∧ y.toBits = y'.toBits) :
    Decimal.Agree ((Registry.standardOperation settings op).compute x y)
      ((Registry.standardOperation settings op).compute x' y') := by
  cases op with
  | add => exact .ok (by rw [Decimal.value_add, Decimal.value_add, hx, hy])
  | sub => exact .ok (by rw [Decimal.value_sub, Decimal.value_sub, hx, hy])
  | mul => exact Decimal.mul_agree hx hy
  | div => exact Decimal.division_agree settings.division hx hy
  | rem => exact Decimal.rem_agree hx hy
  | pow => exact Decimal.powDecimal_agree hx hy (hbits rfl).1 (hbits rfl).2 settings.precision

/-- The standard operations give values of one kind to values of one kind. -/
theorem apply_follows (op : BinaryOp) {lhs lhs' rhs rhs' : Value} (hlhs : lhs.Twins lhs')
    (hrhs : rhs.Twins rhs') :
    Follows (· = .arithmetic .scaleOverflow) Value.Same
      ((Registry.standardOperation settings op).apply lhs rhs)
      ((Registry.standardOperation settings op).apply lhs' rhs') := by
  refine (operand_follows _ hlhs).bind ?_
  intro x x' _ _ hx
  refine (operand_follows _ hrhs).bind ?_
  intro y y' _ _ hy
  have hagree := compute_agree settings op hx.1 hy.1 fun _ => ⟨hx.2, hy.2⟩
  generalize (Registry.standardOperation settings op).compute x y = result at hagree ⊢
  generalize (Registry.standardOperation settings op).compute x' y' = result' at hagree ⊢
  cases hagree with
  | ok hvalue => exact .ok hvalue
  | error error => exact .error _
  | overflowLeft result => exact .error _
  | overflowRight result => exact fun _ _ => .inr ⟨_, rfl, rfl⟩

/-! ## Arguments -/

theorem results_follow {excused : Located EvalError → Prop} {same : Value → Value → Prop}
    {scope scope' : Scope} {args args' : List Expr}
    (h : List.Forall₂ (fun arg arg' => ∀ draws,
      Follows excused same (arg.result scope draws) (arg'.result scope' draws)) args args')
    (draws : Draws) :
    Follows excused (List.Forall₂ fun value value' => same value.val value'.val)
      (Expr.results scope draws args) (Expr.results scope' draws args') := by
  induction h generalizing draws with
  | nil => exact .ok .nil
  | cons harg _ ih =>
    rw [Expr.results_cons, Expr.results_cons]
    refine (harg _).bind fun v v' _ _ hv => (ih _).bind fun values values' _ _ hvalues => ?_
    exact .ok (.cons hv hvalues)

theorem arguments_follow {excused : EvalError → Prop} {same : Value → Value → Prop}
    {near : Decimal → Decimal → Prop}
    (hargument : ∀ v v', same v v' → Follows excused near (argument v) (argument v'))
    {values values' : List (Located Value)}
    (h : List.Forall₂ (fun value value' => same value.val value'.val) values values') :
    Follows (fun error => excused error.val) (List.Forall₂ near) (arguments values).result
      (arguments values').result := by
  induction h with
  | nil => exact .ok .nil
  | cons hvalue _ ih =>
    rw [result_arguments_cons, result_arguments_cons]
    refine ((hargument _ _ hvalue).placed _ _).bind fun x x' _ _ hx => ?_
    exact ih.bind fun xs xs' _ _ hxs => .ok (.cons hx hxs)

/-- A function that is applied to as many arguments follows itself if it does on the numbers that the
arguments are. -/
theorem applyCallable_follows (excused : EvalError → Prop) {same : Value → Value → Prop}
    {near : List Decimal → List Decimal → Prop} {callee : Callable} {draw : Nat}
    {values values' : List (Located Value)} (hlength : values.length = values'.length)
    (harguments : Follows (fun error => excused error.val) near (arguments values).result
      (arguments values').result)
    (hrun : ∀ xs xs', (arguments values).result = .ok xs → (arguments values').result = .ok xs' →
      near xs xs' → Follows excused same ((callee.run draw xs).mapError .ofCall)
        ((callee.run draw xs').mapError .ofCall))
    (span span' : Span) (name : String) :
    Follows (fun error => excused error.val) same
      (applyCallable callee draw span name values).result
      (applyCallable callee draw span' name values').result := by
  have harity : Follows excused (fun _ _ => True) (callee.checkArity name values.length)
      (callee.checkArity name values'.length) := by
    rw [← hlength]
    exact .refl (fun _ => trivial) _
  rw [result_applyCallable, result_applyCallable]
  refine (harity.placed _ _).bind fun _ _ _ _ _ => ?_
  exact harguments.bind fun xs xs' hxs hxs' hnear => (hrun xs xs' hxs hxs' hnear).placed _ _

theorem argument_follows {v v' : Value} (h : v.Twins v') :
    Follows (· = .arithmetic .scaleOverflow) Decimal.Twins (argument v) (argument v') := by
  refine h.toDecimal?.bind ?_
  intro number number' _ _ hnumber
  cases hnumber with
  | none => exact .error _
  | some htwins => exact .ok htwins

/-! ## Functions -/

/-- With a draw the function gives values of one kind on the two lists of arguments. -/
def RunsAlike (callee : Callable) (draw : Nat) (xs xs' : List Decimal) : Prop :=
  Follows (· = .arithmetic .scaleOverflow) Value.Same (callee.run draw xs) (callee.run draw xs')

variable {draw : Nat} {xs xs' : List Decimal}

theorem ofUnary_follows {f : Decimal → Except CallError Value}
    (h : List.Forall₂ Decimal.Twins xs xs')
    (hf : ∀ x x', xs = [x] → xs' = [x'] → x.Twins x' →
      Follows (· = .arithmetic .scaleOverflow) Value.Same (f x) (f x')) :
    RunsAlike (.ofUnary f) draw xs xs' := by
  cases h with
  | nil => exact .ok rfl
  | cons hx hrest =>
    cases hrest with
    | nil => exact hf _ _ rfl rfl hx
    | cons _ _ => exact .ok rfl

theorem ofBinary_follows {f : Decimal → Decimal → Except CallError Value}
    (h : List.Forall₂ Decimal.Twins xs xs')
    (hf : ∀ x x' y y', x.Twins x' → y.Twins y' →
      Follows (· = .arithmetic .scaleOverflow) Value.Same (f x y) (f x' y')) :
    RunsAlike (.ofBinary f) draw xs xs' := by
  cases h with
  | nil => exact .ok rfl
  | cons hx hrest =>
    cases hrest with
    | nil => exact .ok rfl
    | cons hy hrest =>
      cases hrest with
      | nil => exact hf _ _ _ _ hx hy
      | cons _ _ => exact .ok rfl

theorem sum_follows (h : List.Forall₂ Decimal.Twins xs xs') : RunsAlike .sum draw xs xs' := by
  have hmap : xs.map Decimal.value = xs'.map Decimal.value := by
    induction h with
    | nil => rfl
    | cons hx _ ih => rw [List.map_cons, List.map_cons, hx.1, ih]
  exact .ok (show (Decimal.sum xs).value = (Decimal.sum xs').value by
    rw [Decimal.value_sum, Decimal.value_sum, hmap])

theorem roundTo_follows {x x' scale scale' : Decimal} (hx : x.value = x'.value)
    (hscale : scale.value = scale'.value) :
    Follows (· = .arithmetic .scaleOverflow) Value.Same (Callable.roundTo x scale)
      (Callable.roundTo x' scale') := by
  have hinteger := Decimal.isInteger_congr hscale
  unfold Callable.roundTo
  rw [← hinteger, ← Decimal.toInt64?_congr hscale]
  split
  · exact .error _
  · simp only [Decimal.round_congr hx]
    exact .refl Value.Same.refl _

theorem round_follows (h : List.Forall₂ Decimal.Twins xs xs') : RunsAlike .round draw xs xs' := by
  cases h with
  | nil => exact .ok rfl
  | cons hx hrest =>
    cases hrest with
    | nil =>
      refine .ok (?_ : (Decimal.rescale _ _ _).value = (Decimal.rescale _ _ _).value)
      rw [Decimal.rescale_congr hx.1]
    | cons hscale hrest =>
      cases hrest with
      | nil => exact roundTo_follows hx.1 hscale.1
      | cons _ _ => exact .ok rfl

theorem trigonometric_follows (f : Trigonometric) (h : List.Forall₂ Decimal.Twins xs xs') :
    RunsAlike f.toCallable draw xs xs' := by
  refine ofUnary_follows h ?_
  intro x x' _ _ hx
  rw [Decimal.toFloat, Decimal.toFloat, hx.2]
  exact .refl Value.Same.refl _

/-- The value that the function for square roots gives. -/
def rootValue (precision : Nat) (x : Decimal) : Value :=
  ((x.sqrtWithPrecision precision).map Value.number).getD .void

theorem same_rootValue_iff {precision : Nat} {x x' : Decimal} :
    (rootValue precision x).Same (rootValue precision x') ↔ x.SameRoot precision x' := by
  unfold rootValue Decimal.SameRoot
  cases x.sqrtWithPrecision precision <;> cases x'.sqrtWithPrecision precision <;>
    simp [Value.Same]

/-- The standard functions give values of one kind to numbers of one value, the square root where it
has one value. -/
theorem run_follows {name : String} {callee : Callable}
    (hcallee : (Registry.standard settings).callable? name = some callee)
    (hrandom : name ≠ "random") (h : List.Forall₂ Decimal.Twins xs xs')
    (hroots : name = "sqrt" → ∀ x x', xs = [x] → xs' = [x'] → x.SameRoot settings.precision x') :
    RunsAlike callee draw xs xs' := by
  have hmem := (Registry.callable?_standard_iff settings).mp hcallee
  simp only [Registry.standardCallables, List.mem_cons, Prod.mk.injEq, List.not_mem_nil,
    or_false] at hmem
  rcases hmem with ⟨_, rfl⟩ | ⟨_, rfl⟩ | ⟨_, rfl⟩ | ⟨_, rfl⟩ | ⟨hname, rfl⟩ | ⟨_, rfl⟩ | ⟨_, rfl⟩ |
    ⟨_, rfl⟩ | ⟨_, rfl⟩ | ⟨hname, _⟩
  · refine ofUnary_follows h fun x x' _ _ hx => .ok (?_ : x.abs.value = x'.abs.value)
    rw [Decimal.value_abs, Decimal.value_abs, hx.1]
  · refine ofBinary_follows h fun x x' y y' hx hy => .ok (?_ : (x.max y).value = (x'.max y').value)
    rw [Decimal.value_max, Decimal.value_max, hx.1, hy.1]
  · refine ofBinary_follows h fun x x' y y' hx hy => .ok (?_ : (x.min y).value = (x'.min y').value)
    rw [Decimal.value_min, Decimal.value_min, hx.1, hy.1]
  · exact sum_follows h
  · refine ofUnary_follows h fun x x' hxs hxs' _ => .ok ?_
    exact same_rootValue_iff.mpr (hroots hname x x' hxs hxs')
  · exact round_follows h
  · exact trigonometric_follows _ h
  · exact trigonometric_follows _ h
  · exact trigonometric_follows _ h
  · exact absurd hname hrandom

end Abacus
