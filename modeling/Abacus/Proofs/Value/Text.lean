import Abacus.Proofs.Decimal.Interchange
import Abacus.Proofs.Evaluation.Follows
import Abacus.Proofs.Value.Order

/-!
# Numbers written as texts

The text of a number reads as a number of the same value (`toNumeral_text_toText`), so most operations can
take the text in its place.  Arithmetic reads the text.  Comparison also does, or looks only at the text
that the two values share.  The words for truth values have two numbers among them, `1` and `0`, and these
mean what the numbers do (`isTruthy_text`).

The main statement is `text_stands_for_number`.
-/

namespace Abacus

open Evaluation

namespace Value

variable {a b : Value} {x z : Decimal}

/-- The text of a number, read again. -/
theorem toNumeral_text_toText (h : x.scale ≤ 2147483647) :
    ∃ z : Decimal, (Value.text x.toText).toNumeral = .number z ∧ z.value = x.value := by
  have hread := Decimal.ofText?_toText_of_le h
  exact ⟨_, toNumeral_text_eq_number_iff.mpr hread, Decimal.value_of_ofText?_toText hread⟩

/-! ## Arithmetic -/

/-- Two answers are numbers of one value, or one error, unless a scale is out of range in one of them. -/
inductive SameAnswer : Except EvalError Value → Except EvalError Value → Prop
  | number {z z' : Decimal} (h : z.sameValue z' = true) :
      SameAnswer (.ok (.number z)) (.ok (.number z'))
  | error (error : EvalError) : SameAnswer (.error error) (.error error)
  | overflowLeft (answer : Except EvalError Value) :
      SameAnswer (.error (.arithmetic .scaleOverflow)) answer
  | overflowRight (answer : Except EvalError Value) :
      SameAnswer answer (.error (.arithmetic .scaleOverflow))

/-- The values are equal, or read as numbers of one value. -/
def SameOperand (a b : Value) : Prop :=
  a = b ∨ ∃ x y : Decimal, a.toNumeral = .number x ∧ b.toNumeral = .number y ∧ x.value = y.value

theorem SameOperand.refl (a : Value) : SameOperand a a := .inl rfl

theorem operand_of_toNumeral (h : a.toNumeral = .number x) (op : Arithmetical) :
    op.operand a = .ok x := by
  rw [Arithmetical.operand, toDecimal?, h]
  rfl

/-- The operation refuses both values, or it takes them as numbers of one value. -/
theorem SameOperand.operand (h : SameOperand a b) (op : Arithmetical) :
    (∃ error, op.operand a = .error error ∧ op.operand b = .error error) ∨
      ∃ x y : Decimal, op.operand a = .ok x ∧ op.operand b = .ok y ∧ x.value = y.value := by
  rcases h with rfl | ⟨x, y, hx, hy, hvalue⟩
  · cases hoperand : op.operand a with
    | error error => exact .inl ⟨error, rfl, rfl⟩
    | ok x => exact .inr ⟨x, x, rfl, rfl, rfl⟩
  · exact .inr ⟨x, y, operand_of_toNumeral hx op, operand_of_toNumeral hy op, hvalue⟩

/-- All operations but powers give the same answers on the same operands. -/
theorem apply_sameAnswer (settings : Settings) {op : BinaryOp} (hop : op ≠ .pow)
    {lhs lhs' rhs rhs' : Value} (hlhs : SameOperand lhs lhs') (hrhs : SameOperand rhs rhs') :
    SameAnswer ((Registry.standardOperation settings op).apply lhs rhs)
      ((Registry.standardOperation settings op).apply lhs' rhs') := by
  unfold Arithmetical.apply
  rcases hlhs.operand (Registry.standardOperation settings op) with
    ⟨error, hx, hx'⟩ | ⟨x, x', hx, hx', hxvalue⟩
  · rw [hx, hx']
    exact .error error
  rcases hrhs.operand (Registry.standardOperation settings op) with
    ⟨error, hy, hy'⟩ | ⟨y, y', hy, hy', hyvalue⟩
  · rw [hx, hx', hy, hy']
    exact .error error
  have hagree := compute_agree settings op hxvalue hyvalue fun hpow => absurd hpow hop
  rw [hx, hx', hy, hy']
  simp only [bind, Except.bind]
  generalize (Registry.standardOperation settings op).compute x y = result at hagree ⊢
  generalize (Registry.standardOperation settings op).compute x' y' = result' at hagree ⊢
  cases hagree with
  | ok hvalue => exact .number (Decimal.sameValue_iff.mpr hvalue)
  | error error => exact .error _
  | overflowLeft result => exact .overflowLeft _
  | overflowRight result => exact .overflowRight _

/-! ## Comparison -/

/-- A text that reads as the value of a number and is also how the number is written cannot be told from the
number by comparing. -/
theorem compare_text_toText (h : x.scale ≤ 2147483647) (other : Value) :
    (Value.text x.toText).compare other = (Value.number x).compare other := by
  obtain ⟨z, hz, hvalue⟩ := toNumeral_text_toText h
  by_cases hother : other = .void
  · rw [hother, compare_void_right, compare_void_right, if_neg Value.noConfusion,
      if_neg Value.noConfusion]
  cases hy : other.toNumeral with
  | missing => exact absurd hy (toNumeral_ne_missing hother)
  | number y =>
    rw [compare_numbers hz hy, compare_numbers rfl hy, Decimal.compare_eq, Decimal.compare_eq, hvalue]
  | notANumber =>
    rw [compare_texts Value.noConfusion hother (.inr hy),
      compare_texts Value.noConfusion hother (.inr hy)]
    rfl

/-! ## Truth -/

theorem ofText?_zero : Decimal.ofText? "0" = .ok .zero := by cbv

theorem ofText?_one : Decimal.ofText? "1" = .ok .one := by cbv

/-- Of the words for truth values, one and zero alone read as numbers. -/
theorem one_or_zero_of_mem_words {text : String} (h : Decimal.ofText? text = .ok z)
    (hword : text ∈ trueWords ++ falseWords) : text = "1" ∨ text = "0" := by
  have hon : Decimal.ofText? "on" = .error .invalidDigit := by cbv
  have hyes : Decimal.ofText? "yes" = .error .exponent := by cbv
  have htrue : Decimal.ofText? "true" = .error .exponent := by cbv
  have hoff : Decimal.ofText? "off" = .error .invalidDigit := by cbv
  have hno : Decimal.ofText? "no" = .error .invalidDigit := by cbv
  have hfalse : Decimal.ofText? "false" = .error .exponent := by cbv
  simp only [trueWords, falseWords, List.cons_append, List.nil_append, List.mem_cons,
    List.not_mem_nil, or_false] at hword
  rcases hword with rfl | rfl | rfl | rfl | rfl | rfl | rfl | rfl
  · cases hon.symm.trans h
  · cases hyes.symm.trans h
  · exact .inl rfl
  · cases htrue.symm.trans h
  · cases hoff.symm.trans h
  · cases hno.symm.trans h
  · exact .inr rfl
  · cases hfalse.symm.trans h

/-- A text that reads as a number is true where the number is positive, also if it is one of the words. -/
theorem isTruthy_text {text : String} (h : Decimal.ofText? text = .ok z) :
    (Value.text text).isTruthy = z.isPositive := by
  by_cases hword : text ∈ trueWords ++ falseWords
  · rcases one_or_zero_of_mem_words h hword with rfl | rfl
    · obtain rfl := Except.ok.inj (ofText?_one.symm.trans h)
      rfl
    · obtain rfl := Except.ok.inj (ofText?_zero.symm.trans h)
      rfl
  · rw [List.mem_append, not_or] at hword
    rw [isTruthy, if_neg (by simpa using hword.1), if_neg (by simpa using hword.2), numeralOfText, h]

/-! ## The text in place of the number -/

/-- The text of a number does what the number does: on both sides of an operation, in comparisons, as a truth
value and as an argument. -/
theorem text_stands_for_number (h : x.scale ≤ 2147483647) :
    (∀ (settings : Settings) (op : BinaryOp), op ≠ .pow → ∃ operator,
      (Registry.standard settings).operator? op.symbol = some operator ∧ ∀ other : Value,
        SameAnswer (operator.apply (.text x.toText) other) (operator.apply (.number x) other) ∧
        SameAnswer (operator.apply other (.text x.toText)) (operator.apply other (.number x))) ∧
    (∀ other : Value, (Value.text x.toText).compare other = (Value.number x).compare other ∧
      other.compare (.text x.toText) = other.compare (.number x)) ∧
    (Value.text x.toText).isTruthy = (Value.number x).isTruthy ∧
    argument (.number x) = .ok x ∧
    ∃ z : Decimal, argument (.text x.toText) = .ok z ∧ z.sameValue x = true := by
  obtain ⟨z, hz, hvalue⟩ := toNumeral_text_toText h
  have hsame : SameOperand (.text x.toText) (.number x) := .inr ⟨z, x, hz, rfl, hvalue⟩
  refine ⟨?_, ?_, ?_, rfl, z, ?_, Decimal.sameValue_iff.mpr hvalue⟩
  · intro settings op hop
    refine ⟨_, Registry.operator?_binary settings op, fun other => ⟨?_, ?_⟩⟩
    · exact apply_sameAnswer settings hop hsame (.refl other)
    · exact apply_sameAnswer settings hop (.refl other) hsame
  · intro other
    have hcompare := compare_text_toText h other
    have hswap : ∀ a b : Value, a.compare b = (b.compare a).swap := fun _ _ => Std.OrientedCmp.eq_swap
    exact ⟨hcompare, by rw [hswap other, hcompare, ← hswap other]⟩
  · rw [isTruthy_text (toNumeral_text_eq_number_iff.mp hz), isTruthy, Decimal.isPositive_congr hvalue]
  · rw [argument_eq_ok_iff, toDecimal?, hz]

/-- The text of a number with a negative scale, in comparison, as a truth value and as an argument. -/
theorem text_stands_for_number_of_negative_scale :
    (-1 : Int) ≤ 2147483647 ∧ BinaryOp.mul ≠ .pow ∧ Decimal.toText ⟨-25, -1⟩ = "-250" ∧
      (∃ operator, (Registry.standard .default).operator? "*" = some operator ∧
        SameAnswer (operator.apply (.text "-250") .void) (operator.apply (.number ⟨-25, -1⟩) .void)) ∧
      (Value.text "-250").compare (.number ⟨3, 0⟩) = .lt ∧ (Value.text "-250").isTruthy = false ∧
      ∃ z : Decimal, argument (.text "-250") = .ok z ∧ z.sameValue ⟨-25, -1⟩ = true := by
  have htext : Decimal.toText ⟨-25, -1⟩ = "-250" := by decide
  obtain ⟨happly, hcompare, htruthy, -, hargument⟩ :=
    text_stands_for_number (x := ⟨-25, -1⟩) (by decide)
  rw [htext] at happly hcompare htruthy hargument
  obtain ⟨operator, hoperator, hother⟩ := happly .default .mul (by decide)
  refine ⟨by decide, by decide, htext, ⟨operator, hoperator, (hother .void).1⟩, ?_, ?_, hargument⟩
  · rw [(hcompare (.number ⟨3, 0⟩)).1]
    decide
  · rw [htruthy]
    decide

end Value

end Abacus
