import Abacus.Proofs.Decimal.Interchange

/-!
# Exact quotients, outcome by outcome

The ratio of two values is the value of a decimal exactly if some power of ten times it is whole.  The
exact quotient is then given with as few digits after the point as the ratio takes, but with no fewer
than the difference of the scales asks for, and zero with none where that is enough.
`QuotientScale` states this scale and `ExactQuotient` the four outcomes, both in terms of the ratio and
without the reduced fraction from which they are computed.

Every pair of decimals has one of the outcomes, and each outcome comes about under its own condition
only: `div_eq_iff_exactQuotient`.
-/

namespace Abacus.Decimal

variable {x y : Decimal}

/-- A value takes at most `scale` digits after the point exactly if it is whole once the point is
moved by as many places. -/
theorem writtenAt_iff {value : ℚ} {scale : Int} :
    WrittenAt value scale ↔ ∃ n : Int, 10 ^ scale * value = n := by
  have hpow : (10 : ℚ) ^ scale ≠ 0 := zpow_ne_zero _ (by norm_num)
  constructor
  · intro h
    obtain ⟨z, hvalue, hscale⟩ := h
    refine ⟨z.unscaled, ?_⟩
    rw [← hvalue, Decimal.value, hscale, zpow_neg]
    field_simp
  · intro h
    obtain ⟨n, hn⟩ := h
    refine ⟨⟨n, scale⟩, ?_, rfl⟩
    rw [Decimal.value, ← hn, zpow_neg]
    field_simp

/-- The scale that the exact quotient of two decimals has. -/
inductive QuotientScale (x y : Decimal) : Int → Prop
  /-- Zero is whole at every scale, so it is not written with more digits than it has to. -/
  | zero (hx : x.value = 0) : QuotientScale x y (max (x.scale - y.scale) 0)
  /-- The least scale from the difference on at which the ratio is whole. -/
  | least {scale : Int} (hx : x.value ≠ 0)
      (hleast : IsLeast {s : Int | x.scale - y.scale ≤ s ∧
        ∃ n : Int, 10 ^ s * (x.value / y.value) = n} scale) : QuotientScale x y scale

/-- The outcomes of an exact division, each with the condition under which it comes about. -/
inductive ExactQuotient (x y : Decimal) : Except ArithmeticError Decimal → Prop
  /-- The divisor is zero, whatever the dividend is. -/
  | divisionByZero (hy : y.value = 0) : ExactQuotient x y (.error .divisionByZero)
  /-- No power of ten times the ratio is whole. -/
  | nonTerminating (hy : y.value ≠ 0)
      (hnone : ∀ k n : Int, (10 : ℚ) ^ k * (x.value / y.value) ≠ n) :
      ExactQuotient x y (.error .nonTerminating)
  /-- The scale that the ratio takes is out of range. -/
  | scaleOverflow {scale : Int} (hy : y.value ≠ 0) (hscale : QuotientScale x y scale)
      (hout : ¬ScaleInRange scale) : ExactQuotient x y (.error .scaleOverflow)
  /-- The ratio, at the scale that it takes. -/
  | quotient {q : Decimal} (hy : y.value ≠ 0) (hscale : QuotientScale x y q.scale)
      (hrange : ScaleInRange q.scale) (hvalue : q.value = x.value / y.value) :
      ExactQuotient x y (.ok q)

theorem QuotientScale.unique {scale scale' : Int} (h : QuotientScale x y scale)
    (h' : QuotientScale x y scale') : scale = scale' := by
  cases h with
  | zero hx =>
    cases h' with
    | zero => rfl
    | least hx' => exact absurd hx hx'
  | least hx hleast =>
    cases h' with
    | zero hx' => exact absurd hx' hx
    | least _ hleast' => exact hleast.unique hleast'

theorem QuotientScale.whole {scale : Int} (h : QuotientScale x y scale) :
    ∃ n : Int, 10 ^ scale * (x.value / y.value) = n := by
  cases h with
  | zero hx => exact ⟨0, by simp [hx]⟩
  | least _ hleast => exact hleast.1.2

/-- A divisor other than zero leaves two cases: the ratio is whole at no scale, or it is the value of a
decimal at the scale that it takes, and only that scale is checked. -/
theorem div_cases (x : Decimal) (hy : y.value ≠ 0) :
    x.div y = .error .nonTerminating ∧ (∀ k n : Int, (10 : ℚ) ^ k * (x.value / y.value) ≠ n) ∨
      ∃ z : Decimal, x.div y = checked z ∧ z.value = x.value / y.value ∧
        QuotientScale x y z.scale := by
  have hy' : y.unscaled ≠ 0 := mt value_eq_zero_iff.mpr hy
  by_cases hx : x.value = 0
  · refine .inr ⟨_, div_zero_left (value_eq_zero_iff.mp hx) hy', ?_, .zero hx⟩
    rw [hx, zero_div, value_eq_zero_iff]
  · have hx' : x.unscaled ≠ 0 := mt value_eq_zero_iff.mpr hx
    rcases isLeast_div hx' hy' with ⟨hdiv, hnone⟩ | ⟨z, hdiv, hvalue, hleast⟩
    · refine .inl ⟨hdiv, ?_⟩
      intro k n hwhole
      obtain ⟨z, hvalue, _⟩ := writtenAt_iff.mpr ⟨n, hwhole⟩
      exact hnone z hvalue
    · simp only [writtenAt_iff] at hleast
      exact .inr ⟨z, hdiv, hvalue, .least hx hleast⟩

/-- Where there is a scale at which the ratio is whole, only the range of the scale is left to check. -/
theorem QuotientScale.div_eq {scale : Int} (h : QuotientScale x y scale) (hy : y.value ≠ 0) :
    ∃ z : Decimal, x.div y = checked z ∧ z.value = x.value / y.value ∧ z.scale = scale := by
  rcases div_cases x hy with ⟨_, hnone⟩ | ⟨z, hdiv, hvalue, hscale⟩
  · obtain ⟨n, hn⟩ := h.whole
    exact absurd hn (hnone scale n)
  · exact ⟨z, hdiv, hvalue, hscale.unique h⟩

theorem exactQuotient_div (x y : Decimal) : ExactQuotient x y (x.div y) := by
  by_cases hy : y.value = 0
  · rw [div, if_pos (value_eq_zero_iff.mp hy)]
    exact .divisionByZero hy
  · rcases div_cases x hy with ⟨hdiv, hnone⟩ | ⟨z, hdiv, hvalue, hscale⟩
    · rw [hdiv]
      exact .nonTerminating hy hnone
    · rw [hdiv, checked]
      split
      · rename_i hrange
        exact .quotient hy hscale hrange hvalue
      · rename_i hout
        exact .scaleOverflow hy hscale hout

theorem ExactQuotient.div_eq {result : Except ArithmeticError Decimal}
    (h : ExactQuotient x y result) : x.div y = result := by
  cases h with
  | divisionByZero hy => rw [div, if_pos (value_eq_zero_iff.mp hy)]
  | nonTerminating hy hnone =>
    rcases div_cases x hy with ⟨hdiv, _⟩ | ⟨z, _, _, hscale⟩
    · exact hdiv
    · obtain ⟨n, hn⟩ := hscale.whole
      exact absurd hn (hnone z.scale n)
  | scaleOverflow hy hscale hout =>
    obtain ⟨z, hdiv, _, rfl⟩ := hscale.div_eq hy
    rw [hdiv, checked, if_neg hout]
  | @quotient q hy hscale hrange hvalue =>
    obtain ⟨z, hdiv, hvalue', hscale'⟩ := hscale.div_eq hy
    obtain rfl : z = q := eq_of_value_of_scale (hvalue'.trans hvalue.symm) hscale'
    rw [hdiv, checked, if_pos hrange]

/-- An exact division ends in one of the four outcomes exactly if the condition of that outcome
holds. -/
theorem div_eq_iff_exactQuotient {result : Except ArithmeticError Decimal} :
    x.div y = result ↔ ExactQuotient x y result := by
  constructor
  · intro h
    rw [← h]
    exact exactQuotient_div x y
  · intro h
    exact h.div_eq

/-- The difference of the scales can ask for digits before the point to stay unwritten. -/
example : div ⟨1200, 1⟩ ⟨-4, 3⟩ = .ok ⟨-300, -2⟩ := by decide

end Abacus.Decimal
