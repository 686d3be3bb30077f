import Abacus.Proofs.Decimal.Quotients

/-!
# Powers with a whole exponent

An exponent whose value is a whole number in the signed 32-bit range is recognized however it is
written (`smallInteger?_eq_some_iff`), and a power with such an exponent is not approximated.  If the
exponent is not negative, the power is the exact one.  If it is negative, the power with the opposite
exponent is taken first and one is divided by it: exactly if some decimal is the reciprocal, and else
rounded to the precision.

`IsReciprocal` and `IsWholePower` list what can come out, each time with the condition under which it
does.  A reciprocal, or a power with a whole exponent, comes out of exactly the case whose condition
holds (`reciprocal_eq_iff`, `powDecimal_eq_iff`).

An exact power can also be taken in two parts that are multiplied.  This checks three scales instead of
one, but the scales of the parts lie between zero and that of the power: `exponents_add`.
-/

namespace Abacus.Decimal

/-- What comes out where a power is taken in two parts that are then multiplied. -/
def powInParts (x : Decimal) (m n : Nat) : Except ArithmeticError Decimal := do
  let first ← x.pow m
  let second ← x.pow n
  first.mul second

variable {d x exponent : Decimal} {precision : Nat} {result : Except ArithmeticError Decimal}

/-! ## Reciprocals -/

/-- What can come out where one is divided by `d`. -/
inductive IsReciprocal (d : Decimal) (precision : Nat) : Except ArithmeticError Decimal → Prop
  /-- Zero has no reciprocal. -/
  | divisionByZero (hd : d.value = 0) : IsReciprocal d precision (.error .divisionByZero)
  /-- The exact reciprocal, at the least scale from `-d.scale` on at which it can be written. -/
  | exact {q : Decimal} (hvalue : q.value * d.value = 1) (hscale : QuotientScale one d q.scale)
      (hrange : ScaleInRange q.scale) : IsReciprocal d precision (.ok q)
  /-- There is an exact reciprocal, but its scale is out of range. -/
  | exactOverflow {q : Decimal} (hvalue : q.value * d.value = 1)
      (hscale : QuotientScale one d q.scale) (hout : ¬ScaleInRange q.scale) :
      IsReciprocal d precision (.error .scaleOverflow)
  /-- No decimal is the reciprocal, so it is rounded to the precision. -/
  | rounded {n : Int} (hd : d.value ≠ 0) (hnone : ∀ q : Decimal, q.value * d.value ≠ 1)
      (hprecision : precision ≤ 2147483647)
      (hrounds : Rounding.halfEven.Rounds (10 ^ precision * (1 / d.value)) n) :
      IsReciprocal d precision (.ok ⟨n, precision⟩)
  /-- No decimal is the reciprocal, and the precision is out of range. -/
  | roundedOverflow (hd : d.value ≠ 0) (hnone : ∀ q : Decimal, q.value * d.value ≠ 1)
      (hprecision : 2147483647 < precision) : IsReciprocal d precision (.error .scaleOverflow)

theorem reciprocal_of_zero (hd : d.value = 0) (precision : Nat) :
    d.reciprocal precision = .error .divisionByZero := by
  rw [reciprocal, div, if_pos (value_eq_zero_iff.mp hd)]

/-- The reciprocal is the exact one or, if there is none, the rounded one, and only its scale is
checked. -/
theorem reciprocal_cases (hd : d.value ≠ 0) (precision : Nat) :
    (∃ q : Decimal, d.reciprocal precision = checked q ∧ q.value * d.value = 1 ∧
      QuotientScale one d q.scale) ∨
    (∀ q : Decimal, q.value * d.value ≠ 1) ∧ d.reciprocal precision =
      checked ⟨Rounding.halfEven.ofRat (10 ^ precision * (1 / d.value)), precision⟩ := by
  rcases div_cases one hd with ⟨hdiv, _⟩ | ⟨q, hdiv, hvalue, hscale⟩
  · refine .inr ⟨?_, ?_⟩
    · intro q
      rw [← value_one]
      exact value_mul_ne_of_nonTerminating hdiv q
    · simp only [reciprocal, hdiv]
      rw [divScaled_eq (mt value_eq_zero_iff.mpr hd), value_one, zpow_natCast, mul_comm]
  · refine .inl ⟨q, reciprocal_of_div hdiv precision, ?_, hscale⟩
    rw [hvalue, value_one, one_div_mul_cancel hd]

theorem scaleInRange_natCast {n : Nat} : ScaleInRange n ↔ n ≤ 2147483647 := by
  unfold ScaleInRange
  omega

theorem isReciprocal_reciprocal (d : Decimal) (precision : Nat) :
    IsReciprocal d precision (d.reciprocal precision) := by
  by_cases hd : d.value = 0
  · rw [reciprocal_of_zero hd]
    exact .divisionByZero hd
  · rcases reciprocal_cases hd precision with ⟨q, hreciprocal, hvalue, hscale⟩ | ⟨hnone, hreciprocal⟩
    · rw [hreciprocal, checked]
      split
      · rename_i hrange
        exact .exact hvalue hscale hrange
      · rename_i hout
        exact .exactOverflow hvalue hscale hout
    · rw [hreciprocal, checked]
      split
      · rename_i hrange
        exact .rounded hd hnone (scaleInRange_natCast.mp hrange) (Rounding.halfEven.rounds_iff.mpr rfl)
      · rename_i hout
        exact .roundedOverflow hd hnone (not_le.mp (mt scaleInRange_natCast.mpr hout))

/-- Where some decimal is the reciprocal, it is given at the scale that it takes. -/
theorem reciprocal_of_exact {q : Decimal} (hvalue : q.value * d.value = 1)
    (hscale : QuotientScale one d q.scale) (precision : Nat) :
    d.reciprocal precision = checked q := by
  have hd : d.value ≠ 0 := right_ne_zero_of_mul_eq_one hvalue
  rcases reciprocal_cases hd precision with ⟨z, hreciprocal, hvalue', hscale'⟩ | ⟨hnone, _⟩
  · have hsame : z.value = q.value := mul_right_cancel₀ hd (hvalue'.trans hvalue.symm)
    rw [hreciprocal, eq_of_value_of_scale hsame (hscale'.unique hscale)]
  · exact absurd hvalue (hnone q)

theorem reciprocal_of_none (hd : d.value ≠ 0) (hnone : ∀ q : Decimal, q.value * d.value ≠ 1)
    (precision : Nat) : d.reciprocal precision =
      checked ⟨Rounding.halfEven.ofRat (10 ^ precision * (1 / d.value)), precision⟩ := by
  rcases reciprocal_cases hd precision with ⟨q, _, hvalue, _⟩ | ⟨_, hreciprocal⟩
  · exact absurd hvalue (hnone q)
  · exact hreciprocal

theorem IsReciprocal.reciprocal_eq (h : IsReciprocal d precision result) :
    d.reciprocal precision = result := by
  cases h with
  | divisionByZero hd => exact reciprocal_of_zero hd precision
  | exact hvalue hscale hrange => rw [reciprocal_of_exact hvalue hscale, checked, if_pos hrange]
  | exactOverflow hvalue hscale hout => rw [reciprocal_of_exact hvalue hscale, checked, if_neg hout]
  | rounded hd hnone hprecision hrounds =>
    rw [reciprocal_of_none hd hnone, checked, if_pos (scaleInRange_natCast.mpr hprecision),
      Rounding.halfEven.rounds_iff.mp hrounds]
  | roundedOverflow hd hnone hprecision =>
    rw [reciprocal_of_none hd hnone, checked, if_neg (mt scaleInRange_natCast.mp hprecision.not_ge)]

theorem reciprocal_eq_iff : d.reciprocal precision = result ↔ IsReciprocal d precision result := by
  constructor
  · intro h
    rw [← h]
    exact isReciprocal_reciprocal d precision
  · intro h
    exact h.reciprocal_eq

/-! ## Powers -/

/-- What can come out where `x` is raised to the whole number `n`. -/
inductive IsWholePower (x : Decimal) (precision : Nat) (n : Int) :
    Except ArithmeticError Decimal → Prop
  /-- An exponent that is not negative gives the exact power, or its error. -/
  | power (hn : 0 ≤ n) : IsWholePower x precision n (x.pow n.toNat)
  /-- The power with the opposite exponent is refused. -/
  | refused {error : ArithmeticError} (hn : n < 0) (hpow : x.pow (-n).toNat = .error error) :
      IsWholePower x precision n (.error error)
  /-- One is divided by the power with the opposite exponent. -/
  | inverse {d : Decimal} {result : Except ArithmeticError Decimal} (hn : n < 0)
      (hpow : x.pow (-n).toNat = .ok d) (hresult : IsReciprocal d precision result) :
      IsWholePower x precision n result

/-- Exactly the whole numbers in the signed 32-bit range are recognized. -/
theorem smallInteger?_eq_some_iff {n : Int} :
    exponent.smallInteger? = some n ↔
      exponent.value = n ∧ -2147483648 ≤ n ∧ n ≤ 2147483647 := by
  constructor
  · intro h
    have hinteger : exponent.isInteger = true := by
      by_contra hnot
      rw [Bool.not_eq_true] at hnot
      rw [smallInteger?, hnot] at h
      cases h
    rw [smallInteger?, hinteger] at h
    obtain ⟨k, hlong, h⟩ := Option.bind_eq_some_iff.mp h
    obtain ⟨m, hm⟩ := isInteger_iff.mp hinteger
    rw [toInt64?_eq, hm, Rounding.ofRat_intCast] at hlong
    obtain ⟨_, hk⟩ := Option.ite_none_right_eq_some.mp hlong
    obtain ⟨hrange, hkn⟩ := Option.ite_none_right_eq_some.mp h
    obtain rfl := Option.some.inj hk
    obtain rfl := Option.some.inj hkn
    exact ⟨hm, hrange⟩
  · intro h
    exact smallInteger?_of_value h.1 h.2

/-- A power is the exact power or the reciprocal of one, by the sign of the exponent. -/
theorem powDecimal_of_small {n : Int} (hn : exponent.smallInteger? = some n) :
    x.powDecimal exponent precision =
      if 0 ≤ n then x.pow n.toNat else x.pow (-n).toNat >>= fun d => d.reciprocal precision := by
  rw [powDecimal, hn]
  cases n with
  | ofNat n => rfl
  | negSucc n => rfl

/-- An exponent that stands for a whole number in range is recognized as that number, and what comes
out is the case of a whole power whose condition holds. -/
theorem powDecimal_eq_iff {n : Int} (hvalue : exponent.value = n)
    (hn : -2147483648 ≤ n ∧ n ≤ 2147483647) :
    exponent.smallInteger? = some n ∧
      (x.powDecimal exponent precision = result ↔ IsWholePower x precision n result) := by
  have hsmall : exponent.smallInteger? = some n := smallInteger?_eq_some_iff.mpr ⟨hvalue, hn⟩
  refine ⟨hsmall, ?_⟩
  rw [powDecimal_of_small hsmall]
  constructor
  · intro h
    split at h
    · rename_i hnonneg
      rw [← h]
      exact .power hnonneg
    · rename_i hneg
      cases hpow : x.pow (-n).toNat with
      | error error =>
        rw [hpow] at h
        rw [← h]
        exact .refused (not_le.mp hneg) hpow
      | ok d =>
        rw [hpow] at h
        exact .inverse (not_le.mp hneg) hpow (reciprocal_eq_iff.mp h)
  · intro h
    cases h with
    | power hnonneg => rw [if_pos hnonneg]
    | refused hneg hpow =>
      rw [if_neg hneg.not_ge, hpow]
      rfl
    | inverse hneg hpow hresult =>
      rw [if_neg hneg.not_ge, hpow]
      exact hresult.reciprocal_eq

/-- A negative exponent that is written with zeros behind the point, once with an exact reciprocal
and once without. -/
theorem powDecimal_eq_iff_of_zeros :
    (⟨-300, 2⟩ : Decimal).value = (-3 : Int) ∧ (-2147483648 : Int) ≤ -3 ∧ (-3 : Int) ≤ 2147483647 ∧
      smallInteger? ⟨-300, 2⟩ = some (-3) ∧
      powDecimal ⟨25, 1⟩ ⟨-300, 2⟩ 4 = .ok ⟨64, 3⟩ ∧
      IsWholePower ⟨25, 1⟩ 4 (-3) (.ok ⟨64, 3⟩) ∧
      powDecimal ⟨-3, 0⟩ ⟨-300, 2⟩ 4 = .ok ⟨-370, 4⟩ ∧
      IsWholePower ⟨-3, 0⟩ 4 (-3) (.ok ⟨-370, 4⟩) := by
  have hvalue : (⟨-300, 2⟩ : Decimal).value = (-3 : Int) := by norm_num [value]
  have hn : (-2147483648 : Int) ≤ -3 ∧ (-3 : Int) ≤ 2147483647 := by omega
  have hexact : powDecimal ⟨25, 1⟩ ⟨-300, 2⟩ 4 = .ok ⟨64, 3⟩ := by decide
  have hrounded : powDecimal ⟨-3, 0⟩ ⟨-300, 2⟩ 4 = .ok ⟨-370, 4⟩ := by decide
  obtain ⟨hsmall, hpower⟩ := @powDecimal_eq_iff ⟨25, 1⟩ _ 4 (.ok ⟨64, 3⟩) _ hvalue hn
  obtain ⟨_, hpower'⟩ := @powDecimal_eq_iff ⟨-3, 0⟩ _ 4 (.ok ⟨-370, 4⟩) _ hvalue hn
  exact ⟨hvalue, hn.1, hn.2, hsmall, hexact, hpower.mp hexact, hrounded, hpower'.mp hrounded⟩

/-! ## Exponents add -/

/-- A smaller multiple of a scale lies between zero and a greater one. -/
theorem scaleInRange_of_multiple {scale : Int} {k n : Nat} (hk : k ≤ n)
    (h : ScaleInRange (scale * n)) : ScaleInRange (scale * k) := by
  have hkn : (k : Int) ≤ n := by exact_mod_cast hk
  have hnonneg : (0 : Int) ≤ k := Int.natCast_nonneg k
  unfold ScaleInRange at h ⊢
  rcases Int.le_total 0 scale with hscale | hscale
  · have hlower : 0 ≤ scale * k := mul_nonneg hscale hnonneg
    have hupper : scale * k ≤ scale * n := mul_le_mul_of_nonneg_left hkn hscale
    omega
  · have hlower : scale * n ≤ scale * k := mul_le_mul_of_nonpos_left hkn hscale
    have hupper : scale * k ≤ 0 := mul_nonpos_of_nonpos_of_nonneg hscale hnonneg
    omega

theorem pow_of_scaleInRange {n : Nat} (h : ScaleInRange (x.scale * n)) :
    x.pow n = .ok ⟨x.unscaled ^ n, x.scale * n⟩ := by
  rw [pow_eq_checked]
  exact if_pos h

theorem pow_of_not_scaleInRange {n : Nat} (h : ¬ScaleInRange (x.scale * n)) :
    x.pow n = .error .scaleOverflow := by
  rw [pow_eq_checked]
  exact if_neg h

/-- The product of two powers is checked like the power with the sum of the exponents. -/
theorem mul_powers (x : Decimal) (m n : Nat) :
    mul ⟨x.unscaled ^ m, x.scale * m⟩ ⟨x.unscaled ^ n, x.scale * n⟩ = x.pow (m + n) := by
  have hscale : x.scale * m + x.scale * n = x.scale * (m + n : Nat) := by
    push_cast
    ring
  rw [mul_eq_checked, pow_eq_checked, ← pow_add, hscale]

/-- Where all three scales are in range, the parts make the power, and otherwise both are refused. -/
theorem powInParts_eq (x : Decimal) (m n : Nat) : x.powInParts m n = x.pow (m + n) := by
  by_cases h : ScaleInRange (x.scale * (m + n : Nat))
  · have hm := pow_of_scaleInRange (scaleInRange_of_multiple (Nat.le_add_right m n) h)
    have hn := pow_of_scaleInRange (scaleInRange_of_multiple (Nat.le_add_left n m) h)
    rw [powInParts, hm, hn]
    exact mul_powers x m n
  · rw [pow_of_not_scaleInRange h]
    by_cases hm : ScaleInRange (x.scale * m)
    · by_cases hn : ScaleInRange (x.scale * n)
      · rw [powInParts, pow_of_scaleInRange hm, pow_of_scaleInRange hn]
        exact (mul_powers x m n).trans (pow_of_not_scaleInRange h)
      · rw [powInParts, pow_of_scaleInRange hm, pow_of_not_scaleInRange hn]
        rfl
    · rw [powInParts, pow_of_not_scaleInRange hm]
      rfl

theorem powInParts_eq_ok_iff {m n : Nat} {z : Decimal} :
    x.powInParts m n = .ok z ↔ ∃ p q, x.pow m = .ok p ∧ x.pow n = .ok q ∧ p.mul q = .ok z := by
  unfold powInParts
  cases x.pow m with
  | error error => simp [bind, Except.bind]
  | ok p =>
    cases x.pow n with
    | error error => simp [bind, Except.bind]
    | ok q => simp [bind, Except.bind]

/-- The power with a sum of exponents comes out exactly if the powers with the two exponents and their
product do, and then it is that product with its scale.  Otherwise, which is where its scale is out of
range, both ways are refused for that reason. -/
theorem exponents_add (x : Decimal) (m n : Nat) :
    (∀ z, x.pow (m + n) = .ok z ↔
      ∃ p q, x.pow m = .ok p ∧ x.pow n = .ok q ∧ p.mul q = .ok z) ∧
    (ScaleInRange (x.scale * (m + n : Nat)) ∧ (∃ z, x.pow (m + n) = .ok z) ∨
      ¬ScaleInRange (x.scale * (m + n : Nat)) ∧ x.pow (m + n) = .error .scaleOverflow ∧
        x.powInParts m n = .error .scaleOverflow) := by
  refine ⟨?_, ?_⟩
  · intro z
    rw [← powInParts_eq]
    exact powInParts_eq_ok_iff
  · by_cases h : ScaleInRange (x.scale * (m + n : Nat))
    · exact .inl ⟨h, _, pow_of_scaleInRange h⟩
    · refine .inr ⟨h, pow_of_not_scaleInRange h, ?_⟩
      rw [powInParts_eq, pow_of_not_scaleInRange h]

/-- At the lower end of the range, `-2147483648`, one exponent more is too many. -/
example : pow ⟨3, -1073741824⟩ (1 + 1) = .ok ⟨9, -2147483648⟩ ∧
    pow ⟨3, -1073741824⟩ (1 + 2) = .error .scaleOverflow := by decide

end Abacus.Decimal
