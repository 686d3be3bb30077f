import Abacus.Proofs.Decimal.ExactQuotient
import Abacus.Proofs.Decimal.RoundingModes

/-!
# Quotients and remainders agree

There are three ways to divide: exactly, through the reduced fraction; rounded to a scale, through
shifted coefficients; and with a remainder, through coefficients at a common scale.  All three depend
on the ratio of the values only, and so they fit together.

A rounded quotient is the exact one, rounded, and where there is no exact one no rounded quotient is
exact (`divisions_agree`).  The remainder is what the truncated quotient leaves over.  It is the one
number of its scale that is smaller than the divisor, is zero or has the sign of the dividend, and
differs from the dividend by a whole multiple of the divisor (`rem_outcome`).
-/

namespace Abacus.Decimal

open SignType (sign)

variable {x y : Decimal}

/-! ## Exact and rounded quotients -/

/-- Rounding the exact quotient gives the rounded quotient, at every scale. -/
theorem divScaled_eq_round {q : Decimal} (h : x.div y = .ok q) (scale : Int) (mode : Rounding) :
    x.divScaled y scale mode = q.round scale mode := by
  have hquotient := exactQuotient_div x y
  rw [h] at hquotient
  cases hquotient with
  | quotient hy _ _ hvalue =>
    rw [divScaled_eq (mt value_eq_zero_iff.mpr hy), round_eq, hvalue]

/-- Without an exact quotient no decimal gives the dividend when it is multiplied by the divisor. -/
theorem value_mul_ne_of_nonTerminating (h : x.div y = .error .nonTerminating) (z : Decimal) :
    z.value * y.value ≠ x.value := by
  have hquotient := exactQuotient_div x y
  rw [h] at hquotient
  cases hquotient with
  | nonTerminating hy hnone =>
    intro hproduct
    obtain ⟨n, hn⟩ := writtenAt_iff.mp (writtenAt_value z)
    apply hnone z.scale n
    rw [← hproduct, mul_div_cancel_right₀ _ hy, hn]

/-- A rounded quotient by a number other than zero exists at every scale in range.  It is the exact
quotient rounded in the same way, and it is not exact if there is no exact quotient. -/
theorem divisions_agree (x : Decimal) {y : Decimal} (hy : y.value ≠ 0) {scale : Int}
    (hscale : ScaleInRange scale) (mode : Rounding) :
    ∃ r : Decimal, x.divScaled y scale mode = .ok r ∧ r.scale = scale ∧
      (∀ q, x.div y = .ok q → q.round scale mode = .ok r) ∧
      (x.div y = .error .nonTerminating → r.value * y.value ≠ x.value) := by
  have hdivided : x.divScaled y scale mode =
      .ok ⟨mode.ofRat (x.value / y.value * 10 ^ scale), scale⟩ := by
    rw [divScaled_eq (mt value_eq_zero_iff.mpr hy), checked, if_pos hscale]
  refine ⟨_, hdivided, rfl, ?_, ?_⟩
  · intro q hq
    rw [← divScaled_eq_round hq, hdivided]
  · intro hnone
    exact value_mul_ne_of_nonTerminating hnone _

/-- A quotient of either sign that ends after three digits and is rounded in the middle between two
numbers, and one that does not end. -/
theorem divisions_agree_of_middle :
    (⟨-800, 1⟩ : Decimal).value ≠ 0 ∧ ScaleInRange 2 ∧
      div ⟨1, -1⟩ ⟨-800, 1⟩ = .ok ⟨-125, 3⟩ ∧
      divScaled ⟨1, -1⟩ ⟨-800, 1⟩ 2 .halfEven = round ⟨-125, 3⟩ 2 .halfEven ∧
      divScaled ⟨1, -1⟩ ⟨-800, 1⟩ 2 .halfEven = .ok ⟨-12, 2⟩ ∧
      (⟨3, 0⟩ : Decimal).value ≠ 0 ∧ div ⟨2, 0⟩ ⟨3, 0⟩ = .error .nonTerminating ∧
      divScaled ⟨2, 0⟩ ⟨3, 0⟩ 2 .up = .ok ⟨67, 2⟩ ∧
      value ⟨67, 2⟩ * value ⟨3, 0⟩ ≠ value ⟨2, 0⟩ := by
  have hscale : ScaleInRange 2 := by decide
  have hy : (⟨-800, 1⟩ : Decimal).value ≠ 0 := mt value_eq_zero_iff.mp (by decide)
  have hy' : (⟨3, 0⟩ : Decimal).value ≠ 0 := mt value_eq_zero_iff.mp (by decide)
  have hexact : div ⟨1, -1⟩ ⟨-800, 1⟩ = .ok ⟨-125, 3⟩ := by decide
  have hnone : div ⟨2, 0⟩ ⟨3, 0⟩ = .error .nonTerminating := by decide
  have hup : divScaled ⟨2, 0⟩ ⟨3, 0⟩ 2 .up = .ok ⟨67, 2⟩ := by decide
  obtain ⟨r, hr, _, hround, _⟩ := divisions_agree ⟨1, -1⟩ hy hscale .halfEven
  obtain ⟨r', hr', _, _, hinexact⟩ := divisions_agree ⟨2, 0⟩ hy' hscale .up
  obtain rfl := Except.ok.inj (hup.symm.trans hr')
  exact ⟨hy, hscale, hexact, hr.trans (hround _ hexact).symm, by decide, hy', hnone, hup,
    hinexact hnone⟩

/-! ## Remainders -/

/-- What is left of `x` when a whole multiple of `y` is taken away towards zero. -/
structure IsRemainder (x y r : Decimal) : Prop where
  scale_eq : r.scale = max x.scale y.scale
  abs_value_lt : |r.value| < |y.value|
  sign_eq : r.value = 0 ∨ sign r.value = sign x.value
  multiple : ∃ n : Int, x.value = y.value * n + r.value

/-- The sign of a number is that of its coefficient. -/
theorem sign_value (x : Decimal) : sign x.value = sign x.unscaled := by
  have hpow : (0 : ℚ) < 10 ^ (-x.scale) := zpow_pos (by norm_num) _
  rw [value, sign_mul, sign_pos hpow, mul_one, sign_intCast]

/-- At one scale the absolute values compare as those of the coefficients do. -/
theorem abs_value_lt_abs_value {m n scale : Int} (h : |m| < |n|) :
    |value ⟨m, scale⟩| < |value ⟨n, scale⟩| := by
  have hpow : (0 : ℚ) < 10 ^ (-scale) := zpow_pos (by norm_num) _
  have hcast : |(m : ℚ)| < |(n : ℚ)| := by exact_mod_cast h
  rw [value, value, abs_mul, abs_mul, abs_of_pos hpow]
  exact mul_lt_mul_of_pos_right hcast hpow

theorem abs_tmod_lt_abs {a b : Int} (hb : b ≠ 0) : |a.tmod b| < |b| := by
  have hless : a.natAbs % b.natAbs < b.natAbs := Nat.mod_lt _ (Int.natAbs_pos.mpr hb)
  rw [← Int.natAbs_tmod] at hless
  rw [Int.abs_eq_natAbs, Int.abs_eq_natAbs]
  exact_mod_cast hless

/-- A remainder of integers is zero or has the sign of the dividend. -/
theorem sign_tmod (a b : Int) : a.tmod b = 0 ∨ sign (a.tmod b) = sign a := by
  rcases lt_trichotomy a 0 with ha | rfl | ha
  · have hle : 0 ≤ (-a).tmod b := Int.tmod_nonneg b (by omega)
    rw [Int.neg_tmod, neg_nonneg] at hle
    rcases hle.eq_or_lt with hzero | hneg
    · exact .inl hzero
    · exact .inr (by rw [sign_neg hneg, sign_neg ha])
  · exact .inl (Int.zero_tmod b)
  · rcases (Int.tmod_nonneg b ha.le).eq_or_lt with hzero | hpos
    · exact .inl hzero.symm
    · exact .inr (by rw [sign_pos hpos, sign_pos ha])

/-- A number that is zero or has the sign of `x` is not on the other side of zero. -/
theorem side_of_sign {x a : ℚ} (h : a = 0 ∨ sign a = sign x) :
    (0 ≤ x → 0 ≤ a) ∧ (x ≤ 0 → a ≤ 0) := by
  rcases h with rfl | hsign
  · exact ⟨fun _ => le_rfl, fun _ => le_rfl⟩
  · rw [← sign_nonneg_iff, ← hsign, sign_nonneg_iff, ← sign_nonpos_iff, ← hsign, sign_nonpos_iff]
    exact ⟨id, id⟩

/-- Two remainders of one division are equal: they are on the same side of zero and so less than
the divisor apart, but they differ by a whole multiple of it. -/
theorem IsRemainder.unique {r r' : Decimal} (h : IsRemainder x y r) (h' : IsRemainder x y r') :
    r = r' := by
  have hclose : |r.value - r'.value| < |y.value| := by
    have hless := abs_lt.mp h.abs_value_lt
    have hless' := abs_lt.mp h'.abs_value_lt
    have hside := side_of_sign h.sign_eq
    have hside' := side_of_sign h'.sign_eq
    rw [abs_lt]
    rcases le_total 0 x.value with hx | hx
    · have hr := hside.1 hx
      have hr' := hside'.1 hx
      constructor <;> linarith
    · have hr := hside.2 hx
      have hr' := hside'.2 hx
      constructor <;> linarith
  obtain ⟨n, hn⟩ := h.multiple
  obtain ⟨n', hn'⟩ := h'.multiple
  have hdifference : r.value - r'.value = y.value * (n' - n : Int) := by
    push_cast
    linarith
  have hsame : n' - n = 0 := by
    by_contra hne
    have hone : (1 : ℚ) ≤ |((n' - n : Int) : ℚ)| := by
      exact_mod_cast Int.one_le_abs hne
    rw [hdifference, abs_mul] at hclose
    exact absurd (le_mul_of_one_le_right (abs_nonneg y.value) hone) hclose.not_ge
  rw [hsame, Int.cast_zero, mul_zero, sub_eq_zero] at hdifference
  exact eq_of_value_of_scale hdifference (h.scale_eq.trans h'.scale_eq.symm)

/-- The remainder at the common scale is a remainder. -/
theorem isRemainder_of_rem {r : Decimal} (hy : y.value ≠ 0) (h : x.rem y = .ok r) :
    IsRemainder x y r := by
  have hy' : y.unscaled ≠ 0 := mt value_eq_zero_iff.mpr hy
  have hleft : x.scale ≤ x.commonScale y := le_max_left ..
  have hright : y.scale ≤ x.commonScale y := le_max_right ..
  have hdivisor : y.unscaledAt (x.commonScale y) ≠ 0 := mul_ne_zero hy' (by positivity)
  obtain ⟨z, hz, hvalue⟩ := rem_eq_ok (x := x) hy'
  obtain rfl := Except.ok.inj (h.symm.trans hz)
  rw [rem, if_neg hy'] at h
  obtain rfl := Except.ok.inj h
  refine ⟨rfl, ?_, ?_, ?_⟩
  · rw [← value_unscaledAt hright]
    exact abs_value_lt_abs_value (abs_tmod_lt_abs hdivisor)
  · rw [value_eq_zero_iff, sign_value, ← value_unscaledAt hleft, sign_value]
    exact sign_tmod _ _
  · exact ⟨_, by rw [hvalue]; ring⟩

/-- A remainder is refused exactly by zero.  By any other divisor it is the one number that is a
remainder, and the dividend is made up of it and of the divisor times the truncated quotient. -/
theorem rem_outcome (x y : Decimal) :
    y.value = 0 ∧ x.rem y = .error .divisionByZero ∨
      y.value ≠ 0 ∧ ∃ r q : Decimal, x.rem y = .ok r ∧ (∀ z, IsRemainder x y z ↔ z = r) ∧
        x.divScaled y 0 .down = .ok q ∧ q.scale = 0 ∧
        Rounding.down.Rounds (x.value / y.value) q.unscaled ∧
        x.value = y.value * q.value + r.value := by
  by_cases hy : y.value = 0
  · exact .inl ⟨hy, if_pos (value_eq_zero_iff.mp hy)⟩
  · have hy' : y.unscaled ≠ 0 := mt value_eq_zero_iff.mpr hy
    obtain ⟨r, hr, hvalue⟩ := rem_eq_ok (x := x) hy'
    have hremainder := isRemainder_of_rem hy hr
    have hquotient : x.divScaled y 0 .down =
        .ok (ofInt (Rounding.down.ofRat (x.value / y.value))) := by
      rw [divScaled_eq hy', zpow_zero, mul_one]
      rfl
    refine .inr ⟨hy, r, _, hr, ?_, hquotient, rfl, Rounding.down.rounds_iff.mpr rfl, ?_⟩
    · intro z
      constructor
      · intro hz
        exact hz.unique hremainder
      · intro hz
        rwa [hz]
    · rw [hvalue, value_ofInt]
      ring

/-- Scales on both sides of the point: `-700` is `-33` times `21.1` and what is left over. -/
example : rem ⟨-7, -2⟩ ⟨211, 1⟩ = .ok ⟨-37, 1⟩ := rfl

end Abacus.Decimal
