import Abacus.Decimal.Power
import Abacus.Proofs.Decimal.Congruence
import Abacus.Proofs.Decimal.TrailingZeros
import Abacus.Proofs.Decimal.Written
import Abacus.Proofs.Evaluation.Result

/-!
# The range of scales

Decimals are made by constructors, by reading and by operations, in any order.  Each operation wants
a scale of its own for its result (`Operation.WantsScale`): the larger scale, the sum, a multiple, the
least one at which a value can be written.  Scales stay in range because an operation that wants
another one is refused, and the only operation that needs a condition for this is `normalized`, which
has no check: it leaves the range where zeros can be dropped past its lower end
(`Operation.HasRoom`).

Each operation is treated by itself (`Operation.scaleInRange`, `Operation.WantsScale.meets`), and all that
can be obtained by them by induction (`Obtained.scaleInRange`).  The main statement is
`scaleInRange_of_obtained`.
-/

namespace Abacus.Decimal

open Evaluation (mapError_eq_ok_iff)

/-- What there is instead of a decimal. -/
inductive Refusal where
  /-- An operation has no result. -/
  | arithmetic (error : ArithmeticError)
  /-- A text is no decimal. -/
  | literal (error : LiteralError)
  /-- There is no square root. -/
  | noRoot
deriving DecidableEq

/-- A way to obtain a decimal, with what it is applied to. -/
inductive Operation where
  | new (unscaled scale : Int) (inRange : ScaleInRange scale)
  | ofInt (n : Int)
  | ofText (text : String)
  | add (x y : Decimal)
  | sub (x y : Decimal)
  | mul (x y : Decimal)
  | div (x y : Decimal)
  | divScaled (x y : Decimal) (scale : Int) (mode : Rounding)
  | rem (x y : Decimal)
  | neg (x : Decimal)
  | abs (x : Decimal)
  | pow (x : Decimal) (exponent : Nat)
  | square (x : Decimal)
  | powDecimal (x exponent : Decimal) (precision : Nat)
  | sqrt (x : Decimal) (precision : Nat)
  | round (x : Decimal) (scale : Int) (mode : Rounding)
  | roundToCents (x : Decimal)
  | normalized (x : Decimal)
  | sum (xs : List Decimal)
  | max (x y : Decimal)
  | min (x y : Decimal)

/-- The square root truncated to the scale at which roots are taken. -/
def truncatedRoot (x : Decimal) (precision : Nat) : Decimal :=
  ⟨Nat.sqrt (x.unscaledAt (2 * x.rootScale precision)).natAbs, x.rootScale precision⟩

/-- The exponent that the part of a literal after its `e` writes, however large it is. -/
inductive WritesExponent : Option (List Char) → Int → Prop
  | none : WritesExponent none 0
  | some {suffix digits : List Char} {negative : Bool} (hsign : splitSign suffix = (negative, digits))
      (hdigits : AllDigits digits) (hne : digits ≠ []) :
      WritesExponent (some suffix) (signed negative (digitValue digits))

namespace Operation

/-- The decimals that an operation is applied to. -/
def operands : Operation → List Decimal
  | .new _ _ _ | .ofInt _ | .ofText _ => []
  | .add x y | .sub x y | .mul x y | .div x y | .divScaled x y _ _ | .rem x y => [x, y]
  | .powDecimal x y _ | .max x y | .min x y => [x, y]
  | .neg x | .abs x | .pow x _ | .square x | .sqrt x _ => [x]
  | .round x _ _ | .roundToCents x | .normalized x => [x]
  | .sum xs => xs

/-- What an operation gives. -/
def outcome : Operation → Except Refusal Decimal
  | .new unscaled scale _ => .ok ⟨unscaled, scale⟩
  | .ofInt n => .ok (Decimal.ofInt n)
  | .ofText text => (ofText? text).mapError .literal
  | .add x y => .ok (x.add y)
  | .sub x y => .ok (x.sub y)
  | .mul x y => (x.mul y).mapError .arithmetic
  | .div x y => (x.div y).mapError .arithmetic
  | .divScaled x y scale mode => (x.divScaled y scale mode).mapError .arithmetic
  | .rem x y => (x.rem y).mapError .arithmetic
  | .neg x => .ok x.neg
  | .abs x => .ok x.abs
  | .pow x exponent => (x.pow exponent).mapError .arithmetic
  | .square x => (Decimal.square x).mapError .arithmetic
  | .powDecimal x exponent precision => (x.powDecimal exponent precision).mapError .arithmetic
  | .sqrt x precision => (x.sqrtWithPrecision precision).elim (.error .noRoot) .ok
  | .round x scale mode => (x.round scale mode).mapError .arithmetic
  | .roundToCents x => .ok x.roundToCents
  | .normalized x => .ok x.normalized
  | .sum xs => .ok (Decimal.sum xs)
  | .max x y => .ok (x.max y)
  | .min x y => .ok (x.min y)

/-- How an operation is refused whose result would have a scale out of range. -/
def overflow : Operation → Refusal
  | .ofText _ => .literal .exponent
  | .sqrt _ _ => .noRoot
  | _ => .arithmetic .scaleOverflow

/-- The scale that the result of an operation has as long as scales have no limits. -/
inductive WantsScale : Operation → Int → Prop
  | new (unscaled scale : Int) (inRange : ScaleInRange scale) :
      WantsScale (.new unscaled scale inRange) scale
  | ofInt (n : Int) : WantsScale (.ofInt n) 0
  | ofText {text : String} {mantissa whole fraction : List Char} {suffix : Option (List Char)}
      {exponent : Int}
      (hsplit : splitFirst (fun c => c == 'e' || c == 'E') (trimBlanks text.toList) =
        (mantissa, suffix))
      (hdigits : mantissaDigits mantissa = (whole, fraction)) (hwhole : AllDigits whole)
      (hfraction : AllDigits fraction) (hne : whole ≠ [] ∨ fraction ≠ [])
      (hexponent : WritesExponent suffix exponent) :
      WantsScale (.ofText text) (fraction.length - exponent)
  | add (x y : Decimal) : WantsScale (.add x y) (Max.max x.scale y.scale)
  | sub (x y : Decimal) : WantsScale (.sub x y) (Max.max x.scale y.scale)
  | mul (x y : Decimal) : WantsScale (.mul x y) (x.scale + y.scale)
  | div {x y : Decimal} {scale : Int} (hx : x.value ≠ 0) (hy : y.value ≠ 0)
      (hleast : IsLeast {s | x.scale - y.scale ≤ s ∧ WrittenAt (x.value / y.value) s} scale) :
      WantsScale (.div x y) scale
  | divZero {x y : Decimal} (hx : x.value = 0) (hy : y.value ≠ 0) :
      WantsScale (.div x y) (Max.max (x.scale - y.scale) 0)
  | divScaled {x y : Decimal} (hy : y.value ≠ 0) (scale : Int) (mode : Rounding) :
      WantsScale (.divScaled x y scale mode) scale
  | rem {x y : Decimal} (hy : y.value ≠ 0) : WantsScale (.rem x y) (Max.max x.scale y.scale)
  | neg (x : Decimal) : WantsScale (.neg x) x.scale
  | abs (x : Decimal) : WantsScale (.abs x) x.scale
  | pow (x : Decimal) (exponent : Nat) : WantsScale (.pow x exponent) (x.scale * exponent)
  | square (x : Decimal) : WantsScale (.square x) (x.scale * 2)
  | power {x exponent : Decimal} {n : Nat} (hn : n ≤ 2147483647) (hexponent : exponent.value = n)
      (precision : Nat) : WantsScale (.powDecimal x exponent precision) (x.scale * n)
  | inverse {x exponent : Decimal} {n : Nat} {scale : Int} (hn : n < 2147483648)
      (hexponent : exponent.value = -(n + 1 : Nat)) (hx : x.value ≠ 0)
      (hleast : IsLeast {s | -(x.scale * (n + 1 : Nat)) ≤ s ∧ WrittenAt (x.value ^ (n + 1))⁻¹ s} scale)
      (precision : Nat) : WantsScale (.powDecimal x exponent precision) scale
  | roundedInverse {x exponent : Decimal} {n : Nat} (hn : n < 2147483648)
      (hexponent : exponent.value = -(n + 1 : Nat)) (hx : x.value ≠ 0)
      (hnone : ∀ s, ¬WrittenAt (x.value ^ (n + 1))⁻¹ s) (precision : Nat) :
      WantsScale (.powDecimal x exponent precision) precision
  | sqrt {x : Decimal} {precision : Nat} {scale : Int} (hx : 0 ≤ x.value)
      (hleast : IsLeast {s | 0 ≤ s ∧ WrittenAt (x.truncatedRoot precision).value s} scale) :
      WantsScale (.sqrt x precision) scale
  | round (x : Decimal) (scale : Int) (mode : Rounding) : WantsScale (.round x scale mode) scale
  | roundToCents (x : Decimal) : WantsScale (.roundToCents x) 2
  | normalized {x : Decimal} {scale : Int} (hx : x.value ≠ 0)
      (hleast : IsLeast {s | WrittenAt x.value s} scale) : WantsScale (.normalized x) scale
  | normalizedZero {x : Decimal} (hx : x.value = 0) : WantsScale (.normalized x) 0
  | sum (xs : List Decimal) : WantsScale (.sum xs) ((xs.map scale).foldl Max.max 0)
  | max (x y : Decimal) :
      WantsScale (.max x y) (if y.value < x.value then x.scale else y.scale)
  | min (x y : Decimal) :
      WantsScale (.min x y) (if y.value < x.value then y.scale else x.scale)

/-- Zeros cannot be dropped past the lower end of the range. -/
def HasRoom : Operation → Prop
  | .normalized x => x.value = 0 ∨ ¬WrittenAt x.value (-2147483649)
  | _ => True

end Operation

/-- The decimals that are obtained by allowed operations from decimals that are. -/
inductive Obtained (allowed : Operation → Prop) : Decimal → Prop
  | of {operation : Operation} {result : Decimal} (hallowed : allowed operation)
      (hoperands : ∀ x ∈ operation.operands, Obtained allowed x)
      (hresult : operation.outcome = .ok result) : Obtained allowed result

/-! ## Operations without a check -/

theorem scaleInRange_max {scale scale' : Int} (h : ScaleInRange scale) (h' : ScaleInRange scale') :
    ScaleInRange (max scale scale') := by
  rcases max_choice scale scale' with heq | heq <;> rwa [heq]

theorem scale_foldl_add (xs : List Decimal) (start : Decimal) :
    (xs.foldl add start).scale = (xs.map scale).foldl max start.scale := by
  induction xs generalizing start with
  | nil => rfl
  | cons x xs ih => exact ih (start.add x)

theorem scale_sum (xs : List Decimal) : (sum xs).scale = (xs.map scale).foldl max 0 :=
  scale_foldl_add xs zero

theorem scaleInRange_foldl_add {xs : List Decimal} (h : ∀ x ∈ xs, ScaleInRange x.scale)
    {start : Decimal} (hstart : ScaleInRange start.scale) :
    ScaleInRange (xs.foldl add start).scale := by
  induction xs generalizing start with
  | nil => exact hstart
  | cons x xs ih =>
    have hx := h x List.mem_cons_self
    exact ih (fun y hy => h y (List.mem_cons_of_mem _ hy)) (scaleInRange_max hstart hx)

theorem scale_max (x y : Decimal) :
    (x.max y).scale = if y.value < x.value then x.scale else y.scale := by
  simp only [Decimal.max, compare_eq, compare_gt_iff_gt]
  exact apply_ite scale ..

theorem scale_min (x y : Decimal) :
    (x.min y).scale = if y.value < x.value then y.scale else x.scale := by
  simp only [Decimal.min, compare_eq, compare_gt_iff_gt]
  exact apply_ite scale ..

/-- A normalized number leaves the range exactly where its value can be written below it. -/
theorem scaleInRange_normalized_iff {x : Decimal} (h : ScaleInRange x.scale) :
    ScaleInRange x.normalized.scale ↔ x.value = 0 ∨ ¬WrittenAt x.value (-2147483649) := by
  by_cases hx : x.unscaled = 0
  · have hzero : x.normalized = zero := if_pos hx
    rw [hzero, value_eq_zero_iff]
    exact iff_of_true (by decide) (.inl hx)
  · obtain ⟨hwritten, hlower⟩ := isLeast_normalized hx
    have hle : x.normalized.scale ≤ x.scale := hlower (writtenAt_value x)
    have hiff : WrittenAt x.value (-2147483649) ↔ x.normalized.scale ≤ -2147483649 :=
      ⟨fun hbelow => hlower hbelow, fun hbelow => hwritten.mono hbelow⟩
    rw [or_iff_right (mt value_eq_zero_iff.mp hx), hiff]
    unfold ScaleInRange at h ⊢
    omega

/-! ## Checked operations -/

theorem scaleInRange_of_checked {z result : Decimal} (h : checked z = .ok result) :
    ScaleInRange result.scale := by
  obtain ⟨hrange, rfl⟩ := checked_eq_ok_iff.mp h
  exact hrange

theorem mul_eq_checked (x y : Decimal) :
    x.mul y = checked ⟨x.unscaled * y.unscaled, x.scale + y.scale⟩ := checkScale_bind ..

theorem pow_eq_checked (x : Decimal) (exponent : Nat) :
    x.pow exponent = checked ⟨x.unscaled ^ exponent, x.scale * exponent⟩ := checkScale_bind ..

theorem div_zero_left {x y : Decimal} (hx : x.unscaled = 0) (hy : y.unscaled ≠ 0) :
    x.div y = checked ⟨0, max (x.scale - y.scale) 0⟩ := by
  simp only [div, hx, hy, if_false, if_true, checkScale_bind]

theorem scaleInRange_div {x y z : Decimal} (h : x.div y = .ok z) : ScaleInRange z.scale := by
  by_cases hy : y.unscaled = 0
  · rw [div, if_pos hy] at h
    cases h
  · rcases div_outcome x hy with ⟨hdiv, _⟩ | ⟨_, _, hdiv⟩
    · rw [hdiv] at h
      cases h
    · exact scaleInRange_of_checked (hdiv.symm.trans h)

theorem scaleInRange_divScaled {x y z : Decimal} {scale : Int} {mode : Rounding}
    (h : x.divScaled y scale mode = .ok z) : ScaleInRange z.scale := by
  by_cases hy : y.unscaled = 0
  · rw [divScaled, if_pos hy] at h
    cases h
  · rw [divScaled_eq hy] at h
    exact scaleInRange_of_checked h

/-- A reciprocal is given at the least scale at which it can be written, or at the precision if it
cannot be written at all. -/
theorem reciprocal_outcome {x : Decimal} (hx : x.unscaled ≠ 0) (precision : Nat) :
    ∃ z, x.reciprocal precision = checked z ∧
      (IsLeast {s | -x.scale ≤ s ∧ WrittenAt x.value⁻¹ s} z.scale ∨
        (∀ s, ¬WrittenAt x.value⁻¹ s) ∧ z.scale = precision) := by
  have hinverse : one.value / x.value = x.value⁻¹ := by rw [value_one, one_div]
  rcases isLeast_div (x := one) (by decide) hx with ⟨hdiv, hnone⟩ | ⟨z, hdiv, _, hleast⟩
  · refine ⟨⟨Rounding.halfEven.ofRat (one.value / x.value * 10 ^ (precision : Int)), precision⟩, ?_,
      .inr ⟨?_, rfl⟩⟩
    · rw [reciprocal, hdiv]
      exact divScaled_eq hx precision .halfEven
    · intro s hwritten
      obtain ⟨z, hz, _⟩ := hwritten
      exact hnone z (hz.trans hinverse.symm)
  · have hpreferred : one.scale - x.scale = -x.scale := zero_sub _
    rw [hinverse, hpreferred] at hleast
    exact ⟨z, reciprocal_of_div hdiv precision, .inl hleast⟩

theorem scaleInRange_reciprocal {x z : Decimal} {precision : Nat}
    (h : x.reciprocal precision = .ok z) : ScaleInRange z.scale := by
  by_cases hx : x.unscaled = 0
  · simp only [reciprocal, div, hx, if_true] at h
    cases h
  · obtain ⟨_, hchecked, _⟩ := reciprocal_outcome hx precision
    exact scaleInRange_of_checked (hchecked.symm.trans h)

/-! ## Approximations -/

theorem le_shortestFrom (x : Binary64.Magnitude) (steps : Nat) (power : Int) :
    power - steps ≤ (x.shortestFrom steps power).2 := by
  induction steps generalizing power with
  | zero => simp [Binary64.Magnitude.shortestFrom]
  | succ steps ih =>
    rw [Binary64.Magnitude.shortestFrom]
    cases x.multiple? power with
    | some count =>
      simp only
      omega
    | none =>
      have hnext := ih (power - 1)
      simp only
      omega

theorem scale_stripped {x : Decimal} {bound : Int} (hbound : 0 ≤ bound) (h : x.scale ≤ bound) :
    0 ≤ (if x.scale ≤ 0 then ⟨x.unscaledAt 0, 0⟩ else x.stripZeros 0 : Decimal).scale ∧
      (if x.scale ≤ 0 then ⟨x.unscaledAt 0, 0⟩ else x.stripZeros 0 : Decimal).scale ≤ bound := by
  split
  · exact ⟨le_rfl, hbound⟩
  · rename_i hscale
    exact ⟨le_scale_stripZeros _ (by omega), scale_stripZeros_le _ hbound h⟩

/-- The decimal for a binary number has no more digits after the point than powers are tried. -/
theorem scale_ofBits? {bits : UInt64} {z : Decimal} (h : ofBits? bits = some z) :
    0 ≤ z.scale ∧ z.scale ≤ 391 := by
  obtain ⟨magnitude, _, hz⟩ := Option.bind_eq_some_iff.mp h
  split at hz
  · obtain rfl := Option.some.inj hz
    decide
  · have hpower := le_shortestFrom magnitude 700 309
    rw [Binary64.Magnitude.shortest] at hz
    generalize magnitude.shortestFrom 700 309 = digits at hz hpower
    obtain rfl := Option.some.inj hz
    exact scale_stripped (by decide) (by simp only; omega)

theorem scale_approximate? {value : Float} {precision : Nat} {z : Decimal}
    (h : approximate? value precision = some z) : 0 ≤ z.scale ∧ z.scale ≤ 391 := by
  obtain ⟨x, hx, hz⟩ := Option.bind_eq_some_iff.mp h
  have hbounds := scale_ofBits? hx
  obtain rfl := Option.some.inj hz
  split
  · exact hbounds
  · rename_i hscale
    have hrescaled : (x.rescale precision .halfEven).scale = precision := by rw [rescale_eq]
    exact ⟨le_scale_stripZeros _ (by omega), scale_stripZeros_le _ (by decide) (by omega)⟩

theorem scaleInRange_powDecimal {x exponent z : Decimal} {precision : Nat}
    (h : x.powDecimal exponent precision = .ok z) : ScaleInRange z.scale := by
  unfold powDecimal at h
  cases hsmall : exponent.smallInteger? with
  | some n =>
    rw [hsmall] at h
    cases n with
    | ofNat n => exact scaleInRange_of_checked ((pow_eq_checked x n).symm.trans h)
    | negSucc n =>
      cases hpow : x.pow (n + 1) with
      | ok denominator =>
        simp only [hpow, bind, Except.bind] at h
        exact scaleInRange_reciprocal h
      | error error =>
        simp only [hpow, bind, Except.bind] at h
        cases h
  | none =>
    rw [hsmall] at h
    cases happroximate : approximate? (Float.pow x.toFloat exponent.toFloat) precision with
    | none =>
      simp only [happroximate] at h
      cases h
    | some power =>
      simp only [happroximate] at h
      obtain rfl := Except.ok.inj h
      have hbounds := scale_approximate? happroximate
      unfold ScaleInRange
      omega

theorem smallInteger?_of_value {exponent : Decimal} {n : Int} (hvalue : exponent.value = n)
    (hn : -2147483648 ≤ n ∧ n ≤ 2147483647) : exponent.smallInteger? = some n := by
  have hinteger : exponent.isInteger = true := isInteger_iff.mpr ⟨n, hvalue⟩
  have hlong : exponent.toInt64? = some n := by
    rw [toInt64?_eq, hvalue, Rounding.ofRat_intCast]
    exact if_pos (by omega)
  rw [smallInteger?, hinteger, hlong]
  exact if_pos hn

/-! ## Roots and literals -/

theorem value_nonneg_iff {x : Decimal} : 0 ≤ x.value ↔ 0 ≤ x.unscaled := by
  have hpow : (0 : ℚ) < 10 ^ (-x.scale) := zpow_pos (by norm_num) _
  rw [value, mul_nonneg_iff_of_pos_right hpow, Int.cast_nonneg_iff]

theorem sqrtWithPrecision_eq {x : Decimal} (hx : 0 ≤ x.unscaled) (precision : Nat) :
    x.sqrtWithPrecision precision =
      if ScaleInRange (x.rootScale precision) then some ((x.truncatedRoot precision).stripZeros 0)
      else none := by
  have hroot : floorRoot (x.unscaledAt (2 * x.rootScale precision)).natAbs =
      Nat.sqrt (x.unscaledAt (2 * x.rootScale precision)).natAbs :=
    Nat.eq_sqrt.mpr (floorRoot_bounds _)
  rw [sqrtWithPrecision, if_neg (not_lt.mpr hx)]
  simp only [radicand_eq, hroot, truncatedRoot]

theorem scaleInRange_sqrt {x z : Decimal} {precision : Nat}
    (h : x.sqrtWithPrecision precision = some z) : ScaleInRange z.scale := by
  by_cases hx : x.unscaled < 0
  · rw [sqrtWithPrecision, if_pos hx] at h
    cases h
  · rw [sqrtWithPrecision_eq (not_lt.mp hx)] at h
    split at h
    · rename_i hrange
      obtain rfl := Option.some.inj h
      have hnonneg : 0 ≤ x.rootScale precision := rootScale_nonneg x precision
      have hle := le_scale_stripZeros (x.truncatedRoot precision) hnonneg
      have hge : ((x.truncatedRoot precision).stripZeros 0).scale ≤ x.rootScale precision :=
        scale_stripZeros_le _ hnonneg le_rfl
      unfold ScaleInRange at hrange ⊢
      omega
    · cases h

/-- An exponent is read unless it is out of range. -/
theorem splitExponent_of_writes {text mantissa : List Char} {suffix : Option (List Char)}
    {exponent : Int}
    (hsplit : splitFirst (fun c => c == 'e' || c == 'E') text = (mantissa, suffix))
    (hexponent : WritesExponent suffix exponent) :
    splitExponent text =
      if ScaleInRange exponent then .ok (mantissa, exponent) else .error .exponent := by
  cases hexponent with
  | none =>
    rw [splitExponent, hsplit]
    rfl
  | @some suffix digits negative hsign hdigits hne =>
    have hall : (digits.isEmpty || !digits.all Char.isDigit) = false := by
      simp [hne, List.all_eq_true.mpr hdigits]
    have hread : exponent? suffix =
        if ScaleInRange (signed negative (digitValue digits)) then
          some (signed negative (digitValue digits)) else none := by
      rw [exponent?, hsign]
      simp only [hall]
      rfl
    rw [splitExponent, hsplit]
    by_cases hrange : ScaleInRange (signed negative (digitValue digits))
    · simp only [hread, if_pos hrange]
    · simp only [hread, if_neg hrange]

/-- A literal is a number in range, whatever else is wrong with it otherwise. -/
theorem scaleInRange_ofChars? {text : List Char} {z : Decimal} (h : ofChars? text = .ok z) :
    ScaleInRange z.scale := by
  obtain ⟨_, _, _, _, _, _, hrange⟩ := ofChars?_eq_ok h
  exact hrange

namespace Operation

/-! ## What one operation does -/

/-- An operation that has room gives a scale in range if its operands have such scales. -/
theorem scaleInRange {operation : Operation} {result : Decimal} (hroom : operation.HasRoom)
    (hoperands : ∀ x ∈ operation.operands, ScaleInRange x.scale)
    (hresult : operation.outcome = .ok result) : ScaleInRange result.scale := by
  cases operation with
  | new unscaled scale inRange =>
    obtain rfl := Except.ok.inj hresult
    exact inRange
  | ofInt n =>
    obtain rfl := Except.ok.inj hresult
    exact (by decide : ScaleInRange 0)
  | ofText text => exact scaleInRange_ofChars? (mapError_eq_ok_iff.mp hresult)
  | add x y =>
    obtain rfl := Except.ok.inj hresult
    exact scaleInRange_max (hoperands x (by simp [operands])) (hoperands y (by simp [operands]))
  | sub x y =>
    obtain rfl := Except.ok.inj hresult
    exact scaleInRange_max (hoperands x (by simp [operands])) (hoperands y (by simp [operands]))
  | mul x y =>
    exact scaleInRange_of_checked ((mul_eq_checked x y).symm.trans (mapError_eq_ok_iff.mp hresult))
  | div x y => exact scaleInRange_div (mapError_eq_ok_iff.mp hresult)
  | divScaled x y scale mode => exact scaleInRange_divScaled (mapError_eq_ok_iff.mp hresult)
  | rem x y =>
    have hrem := mapError_eq_ok_iff.mp hresult
    unfold Decimal.rem at hrem
    split at hrem
    · cases hrem
    · obtain rfl := Except.ok.inj hrem
      exact scaleInRange_max (hoperands x (by simp [operands])) (hoperands y (by simp [operands]))
  | neg x =>
    obtain rfl := Except.ok.inj hresult
    exact hoperands x (by simp [operands])
  | abs x =>
    obtain rfl := Except.ok.inj hresult
    exact hoperands x (by simp [operands])
  | pow x exponent =>
    exact scaleInRange_of_checked
      ((pow_eq_checked x exponent).symm.trans (mapError_eq_ok_iff.mp hresult))
  | square x =>
    exact scaleInRange_of_checked ((pow_eq_checked x 2).symm.trans (mapError_eq_ok_iff.mp hresult))
  | powDecimal x exponent precision =>
    exact scaleInRange_powDecimal (mapError_eq_ok_iff.mp hresult)
  | sqrt x precision =>
    cases hroot : x.sqrtWithPrecision precision with
    | none =>
      rw [outcome, hroot] at hresult
      cases hresult
    | some root =>
      rw [outcome, hroot] at hresult
      obtain rfl := Except.ok.inj hresult
      exact scaleInRange_sqrt hroot
  | round x scale mode =>
    exact scaleInRange_of_checked ((round_eq x scale mode).symm.trans (mapError_eq_ok_iff.mp hresult))
  | roundToCents x =>
    obtain rfl := Except.ok.inj hresult
    rw [Decimal.roundToCents, rescale_eq]
    exact (by decide : ScaleInRange 2)
  | normalized x =>
    obtain rfl := Except.ok.inj hresult
    exact (scaleInRange_normalized_iff (hoperands x (by simp [operands]))).mpr hroom
  | sum xs =>
    obtain rfl := Except.ok.inj hresult
    exact scaleInRange_foldl_add hoperands (by decide : ScaleInRange zero.scale)
  | max x y =>
    obtain rfl := Except.ok.inj hresult
    rw [scale_max]
    split
    · exact hoperands x (by simp [operands])
    · exact hoperands y (by simp [operands])
  | min x y =>
    obtain rfl := Except.ok.inj hresult
    rw [scale_min]
    split
    · exact hoperands y (by simp [operands])
    · exact hoperands x (by simp [operands])

/-- The result has this scale, or the operation is refused because it wants it. -/
def Meets (operation : Operation) (scale : Int) : Prop :=
  operation.outcome = .error operation.overflow ∨
    ∃ z, operation.outcome = .ok z ∧ z.scale = scale

theorem Meets.of_ok {operation : Operation} {z : Decimal} {scale : Int}
    (h : operation.outcome = .ok z) (hscale : z.scale = scale) : operation.Meets scale :=
  .inr ⟨z, h, hscale⟩

theorem Meets.of_checked {operation : Operation} {result : Except ArithmeticError Decimal}
    {z : Decimal} {scale : Int} (houtcome : operation.outcome = result.mapError .arithmetic)
    (h : result = checked z) (hoverflow : operation.overflow = .arithmetic .scaleOverflow)
    (hscale : z.scale = scale) : operation.Meets scale := by
  rw [h, checked] at houtcome
  split at houtcome
  · exact .of_ok houtcome hscale
  · exact .inl (houtcome.trans (congrArg Except.error hoverflow.symm))

theorem meets_ofText {text : String} {mantissa whole fraction : List Char}
    {suffix : Option (List Char)} {exponent : Int}
    (hsplit : splitFirst (fun c => c == 'e' || c == 'E') (trimBlanks text.toList) =
      (mantissa, suffix))
    (hdigits : mantissaDigits mantissa = (whole, fraction)) (hwhole : AllDigits whole)
    (hfraction : AllDigits fraction) (hne : whole ≠ [] ∨ fraction ≠ [])
    (hexponent : WritesExponent suffix exponent) :
    (Operation.ofText text).Meets (fraction.length - exponent) := by
  have hrefused : ∀ h : ofText? text = .error .exponent,
      (Operation.ofText text).outcome = .error (Operation.ofText text).overflow := by
    intro h
    rw [outcome, h]
    rfl
  have hread := splitExponent_of_writes hsplit hexponent
  by_cases hrange : ScaleInRange exponent
  · rw [if_pos hrange] at hread
    have hchars := ofChars?_of_mantissaDigits hread hdigits hwhole hfraction hne
    by_cases hscale : ScaleInRange (fraction.length - exponent)
    · rw [if_pos hscale] at hchars
      exact .of_ok (mapError_eq_ok_iff.mpr hchars) rfl
    · rw [if_neg hscale] at hchars
      exact .inl (hrefused hchars)
  · rw [if_neg hrange] at hread
    refine .inl (hrefused ?_)
    rw [ofText?, ofChars?, hread]
    rfl

theorem meets_div {x y : Decimal} {scale : Int} (hx : x.value ≠ 0) (hy : y.value ≠ 0)
    (hleast : IsLeast {s | x.scale - y.scale ≤ s ∧ WrittenAt (x.value / y.value) s} scale) :
    (Operation.div x y).Meets scale := by
  rcases isLeast_div (mt value_eq_zero_iff.mpr hx) (mt value_eq_zero_iff.mpr hy) with
    ⟨_, hnone⟩ | ⟨z, hdiv, _, hz⟩
  · obtain ⟨z, hz, _⟩ := hleast.1.2
    exact absurd hz (hnone z)
  · exact .of_checked rfl hdiv rfl (hz.unique hleast)

theorem meets_power {x exponent : Decimal} {n : Nat} (hn : n ≤ 2147483647)
    (hexponent : exponent.value = n) (precision : Nat) :
    (Operation.powDecimal x exponent precision).Meets (x.scale * n) := by
  have hsmall : exponent.smallInteger? = some (n : Int) :=
    smallInteger?_of_value (by rw [hexponent, Int.cast_natCast]) (by omega)
  have hpow : x.powDecimal exponent precision = x.pow n := by
    rw [Decimal.powDecimal, hsmall]
  exact .of_checked rfl (hpow.trans (pow_eq_checked x n)) rfl rfl

/-- A power with a negative exponent is the reciprocal of a power, and refused if that is. -/
theorem meets_inverse {x exponent : Decimal} {n : Nat} {scale : Int} (hn : n < 2147483648)
    (hexponent : exponent.value = -(n + 1 : Nat)) {precision : Nat}
    (h : ∀ d : Decimal, d.scale = x.scale * (n + 1 : Nat) → d.value = x.value ^ (n + 1) →
      ∃ z, d.reciprocal precision = checked z ∧ z.scale = scale) :
    (Operation.powDecimal x exponent precision).Meets scale := by
  have hsmall : exponent.smallInteger? = some (.negSucc n) := by
    refine smallInteger?_of_value ?_ (by omega)
    rw [hexponent, Int.cast_negSucc]
  obtain ⟨z, hreciprocal, hscale⟩ := h _ rfl (value_pow x (n + 1))
  have hpow : x.powDecimal exponent precision =
      (x.pow (n + 1) >>= fun d => d.reciprocal precision) := by
    rw [Decimal.powDecimal, hsmall]
  rw [pow_eq_checked, checked] at hpow
  split at hpow
  · exact .of_checked rfl (hpow.trans hreciprocal) rfl hscale
  · refine .inl ?_
    rw [outcome, hpow]
    rfl

theorem meets_sqrt {x : Decimal} {precision : Nat} {scale : Int} (hx : 0 ≤ x.value)
    (hleast : IsLeast {s | 0 ≤ s ∧ WrittenAt (x.truncatedRoot precision).value s} scale) :
    (Operation.sqrt x precision).Meets scale := by
  have hnonneg : 0 ≤ x.rootScale precision := rootScale_nonneg x precision
  have hroot := sqrtWithPrecision_eq (value_nonneg_iff.mp hx) precision
  split at hroot
  · refine .of_ok ?_ ((isLeast_stripZeros_zero hnonneg).unique hleast)
    rw [outcome, hroot]
    rfl
  · refine .inl ?_
    rw [outcome, hroot]
    rfl

/-- An operation gives the scale that it wants, or is refused for it. -/
theorem WantsScale.meets {operation : Operation} {scale : Int} (h : operation.WantsScale scale) :
    operation.Meets scale := by
  cases h with
  | new unscaled scale inRange => exact .of_ok rfl rfl
  | ofInt n => exact .of_ok rfl rfl
  | ofText hsplit hdigits hwhole hfraction hne hexponent =>
    exact meets_ofText hsplit hdigits hwhole hfraction hne hexponent
  | add x y => exact .of_ok rfl rfl
  | sub x y => exact .of_ok rfl rfl
  | mul x y => exact .of_checked rfl (mul_eq_checked x y) rfl rfl
  | div hx hy hleast => exact meets_div hx hy hleast
  | divZero hx hy =>
    have hdiv := div_zero_left (value_eq_zero_iff.mp hx) (mt value_eq_zero_iff.mpr hy)
    exact .of_checked rfl hdiv rfl rfl
  | divScaled hy scale mode =>
    exact .of_checked rfl (divScaled_eq (mt value_eq_zero_iff.mpr hy) scale mode) rfl rfl
  | @rem x y hy =>
    have hrem : x.rem y = .ok _ := if_neg (mt value_eq_zero_iff.mpr hy)
    exact .of_ok (mapError_eq_ok_iff.mpr hrem) rfl
  | neg x => exact .of_ok rfl rfl
  | abs x => exact .of_ok rfl rfl
  | pow x exponent => exact .of_checked rfl (pow_eq_checked x exponent) rfl rfl
  | square x => exact .of_checked rfl (pow_eq_checked x 2) rfl rfl
  | power hn hexponent precision => exact meets_power hn hexponent precision
  | inverse hn hexponent hx hleast precision =>
    refine meets_inverse hn hexponent ?_
    intro d hscale hvalue
    have hd : d.unscaled ≠ 0 := mt value_eq_zero_iff.mpr (hvalue ▸ pow_ne_zero _ hx)
    rw [← hscale, ← hvalue] at hleast
    obtain ⟨z, hreciprocal, hz | ⟨hnone, _⟩⟩ := reciprocal_outcome hd precision
    · exact ⟨z, hreciprocal, hz.unique hleast⟩
    · exact absurd hleast.1.2 (hnone scale)
  | roundedInverse hn hexponent hx hnone precision =>
    refine meets_inverse hn hexponent ?_
    intro d hscale hvalue
    have hd : d.unscaled ≠ 0 := mt value_eq_zero_iff.mpr (hvalue ▸ pow_ne_zero _ hx)
    rw [← hvalue] at hnone
    obtain ⟨z, hreciprocal, hz | ⟨_, hz⟩⟩ := reciprocal_outcome hd precision
    · exact absurd hz.1.2 (hnone z.scale)
    · exact ⟨z, hreciprocal, hz⟩
  | sqrt hx hleast => exact meets_sqrt hx hleast
  | round x scale mode => exact .of_checked rfl (round_eq x scale mode) rfl rfl
  | roundToCents x => exact .of_ok rfl (by rw [Decimal.roundToCents, rescale_eq])
  | normalized hx hleast =>
    exact .of_ok rfl ((isLeast_normalized (mt value_eq_zero_iff.mpr hx)).unique hleast)
  | @normalizedZero x hx =>
    have hzero : x.normalized = zero := if_pos (value_eq_zero_iff.mp hx)
    exact .of_ok (congrArg Except.ok hzero) rfl
  | sum xs => exact .of_ok rfl (scale_sum xs)
  | max x y => exact .of_ok rfl (scale_max x y)
  | min x y => exact .of_ok rfl (scale_min x y)

end Operation

/-! ## All that can be obtained -/

/-- Where all operations have room, every scale is in range. -/
theorem Obtained.scaleInRange {x : Decimal} (h : Obtained Operation.HasRoom x) :
    ScaleInRange x.scale := by
  induction h with
  | of hallowed _ hresult ih => exact Operation.scaleInRange hallowed ih hresult

/-- On decimals that were obtained by operations that have room, the scales are in range.  An operation
that has room gives one in range again, and is refused if it wants one that is not.  An operation that
has no room is carried out all the same and leaves the range. -/
theorem scaleInRange_of_obtained {operation : Operation}
    (hoperands : ∀ x ∈ operation.operands, Obtained Operation.HasRoom x) :
    (∀ x ∈ operation.operands, ScaleInRange x.scale) ∧
    (operation.HasRoom →
      (∀ z, operation.outcome = .ok z → ScaleInRange z.scale) ∧
      ∀ scale, operation.WantsScale scale → ¬ScaleInRange scale →
        operation.outcome = .error operation.overflow) ∧
    (¬operation.HasRoom → ∃ z, operation.outcome = .ok z ∧ ¬ScaleInRange z.scale) := by
  have hscales : ∀ x ∈ operation.operands, ScaleInRange x.scale :=
    fun x hx => (hoperands x hx).scaleInRange
  refine ⟨hscales, fun hroom => ⟨fun z hresult => Operation.scaleInRange hroom hscales hresult, ?_⟩,
    fun hroom => ?_⟩
  · intro scale hwants hout
    rcases hwants.meets with hrefused | ⟨z, hresult, hscale⟩
    · exact hrefused
    · have hrange := Operation.scaleInRange hroom hscales hresult
      rw [hscale] at hrange
      exact absurd hrange hout
  · cases operation with
    | normalized x =>
      refine ⟨x.normalized, rfl, ?_⟩
      rwa [scaleInRange_normalized_iff (hscales x (by simp [Operation.operands]))]
    | _ => exact absurd trivial hroom

theorem obtained_ofText {allowed : Operation → Prop} {text : String} {x : Decimal}
    (hallowed : allowed (.ofText text)) (h : ofText? text = .ok x) : Obtained allowed x :=
  .of hallowed (by simp [Operation.operands]) (mapError_eq_ok_iff.mpr h)

theorem ofText?_twoZeros : ofText? "100e2147483647" = .ok ⟨100, -2147483647⟩ := by cbv

/-- A number at the greatest scale has no square, and one next to the least scale loses a zero too many. -/
theorem scaleInRange_of_obtained_ends :
    Obtained Operation.HasRoom ⟨1, 2147483647⟩ ∧ ScaleInRange 2147483647 ∧
      (Operation.mul ⟨1, 2147483647⟩ ⟨1, 2147483647⟩).WantsScale 4294967294 ∧
      ¬ScaleInRange 4294967294 ∧
      (Operation.mul ⟨1, 2147483647⟩ ⟨1, 2147483647⟩).outcome =
        .error (.arithmetic .scaleOverflow) ∧
      Obtained Operation.HasRoom ⟨100, -2147483647⟩ ∧
      ¬(Operation.normalized ⟨100, -2147483647⟩).HasRoom ∧
      ∃ z, (Operation.normalized ⟨100, -2147483647⟩).outcome = .ok z ∧ ¬ScaleInRange z.scale := by
  have htop : Obtained Operation.HasRoom ⟨1, 2147483647⟩ :=
    obtained_ofText trivial (show ofText? "1e-2147483647" = _ by cbv)
  have hbottom : Obtained Operation.HasRoom ⟨100, -2147483647⟩ :=
    obtained_ofText trivial ofText?_twoZeros
  have hwants : (Operation.mul ⟨1, 2147483647⟩ ⟨1, 2147483647⟩).WantsScale 4294967294 := .mul _ _
  have hout : ¬ScaleInRange 4294967294 := by decide
  have hnoroom : ¬(Operation.normalized ⟨100, -2147483647⟩).HasRoom := by
    intro hroom
    have hrange := (scaleInRange_normalized_iff (by decide)).mpr hroom
    exact absurd hrange (by decide)
  have hproduct := @scaleInRange_of_obtained (.mul ⟨1, 2147483647⟩ ⟨1, 2147483647⟩)
    (by simpa [Operation.operands] using htop)
  have hstripped := @scaleInRange_of_obtained (.normalized ⟨100, -2147483647⟩)
    (by simpa [Operation.operands] using hbottom)
  exact ⟨htop, hproduct.1 ⟨1, 2147483647⟩ (by simp [Operation.operands]), hwants, hout,
    (hproduct.2.1 trivial).2 _ hwants hout, hbottom, hnoroom, hstripped.2.2 hnoroom⟩

/-- Next to the lower end of the range two zeros are one too many to drop. -/
theorem normalized_leaves_range :
    Obtained (fun _ => True) ⟨100, -2147483647⟩ ∧
      (Operation.normalized ⟨100, -2147483647⟩).outcome = .ok ⟨1, -2147483649⟩ ∧
      Obtained (fun _ => True) ⟨1, -2147483649⟩ ∧ ¬ScaleInRange (-2147483649) := by
  have hread : Obtained (fun _ => True) ⟨100, -2147483647⟩ := obtained_ofText trivial ofText?_twoZeros
  have hnormalized : (Operation.normalized ⟨100, -2147483647⟩).outcome = .ok ⟨1, -2147483649⟩ := by
    decide
  refine ⟨hread, hnormalized, .of trivial ?_ hnormalized, by decide⟩
  simpa [Operation.operands] using hread

end Abacus.Decimal
