import Abacus.Proofs.Decimal.Integers
import Abacus.Proofs.Decimal.ScaleRange

/-!
# Scales in machine words

The operations on decimals compute with scales of any size and check only the scale of the result.  On a
machine scales are signed 64-bit words, and a sum, a difference or a negation of words can leave them
unnoticed, while a power of ten with a negative exponent is none at all.

`Machine` has the operations once more, step by step as a machine takes them: every sum, difference,
product and negation of scales has to be a word (`word`), every power of ten needs an exponent that is
not negative (`tenPow`), and decimals are made of scales in range only (`fromParts`).  A step for which
this fails is a fault.  From operands with scales in range no operation comes to a fault, so each gives
what it gives with scales of any size.  The shift of a quotient adds three scales, and the scale of a
power is a 31-bit scale times a 32-bit exponent, which a word just holds (`isWord_mul`).

One difference has no such bound, that of the number of digits behind a point and an exponent: a text of
nearly `2 ^ 63` digits can have one that is no word.  It is checked for that, and refused like a scale out
of range; in every shorter text the difference is a word (`ofText?_eq`).

The main statement is `scales_stay_words`.
-/

namespace Abacus

/-! ## Steps on words -/

namespace Machine

/-- Why a machine stops. -/
inductive Fault (ε : Type) where
  /-- A scale or a shift is no signed 64-bit word. -/
  | overflow
  /-- The exponent of a power of ten is negative. -/
  | negativePower
  /-- A decimal is made with a scale out of range. -/
  | scaleOutOfRange
  /-- The operation has no result, and says why. -/
  | refused (error : ε)
deriving DecidableEq

variable {ε : Type}

/-- An integer that the machine computes as a word. -/
def word (n : Int) : Except (Fault ε) Int := if IsWord n then .ok n else .error .overflow

/-- A power of ten. -/
def tenPow (exponent : Int) : Except (Fault ε) Int :=
  if 0 ≤ exponent then .ok (10 ^ exponent.toNat) else .error .negativePower

/-- What a coefficient at scale `low` is multiplied by to be written at scale `high`. -/
def factor (high low : Int) : Except (Fault ε) Int := do tenPow (← word (high - low))

/-- A decimal, whose scale has to be in range. -/
def fromParts (unscaled scale : Int) : Except (Fault ε) Decimal :=
  if ScaleInRange scale then .ok ⟨unscaled, scale⟩ else .error .scaleOutOfRange

/-- A result that may be refused. -/
def refusing {α : Type} (result : Except ε α) : Except (Fault ε) α := result.mapError .refused

/-- Both coefficients at the larger of the two scales, and that scale. -/
def align (x y : Decimal) : Except (Fault ε) (Int × Int × Int) :=
  match Ord.compare x.scale y.scale with
  | .eq => return (x.unscaled, y.unscaled, x.scale)
  | .lt => do
    let power ← factor y.scale x.scale
    return (x.unscaled * power, y.unscaled, y.scale)
  | .gt => do
    let power ← factor x.scale y.scale
    return (x.unscaled, y.unscaled * power, x.scale)

/-- Removes trailing zeros of a coefficient one by one, at most `places` of them. -/
def dropZeros : (places : Nat) → (unscaled scale : Int) → Except (Fault ε) Decimal
  | 0, unscaled, scale => return ⟨unscaled, scale⟩
  | places + 1, unscaled, scale =>
    if unscaled.tmod 10 = 0 then do
      let scale ← word (scale - 1)
      dropZeros places (unscaled.tdiv 10) scale
    else return ⟨unscaled, scale⟩

/-- Removes trailing zeros while the scale is above `least`. -/
def stripZeros (x : Decimal) (least : Int) : Except (Fault ε) Decimal :=
  if x.unscaled = 0 then return ⟨0, max least 0⟩
  else dropZeros (x.scale - least).toNat x.unscaled x.scale

/-! ## Operations -/

/-- The exact sum. -/
def add (x y : Decimal) : Except (Fault ε) Decimal := do
  let (left, right, scale) ← align x y
  fromParts (left + right) scale

/-- The exact difference. -/
def sub (x y : Decimal) : Except (Fault ε) Decimal := do
  let (left, right, scale) ← align x y
  fromParts (left - right) scale

/-- The exact product. -/
def mul (x y : Decimal) : Except (Fault ArithmeticError) Decimal := do
  let scale ← refusing (checkScale (← word (x.scale + y.scale)))
  fromParts (x.unscaled * y.unscaled) scale

/-- The exact power. -/
def pow (x : Decimal) (exponent : Nat) : Except (Fault ArithmeticError) Decimal := do
  let scale ← refusing (checkScale (← word (x.scale * exponent)))
  fromParts (x.unscaled ^ exponent) scale

/-- The remainder of the truncated quotient. -/
def rem (x y : Decimal) : Except (Fault ArithmeticError) Decimal :=
  if y.unscaled = 0 then .error (.refused .divisionByZero)
  else do
    let (left, right, scale) ← align x y
    fromParts (left.tmod right) scale

/-- The coefficients of a quotient.  One of them is moved by a number of places. -/
def shifted (x y : Decimal) (shift : Int) : Except (Fault ε) (Int × Int) :=
  if 0 ≤ shift then do
    let power ← tenPow shift
    return (x.unscaled * power, y.unscaled)
  else do
    let power ← tenPow (← word (-shift))
    return (x.unscaled, y.unscaled * power)

/-- The quotient with `scale` digits after the point. -/
def divScaled (x y : Decimal) (scale : Int) (mode : Rounding) :
    Except (Fault ArithmeticError) Decimal :=
  if y.unscaled = 0 then .error (.refused .divisionByZero)
  else do
    let scale ← refusing (checkScale scale)
    let distance ← word (scale - x.scale)
    let shift ← word (distance + y.scale)
    let (numerator, denominator) ← shifted x y shift
    fromParts (roundQuotient mode numerator denominator) scale

/-- The number written with `scale` digits after the point. -/
def rescale (x : Decimal) (scale : Int) (mode : Rounding) : Except (Fault ε) Decimal :=
  if x.scale ≤ scale then do
    let power ← factor scale x.scale
    fromParts (x.unscaled * power) scale
  else do
    let divisor ← factor x.scale scale
    fromParts (roundQuotient mode x.unscaled divisor) scale

/-- The number rounded to `scale` digits after the point. -/
def round (x : Decimal) (scale : Int) (mode : Rounding) :
    Except (Fault ArithmeticError) Decimal := do
  let scale ← refusing (checkScale scale)
  rescale x scale mode

/-- The truncated square root without trailing zeros, if there is one. -/
def sqrtWithPrecision (x : Decimal) (precision : Nat) : Except (Fault ε) (Option Decimal) :=
  if x.unscaled < 0 then return none
  else do
    let target ← word (max x.scale 0 + precision)
    if ScaleInRange target then
      let doubled ← word (2 * target)
      let power ← factor doubled x.scale
      let root ← fromParts (floorRoot (x.unscaled * power).natAbs) target
      let stripped ← stripZeros root 0
      return some stripped
    else return none

/-- The whole part, if it is a word. -/
def toInt64? (x : Decimal) : Except (Fault ε) (Option Int) :=
  if x.unscaled = 0 then return some 0
  else if x.scale < -18 then return none
  else do
    let whole ←
      if x.scale ≤ 0 then do
        let power ← tenPow (← word (-x.scale))
        pure (x.unscaled * power)
      else do
        let power ← tenPow x.scale
        pure (x.unscaled.tdiv power)
    return if IsWord whole then some whole else none

/-- The order of the values. -/
def compare (x y : Decimal) : Except (Fault ε) Ordering :=
  let signs := Ord.compare x.unscaled.sign y.unscaled.sign
  if signs ≠ .eq then return signs
  else do
    let (left, right, _) ← align x y
    return Ord.compare left right

/-- The scale of a literal, by the digits behind its point and its exponent.  Their difference is checked
to be a word, and `beyond` is what comes of it where it is none. -/
def literalScale (beyond : Fault LiteralError) (fraction : List Char) (exponent : Int) :
    Except (Fault LiteralError) Int := do
  let places ← word fraction.length
  let scale := places - exponent
  if ¬IsWord scale then throw beyond
  if ScaleInRange scale then return scale else throw (.refused .exponent)

/-- The decimal that a text writes. -/
def ofText? (beyond : Fault LiteralError) (text : String) : Except (Fault LiteralError) Decimal := do
  let (mantissa, exponent) ← refusing (Decimal.splitExponent (trimBlanks text.toList))
  let (negative, digits) := splitSign mantissa
  let (whole, fraction) := splitFirst (· == '.') digits
  let fraction := fraction.getD []
  if whole.isEmpty && fraction.isEmpty then throw (.refused .empty)
  if !whole.all Char.isDigit || !fraction.all Char.isDigit then throw (.refused .invalidDigit)
  let scale ← literalScale beyond fraction exponent
  fromParts (signed negative (digitValue (whole ++ fraction))) scale

/-! ## Steps without a fault -/

variable {x y : Decimal} {n a b : Int}

theorem word_eq (h : IsWord n) : (word n : Except (Fault ε) Int) = .ok n := if_pos h

theorem tenPow_eq (h : 0 ≤ n) : (tenPow n : Except (Fault ε) Int) = .ok (10 ^ n.toNat) := if_pos h

theorem fromParts_eq (h : ScaleInRange n) (unscaled : Int) :
    (fromParts unscaled n : Except (Fault ε) Decimal) = .ok ⟨unscaled, n⟩ := if_pos h

theorem isWord_sub (ha : ScaleInRange a) (hb : ScaleInRange b) : IsWord (a - b) := by
  unfold ScaleInRange at ha hb
  unfold IsWord
  omega

/-- A scale times an unsigned 32-bit exponent is a word. -/
theorem isWord_mul (h : ScaleInRange n) {exponent : Nat} (hexponent : exponent < 4294967296) :
    IsWord (n * exponent) := by
  unfold ScaleInRange at h
  have hsize : |n| ≤ 2147483648 := abs_le.mpr (by omega)
  have hproduct : |n * exponent| ≤ 2147483648 * 4294967295 := by
    rw [abs_mul, Nat.abs_cast]
    exact mul_le_mul hsize (by omega) (by omega) (by norm_num)
  have hbounds := abs_le.mp hproduct
  unfold IsWord
  omega

theorem factor_eq (h : b ≤ a) (hword : IsWord (a - b)) :
    (factor a b : Except (Fault ε) Int) = .ok (10 ^ (a - b).toNat) := by
  rw [factor, word_eq hword]
  exact tenPow_eq (by omega)

theorem align_eq (hx : ScaleInRange x.scale) (hy : ScaleInRange y.scale) :
    (align x y : Except (Fault ε) (Int × Int × Int)) =
      .ok (x.unscaledAt (x.commonScale y), y.unscaledAt (x.commonScale y), x.commonScale y) := by
  unfold align Decimal.commonScale
  rcases lt_trichotomy x.scale y.scale with h | h | h
  · rw [compare_lt_iff_lt.mpr h, max_eq_right h.le, Decimal.unscaledAt_self]
    simp only [factor_eq h.le (isWord_sub hy hx)]
    rfl
  · rw [compare_eq_iff_eq.mpr h, max_eq_left h.ge, Decimal.unscaledAt_self, h,
      Decimal.unscaledAt_self]
    rfl
  · rw [compare_gt_iff_gt.mpr h, max_eq_left h.le, Decimal.unscaledAt_self]
    simp only [factor_eq h.le (isWord_sub hx hy)]
    rfl

theorem add_eq (hx : ScaleInRange x.scale) (hy : ScaleInRange y.scale) :
    (add x y : Except (Fault ε) Decimal) = .ok (x + y) := by
  rw [add, align_eq hx hy]
  exact fromParts_eq (Decimal.scaleInRange_max hx hy) _

theorem sub_eq (hx : ScaleInRange x.scale) (hy : ScaleInRange y.scale) :
    (sub x y : Except (Fault ε) Decimal) = .ok (x - y) := by
  rw [sub, align_eq hx hy]
  exact fromParts_eq (Decimal.scaleInRange_max hx hy) _

theorem rem_eq (hx : ScaleInRange x.scale) (hy : ScaleInRange y.scale) :
    rem x y = refusing (x.rem y) := by
  by_cases hzero : y.unscaled = 0
  · simp only [rem, Decimal.rem, hzero, if_true]
    rfl
  · simp only [rem, Decimal.rem, hzero, if_false, align_eq hx hy]
    exact fromParts_eq (Decimal.scaleInRange_max hx hy) _

theorem compare_eq (hx : ScaleInRange x.scale) (hy : ScaleInRange y.scale) :
    (compare x y : Except (Fault ε) Ordering) = .ok (x.compare y) := by
  simp only [compare, Decimal.compare]
  cases Ord.compare x.unscaled.sign y.unscaled.sign with
  | eq =>
    rw [align_eq hx hy]
    rfl
  | lt => rfl
  | gt => rfl

/-- Behind the check of a scale only scales in range are met. -/
theorem checkScale_bind {scale : Int} {f : Int → Except (Fault ArithmeticError) Decimal}
    {f' : Int → Except ArithmeticError Decimal}
    (h : ScaleInRange scale → f scale = refusing (f' scale)) :
    (refusing (checkScale scale) >>= f) = refusing (checkScale scale >>= f') := by
  by_cases hscale : ScaleInRange scale
  · have hchecked : checkScale scale = .ok scale := if_pos hscale
    rw [hchecked]
    exact h hscale
  · have hchecked : checkScale scale = .error .scaleOverflow := if_neg hscale
    rw [hchecked]
    rfl

theorem mul_eq (hx : ScaleInRange x.scale) (hy : ScaleInRange y.scale) :
    mul x y = refusing (x.mul y) := by
  have hword : IsWord (x.scale + y.scale) := by
    unfold ScaleInRange at hx hy
    unfold IsWord
    omega
  rw [mul, word_eq hword]
  exact checkScale_bind fun hscale => fromParts_eq hscale _

theorem pow_eq (hx : ScaleInRange x.scale) {exponent : Nat} (hexponent : exponent < 4294967296) :
    pow x exponent = refusing (x.pow exponent) := by
  rw [pow, word_eq (isWord_mul hx hexponent)]
  exact checkScale_bind fun hscale => fromParts_eq hscale _

theorem rescale_eq (hx : ScaleInRange x.scale) (hscale : ScaleInRange n) (mode : Rounding) :
    (rescale x n mode : Except (Fault ε) Decimal) = .ok (x.rescale n mode) := by
  by_cases hle : x.scale ≤ n
  · simp only [rescale, Decimal.rescale, hle, if_true, factor_eq hle (isWord_sub hscale hx)]
    exact fromParts_eq hscale _
  · simp only [rescale, Decimal.rescale, hle, if_false,
      factor_eq (not_le.mp hle).le (isWord_sub hx hscale)]
    exact fromParts_eq hscale _

theorem round_eq (hx : ScaleInRange x.scale) (scale : Int) (mode : Rounding) :
    round x scale mode = refusing (x.round scale mode) :=
  checkScale_bind fun hscale => rescale_eq hx hscale mode

theorem shifted_eq (h : IsWord (-n)) :
    (shifted x y n : Except (Fault ε) (Int × Int)) =
      .ok (x.unscaled * 10 ^ n.toNat, y.unscaled * 10 ^ (-n).toNat) := by
  by_cases hn : 0 ≤ n
  · have hzero : (-n).toNat = 0 := by omega
    rw [shifted, if_pos hn, tenPow_eq hn, hzero, pow_zero, mul_one]
    rfl
  · have hzero : n.toNat = 0 := by omega
    have hpower : (tenPow (-n) : Except (Fault ε) Int) = .ok (10 ^ (-n).toNat) :=
      tenPow_eq (by omega)
    rw [shifted, if_neg hn, word_eq h, hzero, pow_zero, mul_one]
    simp only [bind, Except.bind, hpower]
    rfl

theorem divScaled_eq (hx : ScaleInRange x.scale) (hy : ScaleInRange y.scale) (scale : Int)
    (mode : Rounding) : divScaled x y scale mode = refusing (x.divScaled y scale mode) := by
  by_cases hzero : y.unscaled = 0
  · rw [divScaled, if_pos hzero, Decimal.divScaled, if_pos hzero]
    rfl
  · rw [divScaled, if_neg hzero, Decimal.divScaled, if_neg hzero]
    apply checkScale_bind
    intro hscale
    have hshift : IsWord (x.divisionShift y scale) ∧ IsWord (-x.divisionShift y scale) := by
      unfold ScaleInRange at hx hy hscale
      unfold IsWord Decimal.divisionShift
      omega
    have hsum : (word (scale - x.scale + y.scale) : Except (Fault ArithmeticError) Int) =
        .ok (x.divisionShift y scale) := word_eq hshift.1
    simp only [bind, Except.bind, word_eq (isWord_sub hscale hx), hsum, shifted_eq hshift.2]
    exact fromParts_eq hscale _

/-- Zeros are removed one by one. -/
theorem dropZeros_eq {places : Nat} {unscaled scale : Int} (hhigh : IsWord scale)
    (hlow : IsWord (scale - places)) :
    (dropZeros places unscaled scale : Except (Fault ε) Decimal) =
      .ok (Decimal.dropZeros ⟨unscaled, scale⟩ places) := by
  induction places generalizing unscaled scale with
  | zero =>
    simp only [dropZeros, Decimal.dropZeros, stripFactor, Int.sign_mul_natAbs, Nat.cast_zero,
      Int.sub_zero]
    rfl
  | succ places ih =>
    have hnext : IsWord (scale - 1) := by
      unfold IsWord at *
      omega
    by_cases hdvd : (10 : Int) ∣ unscaled
    · obtain ⟨k, rfl⟩ := hdvd
      have hrest : (10 * k).tdiv 10 = k := Int.mul_tdiv_cancel_left k (by norm_num)
      rw [dropZeros, if_pos (Int.mul_tmod_right ..), word_eq hnext, hrest, Decimal.dropZeros_ten_mul]
      exact ih hnext (by unfold IsWord at *; omega)
    · rw [dropZeros, if_neg (mt Int.dvd_of_tmod_eq_zero hdvd), Decimal.dropZeros_of_not_dvd hdvd]
      rfl

theorem stripZeros_eq (hword : IsWord x.scale) (hleast : IsWord n) (hle : n ≤ x.scale) :
    (stripZeros x n : Except (Fault ε) Decimal) = .ok (x.stripZeros n) := by
  by_cases hzero : x.unscaled = 0
  · rw [stripZeros, if_pos hzero, Decimal.stripZeros, if_pos hzero]
    rfl
  · rw [stripZeros, if_neg hzero, Decimal.stripZeros, if_neg hzero]
    apply dropZeros_eq hword
    unfold IsWord at *
    omega

theorem sqrtWithPrecision_eq (hx : ScaleInRange x.scale) {precision : Nat}
    (hprecision : precision < 4294967296) :
    (sqrtWithPrecision x precision : Except (Fault ε) (Option Decimal)) =
      .ok (x.sqrtWithPrecision precision) := by
  by_cases hnegative : x.unscaled < 0
  · rw [sqrtWithPrecision, if_pos hnegative, Decimal.sqrtWithPrecision, if_pos hnegative]
    rfl
  · rw [sqrtWithPrecision, if_neg hnegative, Decimal.sqrtWithPrecision, if_neg hnegative]
    have htarget : IsWord (max x.scale 0 + precision) := by
      unfold ScaleInRange at hx
      unfold IsWord
      omega
    by_cases hrange : ScaleInRange (max x.scale 0 + precision)
    · have hnonneg := Decimal.rootScale_nonneg x precision
      have hle := Decimal.scale_le_two_mul_rootScale x precision
      rw [Decimal.rootScale] at hnonneg hle
      have hdoubled : IsWord (2 * (max x.scale 0 + precision)) := by
        unfold ScaleInRange at hrange
        unfold IsWord
        omega
      have hshift : IsWord (2 * (max x.scale 0 + precision) - x.scale) := by
        unfold ScaleInRange at hrange hx
        unfold IsWord
        omega
      have hzero : IsWord 0 := by
        unfold IsWord
        omega
      have hstrip : ∀ root : Int, (stripZeros ⟨root, max x.scale 0 + precision⟩ 0 :
          Except (Fault ε) Decimal) =
            .ok (Decimal.stripZeros ⟨root, max x.scale 0 + precision⟩ 0) :=
        fun root => stripZeros_eq htarget hzero hnonneg
      simp only [Decimal.rootScale, bind, Except.bind, word_eq htarget, hrange, if_true,
        word_eq hdoubled, factor_eq hle hshift, fromParts_eq hrange, hstrip, Int.natAbs_mul,
        Int.natAbs_pow]
      rfl
    · simp only [Decimal.rootScale, bind, Except.bind, word_eq htarget, hrange, if_false]
      rfl

theorem toInt64?_eq (hx : ScaleInRange x.scale) :
    (toInt64? x : Except (Fault ε) (Option Int)) = .ok x.toInt64? := by
  by_cases hzero : x.unscaled = 0
  · rw [toInt64?, if_pos hzero, Decimal.toInt64?, if_pos hzero]
    rfl
  · rw [toInt64?, if_neg hzero, Decimal.toInt64?, if_neg hzero]
    by_cases hscale : x.scale < -18
    · rw [if_pos hscale, if_pos hscale]
      rfl
    · rw [if_neg hscale, if_neg hscale]
      by_cases hle : x.scale ≤ 0
      · have hword : IsWord (-x.scale) := by
          unfold ScaleInRange at hx
          unfold IsWord
          omega
        have hpower : (tenPow (-x.scale) : Except (Fault ε) Int) = .ok (10 ^ (-x.scale).toNat) :=
          tenPow_eq (by omega)
        simp only [hle, if_true, bind, Except.bind, word_eq hword, hpower, Decimal.unscaledAt,
          Int.zero_sub]
        rfl
      · have hpower : (tenPow x.scale : Except (Fault ε) Int) = .ok (10 ^ x.scale.toNat) :=
          tenPow_eq (by omega)
        simp only [hle, if_false, bind, Except.bind, hpower]
        rfl

/-! ## Texts -/

theorem length_splitSign_le (cs : List Char) : (splitSign cs).2.length ≤ cs.length := by
  unfold splitSign
  split
  · exact Nat.le_succ _
  · exact Nat.le_succ _
  · exact le_rfl

theorem length_splitFirst_le (stop : Char → Bool) (cs : List Char) :
    (splitFirst stop cs).1.length ≤ cs.length ∧
      ((splitFirst stop cs).2.getD []).length ≤ cs.length := by
  induction cs with
  | nil => exact ⟨le_rfl, le_rfl⟩
  | cons c cs ih =>
    rw [splitFirst]
    split
    · exact ⟨Nat.zero_le _, Nat.le_succ _⟩
    · exact ⟨Nat.succ_le_succ ih.1, ih.2.trans (Nat.le_succ _)⟩

theorem length_trimBlanks_le (cs : List Char) : (trimBlanks cs).length ≤ cs.length := by
  rw [trimBlanks, List.length_reverse]
  refine (List.dropWhile_sublist _).length_le.trans ?_
  rw [List.length_reverse]
  exact (List.dropWhile_sublist _).length_le

/-- What is split off a literal is a signed 32-bit exponent. -/
theorem splitExponent_bounds {cs mantissa : List Char} {exponent : Int}
    (h : Decimal.splitExponent cs = .ok (mantissa, exponent)) :
    mantissa.length ≤ cs.length ∧ -2147483648 ≤ exponent ∧ exponent ≤ 2147483647 := by
  have hlength := (length_splitFirst_le (fun c => c == 'e' || c == 'E') cs).1
  unfold Decimal.splitExponent at h
  split at h
  · rename_i hsplit
    rw [hsplit] at hlength
    cases h
    exact ⟨hlength, by norm_num, by norm_num⟩
  · rename_i hsplit
    rw [hsplit] at hlength
    split at h
    · rename_i hexponent
      cases h
      simp only [exponent?, Option.ite_none_left_eq_some, Option.ite_none_right_eq_some] at hexponent
      obtain ⟨_, hbounds, heq⟩ := hexponent
      rw [Option.some.inj heq] at hbounds
      exact ⟨hlength, hbounds⟩
    · cases h

/-- The scale of a literal is found within words if the number of digits behind the point is a word.  A
difference that is none is refused for its exponent in any case, and there is none unless the digits are
about as many as words can count. -/
theorem literalScale_eq {beyond : Fault LiteralError} {fraction : List Char} {exponent : Int}
    (hexponent : -2147483648 ≤ exponent ∧ exponent ≤ 2147483647)
    (hplaces : fraction.length ≤ 9223372036854775807)
    (hbeyond : beyond = .refused .exponent ∨ fraction.length ≤ 9223372034707292159) :
    literalScale beyond fraction exponent =
      if ScaleInRange (fraction.length - exponent) then .ok (fraction.length - exponent)
      else .error (.refused .exponent) := by
  have hword : IsWord fraction.length := by
    unfold IsWord
    omega
  by_cases hscale : IsWord (fraction.length - exponent)
  · simp only [literalScale, bind, Except.bind, word_eq hword, hscale, not_true, if_false]
    rfl
  · have hout : ¬ScaleInRange (fraction.length - exponent) := by
      unfold IsWord at hscale
      unfold ScaleInRange
      omega
    have hmany : 9223372034707292159 < fraction.length := by
      unfold IsWord at hscale
      omega
    obtain rfl := hbeyond.resolve_right (not_le.mpr hmany)
    simp only [literalScale, bind, Except.bind, word_eq hword, hscale, not_false_iff, if_true, hout,
      if_false]
    rfl

/-- A text of a length that is a word is read within words. -/
theorem ofText?_eq {beyond : Fault LiteralError} {text : String}
    (hlength : text.length ≤ 9223372036854775807)
    (hbeyond : beyond = .refused .exponent ∨ text.length ≤ 9223372034707292159) :
    ofText? beyond text = refusing (Decimal.ofText? text) := by
  have htrimmed := length_trimBlanks_le text.toList
  rw [String.length_toList] at htrimmed
  rw [ofText?, Decimal.ofText?, Decimal.ofChars?]
  generalize trimBlanks text.toList = cs at htrimmed ⊢
  cases hsplit : Decimal.splitExponent cs with
  | error error => rfl
  | ok parts =>
    obtain ⟨mantissa, exponent⟩ := parts
    obtain ⟨hmantissa, hexponent⟩ := splitExponent_bounds hsplit
    have hdigits := length_splitSign_le mantissa
    have hfraction := (length_splitFirst_le (· == '.') (splitSign mantissa).2).2
    simp only [refusing, Except.mapError, bind, Except.bind]
    generalize (splitFirst (· == '.') (splitSign mantissa).2).2.getD [] = fraction at *
    generalize (splitFirst (· == '.') (splitSign mantissa).2).1 = whole
    cases whole.isEmpty && fraction.isEmpty with
    | true => rfl
    | false =>
      cases !whole.all Char.isDigit || !fraction.all Char.isDigit with
      | true => rfl
      | false =>
        rw [@literalScale_eq beyond fraction exponent hexponent (by omega)
          (hbeyond.imp_right fun hlength => by omega)]
        by_cases hrange : ScaleInRange (fraction.length - exponent)
        · simp only [hrange, if_true]
          exact fromParts_eq hrange _
        · simp only [hrange, if_false]
          rfl

/-! ## Main statement -/

/-- Machine words give what scales of any size do: no step leaves the words, raises ten to a negative power
or makes a decimal with a scale out of range. -/
structure Suffices (x y : Decimal) (scale : Int) (exponent precision : Nat) (mode : Rounding) :
    Prop where
  add : ∀ ε, (add x y : Except (Fault ε) Decimal) = .ok (x + y)
  sub : ∀ ε, (sub x y : Except (Fault ε) Decimal) = .ok (x - y)
  compare : ∀ ε, (compare x y : Except (Fault ε) Ordering) = .ok (x.compare y)
  mul : mul x y = refusing (x.mul y)
  pow : pow x exponent = refusing (x.pow exponent)
  rem : rem x y = refusing (x.rem y)
  divScaled : divScaled x y scale mode = refusing (x.divScaled y scale mode)
  round : round x scale mode = refusing (x.round scale mode)
  sqrt : ∀ ε, (sqrtWithPrecision x precision : Except (Fault ε) (Option Decimal)) =
    .ok (x.sqrtWithPrecision precision)
  toInt64? : ∀ ε, (toInt64? x : Except (Fault ε) (Option Int)) = .ok x.toInt64?

/-- The scale of a result is reported to be out of range exactly if it is. -/
structure OverflowsExactly (x y : Decimal) (scale : Int) (exponent : Nat) (mode : Rounding) :
    Prop where
  mul : x.mul y = .error .scaleOverflow ↔ ¬ScaleInRange (x.scale + y.scale)
  pow : x.pow exponent = .error .scaleOverflow ↔ ¬ScaleInRange (x.scale * exponent)
  round : x.round scale mode = .error .scaleOverflow ↔ ¬ScaleInRange scale
  divScaled : y.value ≠ 0 →
    (x.divScaled y scale mode = .error .scaleOverflow ↔ ¬ScaleInRange scale)
  divScaled_zero : y.value = 0 → x.divScaled y scale mode = .error .divisionByZero
  rem : x.rem y ≠ .error .scaleOverflow

theorem overflows_exactly (x y : Decimal) (scale : Int) (exponent : Nat) (mode : Rounding) :
    OverflowsExactly x y scale exponent mode where
  mul := by rw [Decimal.mul_eq_checked, Decimal.checked_eq_error_iff]
  pow := by rw [Decimal.pow_eq_checked, Decimal.checked_eq_error_iff]
  round := by rw [Decimal.round_eq, Decimal.checked_eq_error_iff]
  divScaled hy := by
    rw [Decimal.divScaled_eq (mt Decimal.value_eq_zero_iff.mpr hy), Decimal.checked_eq_error_iff]
  divScaled_zero hy := if_pos (Decimal.value_eq_zero_iff.mp hy)
  rem := by
    by_cases hy : y.unscaled = 0
    · rw [Decimal.rem, if_pos hy]
      intro h
      cases h
    · rw [Decimal.rem, if_neg hy]
      intro h
      cases h

/-- On decimals with scales in range and with 32-bit exponents and precisions, every scale and every shift
that an operation computes is a word and no power of ten is negative, and a scale is refused exactly if
it is out of range.  The same holds of reading a text: the difference of digits and exponent is a word too,
unless the digits are about as many as words can count, and there checking it gives the right error. -/
theorem scales_stay_words {x y : Decimal} (hx : ScaleInRange x.scale) (hy : ScaleInRange y.scale)
    {exponent precision : Nat} (hexponent : exponent < 4294967296)
    (hprecision : precision < 4294967296) (scale : Int) (mode : Rounding) :
    Suffices x y scale exponent precision mode ∧ OverflowsExactly x y scale exponent mode ∧
      (∀ text : String, text.length ≤ 9223372034707292159 →
        ofText? .overflow text = refusing (Decimal.ofText? text)) ∧
      ∀ text : String, text.length ≤ 9223372036854775807 →
        ofText? (.refused .exponent) text = refusing (Decimal.ofText? text) := by
  refine ⟨?_, overflows_exactly x y scale exponent mode,
    fun _ hlength => ofText?_eq (by omega) (.inr hlength),
    fun _ hlength => ofText?_eq hlength (.inl rfl)⟩
  exact
    { add := fun _ => add_eq hx hy
      sub := fun _ => sub_eq hx hy
      compare := fun _ => compare_eq hx hy
      mul := mul_eq hx hy
      pow := pow_eq hx hexponent
      rem := rem_eq hx hy
      divScaled := divScaled_eq hx hy scale mode
      round := round_eq hx scale mode
      sqrt := fun _ => sqrtWithPrecision_eq hx hprecision
      toInt64? := fun _ => toInt64?_eq hx }

/-- The largest exponent for a scale at the end of the range, which is refused only after it has been
computed, a quotient at that scale, and a text whose scale is out of range by its exponent. -/
theorem scales_stay_words_at_limits :
    ScaleInRange (-2147483648) ∧ ScaleInRange 2147483647 ∧ 4294967295 < 4294967296 ∧
      Suffices ⟨1, -2147483648⟩ ⟨3, 2147483647⟩ (-2147483648) 4294967295 4294967295 .halfEven ∧
      IsWord (-2147483648 * 4294967295) ∧
      pow ⟨1, -2147483648⟩ 4294967295 = .error (.refused .scaleOverflow) ∧
      ofText? .overflow "1.5e-2147483648" = .error (.refused .exponent) := by
  have hleast : ScaleInRange (-2147483648) := by decide
  have hgreatest : ScaleInRange 2147483647 := by decide
  obtain ⟨hsuffices, hoverflows, htext, _⟩ := @scales_stay_words ⟨1, -2147483648⟩ ⟨3, 2147483647⟩
    hleast hgreatest 4294967295 4294967295 (by norm_num) (by norm_num) (-2147483648) .halfEven
  have hpow := hoverflows.pow.mpr (by decide)
  have hrefused : Decimal.ofText? "1.5e-2147483648" = .error .exponent := by cbv
  refine ⟨hleast, hgreatest, by norm_num, hsuffices, by decide, ?_, ?_⟩
  · rw [hsuffices.pow, hpow]
    rfl
  · rw [htext _ (by decide), hrefused]
    rfl

end Machine

end Abacus
