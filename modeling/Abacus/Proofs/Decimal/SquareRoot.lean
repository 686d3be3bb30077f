import Abacus.Proofs.Decimal.Interchange

/-!
# Square roots, cut off

A root that is cut off after some number of digits is the largest number with these digits whose square
is not above the value (`IsTruncatedRoot`).  There is one such number, and cutting off later gives the
same one exactly if all digits in between are zeros (`isTruncatedRoot_iff_zerosBetween`).

The root of a decimal is cut off after as many digits as were asked for and those that the decimal
itself has behind the point, and then loses its trailing zeros.  `sqrtWithPrecision_outcome` says what
comes out.  So it is cut off where it was asked for only if the digits from there on are zeros, and
equal numbers that are written with different scales have equal roots only in that case:
`sqrtWithPrecision_truncates_iff`.
-/

namespace Abacus.Decimal

/-- The numbers with `digits` digits behind the point, from zero on, whose squares are not above the
value. -/
def RootsBelow (radicand : ℚ) (digits : Int) : Set ℚ :=
  {a | 0 ≤ a ∧ a ^ 2 ≤ radicand ∧ ∃ n : Int, a = n * 10 ^ (-digits)}

/-- The square root of the value, cut off after `digits` digits behind the point. -/
def IsTruncatedRoot (radicand : ℚ) (digits : Int) (root : ℚ) : Prop :=
  IsGreatest (RootsBelow radicand digits) root

/-- The square root of the value has no digits but zeros after the first `first` digits behind the
point, as far as the digit with number `last`. -/
def ZerosBetween (radicand : ℚ) (first last : Int) : Prop :=
  ∃ a ∈ RootsBelow radicand first, radicand < (a + 10 ^ (-last)) ^ 2

variable {radicand root root' : ℚ} {digits first last : Int}

/-! ## Cutting off -/

theorem isTruncatedRoot_iff :
    IsTruncatedRoot radicand digits root ↔
      root ∈ RootsBelow radicand digits ∧ radicand < (root + 10 ^ (-digits)) ^ 2 := by
  have hunit : (0 : ℚ) < 10 ^ (-digits) := zpow_pos (by norm_num) _
  refine and_congr_right fun hroot => ?_
  obtain ⟨hnonneg, hsquare, n, hn⟩ := hroot
  constructor
  · intro hgreatest
    -- if the next number with these digits were not too large, it would be a greater one
    by_contra hle
    have hnext : root + 10 ^ (-digits) ∈ RootsBelow radicand digits := by
      refine ⟨by linarith, not_lt.mp hle, n + 1, ?_⟩
      rw [hn]
      push_cast
      ring
    have hbound := hgreatest hnext
    linarith
  · intro hlt a ha
    obtain ⟨_, hasquare, m, hm⟩ := ha
    by_contra hgt
    have hnm : n < m := by
      rw [hn, hm, not_le, mul_lt_mul_iff_of_pos_right hunit] at hgt
      exact_mod_cast hgt
    have hnext : root + 10 ^ (-digits) ≤ a := by
      have hcast : (n : ℚ) + 1 ≤ m := by exact_mod_cast hnm
      rw [hn, hm, ← add_one_mul]
      exact mul_le_mul_of_nonneg_right hcast hunit.le
    have hle : (root + 10 ^ (-digits)) ^ 2 ≤ a ^ 2 := pow_le_pow_left₀ (by linarith) hnext 2
    linarith

theorem IsTruncatedRoot.unique (h : IsTruncatedRoot radicand digits root)
    (h' : IsTruncatedRoot radicand digits root') : root = root' :=
  IsGreatest.unique h h'

/-- A number with few digits is also one with more. -/
theorem rootsBelow_mono (h : first ≤ last) : RootsBelow radicand first ⊆ RootsBelow radicand last := by
  intro a ha
  obtain ⟨hnonneg, hsquare, n, hn⟩ := ha
  obtain ⟨more, rfl⟩ := Int.le.dest h
  refine ⟨hnonneg, hsquare, n * 10 ^ more, ?_⟩
  have hsplit : -first = more + -(first + more) := by omega
  rw [hn, hsplit, zpow_add₀ (by norm_num), zpow_natCast]
  push_cast
  ring

/-- A root that is cut off late is the one that is cut off early exactly if there are only zeros in
between. -/
theorem isTruncatedRoot_iff_zerosBetween (hle : first ≤ last)
    (hlast : IsTruncatedRoot radicand last root) :
    IsTruncatedRoot radicand first root ↔ ZerosBetween radicand first last := by
  constructor
  · intro hfirst
    exact ⟨root, hfirst.1, (isTruncatedRoot_iff.mp hlast).2⟩
  · intro hzeros
    obtain ⟨a, ha, hlt⟩ := hzeros
    have hcut : IsTruncatedRoot radicand last a :=
      isTruncatedRoot_iff.mpr ⟨rootsBelow_mono hle ha, hlt⟩
    obtain rfl := hcut.unique hlast
    exact ⟨ha, fun b hb => hlast.2 (rootsBelow_mono hle hb)⟩

/-- Two roots that are cut off at different places are equal exactly if there are only zeros from the
one place to the other. -/
theorem IsTruncatedRoot.eq_iff_zerosBetween (h : IsTruncatedRoot radicand first root)
    (h' : IsTruncatedRoot radicand last root') :
    root' = root ↔ ZerosBetween radicand (min first last) (max first last) := by
  have hordered : ∀ {i j : Int} {a b : ℚ}, i ≤ j → IsTruncatedRoot radicand i a →
      IsTruncatedRoot radicand j b → (b = a ↔ ZerosBetween radicand i j) := by
    intro i j a b hij hi hj
    rw [← isTruncatedRoot_iff_zerosBetween hij hj]
    constructor
    · intro heq
      rwa [heq]
    · intro hb
      exact hb.unique hi
  rcases le_total first last with hle | hle
  · rw [min_eq_left hle, max_eq_right hle]
    exact hordered hle h h'
  · rw [min_eq_right hle, max_eq_left hle, eq_comm]
    exact hordered hle h' h

/-! ## The root that is computed -/

variable {x r : Decimal} {precision : Nat}

/-- The integer root is the root of the value, cut off at the scale of the root. -/
theorem isTruncatedRoot_truncatedRoot (hx : 0 ≤ x.value) (precision : Nat) :
    IsTruncatedRoot x.value (x.rootScale precision) (x.truncatedRoot precision).value := by
  have hscale : x.scale ≤ 2 * x.rootScale precision := scale_le_two_mul_rootScale x precision
  generalize hwhole : (x.unscaledAt (2 * x.rootScale precision)).natAbs = whole
  have hvalue : x.value = whole * (10 ^ (-x.rootScale precision)) ^ 2 := by
    have hsign : 0 ≤ x.unscaledAt (2 * x.rootScale precision) :=
      mul_nonneg (value_nonneg_iff.mp hx) (by positivity)
    have hcast : (whole : ℚ) = x.value * 10 ^ (2 * x.rootScale precision) := by
      rw [← hwhole, ← Int.cast_natCast, Int.natAbs_of_nonneg hsign, unscaledAt_cast hscale]
    have hexponent : 2 * x.rootScale precision + -x.rootScale precision * (2 : Nat) = 0 := by
      push_cast
      ring
    rw [hcast, mul_assoc, ← zpow_natCast, ← zpow_mul, ← zpow_add₀ (by norm_num), hexponent,
      zpow_zero, mul_one]
  have hroot : (x.truncatedRoot precision).value =
      Nat.sqrt whole * 10 ^ (-x.rootScale precision) := by
    rw [truncatedRoot, hwhole, Decimal.value, Int.cast_natCast]
  have hunit : (0 : ℚ) < 10 ^ (-x.rootScale precision) := zpow_pos (by norm_num) _
  have hle : ((Nat.sqrt whole : Nat) : ℚ) ^ 2 ≤ whole := by
    exact_mod_cast Nat.sqrt_le' whole
  have hlt : (whole : ℚ) < ((Nat.sqrt whole : Nat) + 1) ^ 2 := by
    exact_mod_cast Nat.lt_succ_sqrt' whole
  rw [isTruncatedRoot_iff, hroot, hvalue]
  refine ⟨⟨by positivity, ?_, Nat.sqrt whole, by rw [Int.cast_natCast]⟩, ?_⟩
  · rw [mul_pow]
    exact mul_le_mul_of_nonneg_right hle (by positivity)
  · rw [← add_one_mul, mul_pow]
    exact mul_lt_mul_of_pos_right hlt (by positivity)

/-- What the root of a number that is not negative looks like: cut off after `digits` digits behind the
point, written without trailing zeros behind it, and exact where these digits are enough. -/
structure IsStrippedRoot (radicand : ℚ) (digits : Int) (r : Decimal) : Prop where
  nonneg : 0 ≤ r.value
  square_le : r.value ^ 2 ≤ radicand
  lt_square : radicand < (r.value + 10 ^ (-digits)) ^ 2
  multiple : ∃ n : Int, r.value = n * 10 ^ (-digits)
  scale_nonneg : 0 ≤ r.scale
  scale_le : r.scale ≤ digits
  stripped : r.scale ≠ 0 → ¬(10 : Int) ∣ r.unscaled
  exact : ∀ a : ℚ, 0 ≤ a → a ^ 2 = radicand → (∃ n : Int, a = n * 10 ^ (-digits)) → r.value = a

theorem IsStrippedRoot.isTruncatedRoot (h : IsStrippedRoot radicand digits r) :
    IsTruncatedRoot radicand digits r.value :=
  isTruncatedRoot_iff.mpr ⟨⟨h.nonneg, h.square_le, h.multiple⟩, h.lt_square⟩

/-- Without trailing zeros a root can be written in one way only. -/
theorem IsStrippedRoot.unique {r' : Decimal} (h : IsStrippedRoot radicand digits r)
    (h' : IsStrippedRoot radicand digits r') : r = r' := by
  have hvalue : r.value = r'.value := h.isTruncatedRoot.unique h'.isTruncatedRoot
  have hleast : ∀ {a b : Decimal}, IsStrippedRoot radicand digits a → IsStrippedRoot radicand digits b →
      a.value = b.value → a.scale ≤ b.scale := by
    intro a b ha hb hab
    by_cases hzero : a.scale = 0
    · rw [hzero]
      exact hb.scale_nonneg
    · apply scale_le_of_writtenAt (ha.stripped hzero)
      rw [hab]
      exact writtenAt_value b
  apply eq_of_value_of_scale hvalue
  exact le_antisymm (hleast h h' hvalue) (hleast h' h hvalue.symm)

/-- Dropping zeros as far as the point leaves a root that is stripped. -/
theorem isStrippedRoot_stripZeros (hr : IsTruncatedRoot radicand r.scale r.value) (hscale : 0 ≤ r.scale) :
    IsStrippedRoot radicand r.scale (r.stripZeros 0) := by
  have hleast := isLeast_stripZeros_zero hscale
  obtain ⟨⟨hnonneg, hsquare, hmultiple⟩, hlt⟩ := isTruncatedRoot_iff.mp hr
  rw [← value_stripZeros r 0] at hnonneg hsquare hlt hmultiple hleast
  refine ⟨hnonneg, hsquare, hlt, hmultiple, hleast.1.1, scale_stripZeros_le r hscale le_rfl, ?_, ?_⟩
  · intro hne hdvd
    have hpos : 0 < (r.stripZeros 0).scale := hleast.1.1.lt_of_ne' hne
    have hless := hleast.2 ⟨by omega, writtenAt_of_ten_dvd hdvd⟩
    omega
  · intro a ha hexact hdigits
    rw [value_stripZeros]
    have hunit : (0 : ℚ) < 10 ^ (-r.scale) := zpow_pos (by norm_num) _
    refine hr.unique (isTruncatedRoot_iff.mpr ⟨⟨ha, hexact.le, hdigits⟩, ?_⟩)
    rw [← hexact]
    exact pow_lt_pow_left₀ (by linarith) ha two_ne_zero

/-- A root is refused for a negative number and for a scale above the range. -/
theorem sqrtWithPrecision_eq_none_iff :
    x.sqrtWithPrecision precision = none ↔
      x.value < 0 ∨ 2147483647 < x.rootScale precision := by
  have hnonneg := rootScale_nonneg x precision
  by_cases hx : x.unscaled < 0
  · have hvalue : x.value < 0 := by
      rw [← not_le, value_nonneg_iff]
      exact hx.not_ge
    rw [sqrtWithPrecision, if_pos hx]
    simp [hvalue]
  · have hvalue : ¬x.value < 0 := not_lt.mpr (value_nonneg_iff.mpr (not_lt.mp hx))
    rw [sqrtWithPrecision_eq (not_lt.mp hx)]
    by_cases hrange : ScaleInRange (x.rootScale precision)
    · rw [if_pos hrange]
      unfold ScaleInRange at hrange
      simp [hvalue, hrange]
    · rw [if_neg hrange]
      unfold ScaleInRange at hrange
      simp only [hvalue, false_or, true_iff]
      omega

theorem isStrippedRoot_of_sqrt (h : x.sqrtWithPrecision precision = some r) :
    0 ≤ x.value ∧ x.rootScale precision ≤ 2147483647 ∧
      IsStrippedRoot x.value (x.rootScale precision) r := by
  have hsome : ¬(x.value < 0 ∨ 2147483647 < x.rootScale precision) := by
    rw [← sqrtWithPrecision_eq_none_iff, h]
    simp
  have hx : 0 ≤ x.value := not_lt.mp (not_or.mp hsome).1
  rw [sqrtWithPrecision_eq (value_nonneg_iff.mp hx)] at h
  split at h
  · obtain rfl := Option.some.inj h
    exact ⟨hx, not_lt.mp (not_or.mp hsome).2,
      isStrippedRoot_stripZeros (isTruncatedRoot_truncatedRoot hx precision)
        (rootScale_nonneg x precision)⟩
  · cases h

/-- There is a root unless the number is negative or the root would have too many digits, and it is the
one root that is cut off after the digits that were asked for and those of the number, and stripped. -/
theorem sqrtWithPrecision_outcome (x : Decimal) (precision : Nat) :
    (x.sqrtWithPrecision precision = none ↔
      x.value < 0 ∨ 2147483647 < max x.scale 0 + precision) ∧
    ∀ r, x.sqrtWithPrecision precision = some r ↔
      0 ≤ x.value ∧ max x.scale 0 + precision ≤ 2147483647 ∧
        IsStrippedRoot x.value (max x.scale 0 + precision) r := by
  refine ⟨sqrtWithPrecision_eq_none_iff, fun r => ⟨isStrippedRoot_of_sqrt, ?_⟩⟩
  intro h
  obtain ⟨hx, hscale, hr⟩ := h
  cases hroot : x.sqrtWithPrecision precision with
  | none =>
    rcases sqrtWithPrecision_eq_none_iff.mp hroot with hnegative | hlarge
    · exact absurd hx hnegative.not_ge
    · exact absurd hscale hlarge.not_ge
  | some root => rw [(isStrippedRoot_of_sqrt hroot).2.2.unique hr]

/-! ## Where the root is cut off as asked -/

/-- The root is cut off after the digits that were asked for exactly if it has only zeros from there to
the place where it is cut off, as for every number without digits behind the point.  For equal numbers the
roots are equal exactly if there are only zeros between the two places where they are cut off. -/
theorem sqrtWithPrecision_truncates_iff (h : x.sqrtWithPrecision precision = some r) :
    (IsTruncatedRoot x.value precision r.value ↔
      ZerosBetween x.value precision (max x.scale 0 + precision)) ∧
    (x.scale ≤ 0 → IsTruncatedRoot x.value precision r.value) ∧
    ∀ x' r' : Decimal, x'.value = x.value → x'.sqrtWithPrecision precision = some r' →
      (r'.value = r.value ↔
        ZerosBetween x.value (min (max x.scale 0) (max x'.scale 0) + precision)
          (max (max x.scale 0) (max x'.scale 0) + precision)) := by
  have hr : IsTruncatedRoot x.value (max x.scale 0 + precision) r.value :=
    (isStrippedRoot_of_sqrt h).2.2.isTruncatedRoot
  refine ⟨isTruncatedRoot_iff_zerosBetween (by omega) hr, ?_, ?_⟩
  · intro hscale
    rwa [max_eq_right hscale, zero_add] at hr
  · intro x' r' hvalue h'
    have hr' : IsTruncatedRoot x'.value (max x'.scale 0 + precision) r'.value :=
      (isStrippedRoot_of_sqrt h').2.2.isTruncatedRoot
    rw [hvalue] at hr'
    rw [← min_add_add_right (max x.scale 0), ← max_add_add_right (max x.scale 0)]
    exact hr.eq_iff_zerosBetween hr'

/-- A root without end that happens to have zeros at its first five places: it is cut off as asked, but
not the root of the same number with one more digit. -/
theorem sqrtWithPrecision_truncates_iff_of_zeros :
    sqrtWithPrecision ⟨400001, 5⟩ 0 = some ⟨2, 0⟩ ∧
      IsTruncatedRoot (value ⟨400001, 5⟩) 0 (value ⟨2, 0⟩) ∧
      value ⟨4000010, 6⟩ = value ⟨400001, 5⟩ ∧
      sqrtWithPrecision ⟨4000010, 6⟩ 0 = some ⟨2000002, 6⟩ ∧
      ¬ZerosBetween (value ⟨400001, 5⟩) 5 6 := by
  have hroot : sqrtWithPrecision ⟨400001, 5⟩ 0 = some ⟨2, 0⟩ := by decide +kernel
  have hroot' : sqrtWithPrecision ⟨4000010, 6⟩ 0 = some ⟨2000002, 6⟩ := by decide +kernel
  have hvalue : value ⟨4000010, 6⟩ = value ⟨400001, 5⟩ := by norm_num [value]
  obtain ⟨htruncated, _, hequal⟩ := sqrtWithPrecision_truncates_iff hroot
  have hzeros : ZerosBetween (value ⟨400001, 5⟩) 0 5 := by
    exact ⟨2, ⟨by norm_num, by norm_num [value], 2, by norm_num⟩, by norm_num [value]⟩
  refine ⟨hroot, htruncated.mpr hzeros, hvalue, hroot', ?_⟩
  intro hmore
  have hsame := (hequal _ _ hvalue hroot').mpr hmore
  norm_num [value] at hsame

/-- Two has the root 1.4 with one digit, but written as 2.0 it has the root 1.41. -/
theorem root_of_two_keeps_digit :
    sqrtWithPrecision ⟨20, 1⟩ 1 = some ⟨141, 2⟩ ∧
      ¬IsTruncatedRoot (value ⟨20, 1⟩) 1 (value ⟨141, 2⟩) ∧
      value ⟨2, 0⟩ = value ⟨20, 1⟩ ∧ sqrtWithPrecision ⟨2, 0⟩ 1 = some ⟨14, 1⟩ ∧
      value ⟨14, 1⟩ ≠ value ⟨141, 2⟩ := by
  have hvalue : value ⟨2, 0⟩ = value ⟨20, 1⟩ := by norm_num [value]
  have hroot : IsTruncatedRoot (value ⟨20, 1⟩) 1 (value ⟨14, 1⟩) := by
    rw [isTruncatedRoot_iff]
    exact ⟨⟨by norm_num [value], by norm_num [value], 14, rfl⟩, by norm_num [value]⟩
  have hne : value ⟨14, 1⟩ ≠ value ⟨141, 2⟩ := by norm_num [value]
  refine ⟨by decide +kernel, ?_, hvalue, by decide +kernel, hne⟩
  intro h
  exact hne (hroot.unique h)

end Abacus.Decimal
