import Abacus.Proofs.Decimal.Whole

/-!
# The scales of one value

A value that can be written with some number of digits after the point can be written with any larger
number of them.  A coefficient that does not end in a zero is written at the least scale of its value
(`scale_le_of_writtenAt`), and dropping zeros stops at such a coefficient or at the bound that it was
given.  So stripped and normalized numbers have the least scale there is: `isLeast_stripZeros`,
`isLeast_normalized`.  An exact quotient has the least scale from the preferred one on:
`isLeast_div`.
-/

namespace Abacus.Decimal

/-- The value can be written with `scale` digits after the point. -/
def WrittenAt (value : ℚ) (scale : Int) : Prop :=
  ∃ x : Decimal, x.value = value ∧ x.scale = scale

theorem writtenAt_value (x : Decimal) : WrittenAt x.value x.scale := ⟨x, rfl, rfl⟩

theorem WrittenAt.mono {value : ℚ} {scale larger : Int} (h : WrittenAt value scale)
    (hle : scale ≤ larger) : WrittenAt value larger := by
  obtain ⟨x, hvalue, hscale⟩ := h
  refine ⟨⟨x.unscaledAt larger, larger⟩, ?_, rfl⟩
  rw [value_unscaledAt (hscale.trans_le hle), hvalue]

/-- One digit less is enough exactly for a coefficient that ends in a zero. -/
theorem ten_dvd_of_writtenAt {x : Decimal} (h : WrittenAt x.value (x.scale - 1)) :
    (10 : Int) ∣ x.unscaled := by
  obtain ⟨y, hvalue, hscale⟩ := h
  have hle : y.scale ≤ x.scale := by omega
  have hcoefficient : x.unscaled = y.unscaledAt x.scale := by
    rw [← Int.cast_inj (α := ℚ), unscaledAt_cast hle, hvalue, ← unscaledAt_cast le_rfl,
      unscaledAt_self]
  have hone : (x.scale - y.scale).toNat = 1 := by omega
  rw [hcoefficient, unscaledAt, hone, pow_one]
  exact dvd_mul_left 10 y.unscaled

theorem writtenAt_of_ten_dvd {x : Decimal} (h : (10 : Int) ∣ x.unscaled) :
    WrittenAt x.value (x.scale - 1) := by
  obtain ⟨n, hn⟩ := h
  have hscale : -(x.scale - 1) = 1 + -x.scale := by omega
  refine ⟨⟨n, x.scale - 1⟩, ?_, rfl⟩
  rw [Decimal.value, Decimal.value, hn, hscale, zpow_add₀ (by norm_num), zpow_one]
  push_cast
  ring

/-- A coefficient that does not end in a zero needs all its digits. -/
theorem scale_le_of_writtenAt {x : Decimal} (h : ¬(10 : Int) ∣ x.unscaled) {scale : Int}
    (hwritten : WrittenAt x.value scale) : x.scale ≤ scale := by
  by_contra hlt
  exact h (ten_dvd_of_writtenAt (hwritten.mono (by omega)))

/-! ## Dropping zeros -/

/-- The last zero of a coefficient is dropped first. -/
theorem dropZeros_ten_mul (k scale : Int) (places : Nat) :
    dropZeros ⟨10 * k, scale⟩ (places + 1) = dropZeros ⟨k, scale - 1⟩ places := by
  have hmod : 10 * k.natAbs % 10 = 0 := Nat.mul_mod_right ..
  have hdiv : 10 * k.natAbs / 10 = k.natAbs := Nat.mul_div_cancel_left _ (by norm_num)
  have hsign : (10 * k).sign = k.sign := by rw [Int.sign_mul]; exact one_mul _
  have hscale : ∀ count : Nat, scale - (count + 1 : Nat) = scale - 1 - count := by omega
  simp only [dropZeros, stripFactor, Int.natAbs_mul, Int.reduceAbs, hmod, if_true, hdiv, hsign,
    hscale]

/-- A coefficient that does not end in a zero is left as it is. -/
theorem dropZeros_of_not_dvd {unscaled : Int} (h : ¬(10 : Int) ∣ unscaled) (scale : Int)
    (places : Nat) : dropZeros ⟨unscaled, scale⟩ places = ⟨unscaled, scale⟩ := by
  have hmod : unscaled.natAbs % 10 ≠ 0 := by omega
  have hkept : stripFactor 10 places unscaled.natAbs = (0, unscaled.natAbs) := by
    cases places with
    | zero => rfl
    | succ places => exact if_neg hmod
  simp only [dropZeros, hkept, Int.sign_mul_natAbs, Nat.cast_zero, Int.sub_zero]

theorem scale_dropZeros_le (x : Decimal) (limit : Nat) : (x.dropZeros limit).scale ≤ x.scale := by
  simp only [dropZeros]
  omega

theorem le_scale_dropZeros (x : Decimal) (limit : Nat) :
    x.scale - limit ≤ (x.dropZeros limit).scale := by
  have hcount := stripFactor_count_le 10 limit x.unscaled.natAbs
  simp only [dropZeros]
  omega

/-- Zeros are dropped until there are none left or the limit is reached. -/
theorem isLeast_dropZeros {x : Decimal} (hx : x.unscaled ≠ 0) (limit : Nat) :
    IsLeast {scale | x.scale - limit ≤ scale ∧ WrittenAt x.value scale}
      (x.dropZeros limit).scale := by
  have hwritten : WrittenAt x.value (x.dropZeros limit).scale := by
    have hself := writtenAt_value (x.dropZeros limit)
    rwa [value_dropZeros] at hself
  refine ⟨⟨le_scale_dropZeros x limit, hwritten⟩, ?_⟩
  intro scale hscale
  obtain ⟨hle, hat⟩ := hscale
  have hcount := stripFactor_count_le 10 limit x.unscaled.natAbs
  rcases hcount.lt_or_eq with hshort | hfull
  · have hrest : ¬(10 : Int) ∣ (x.dropZeros limit).unscaled := by
      rw [ten_dvd_dropZeros_iff hx]
      intro hdvd
      exact stripFactor_rest_mod_ne_zero hshort (Nat.mod_eq_zero_of_dvd hdvd)
    refine scale_le_of_writtenAt hrest ?_
    rwa [value_dropZeros]
  · simp only [dropZeros, hfull]
    exact hle

theorem isLeast_stripZeros {x : Decimal} (hx : x.unscaled ≠ 0) {least : Int}
    (hle : least ≤ x.scale) :
    IsLeast {scale | least ≤ scale ∧ WrittenAt x.value scale} (x.stripZeros least).scale := by
  have hlimit : x.scale - (x.scale - least).toNat = least := by omega
  rw [stripZeros, if_neg hx]
  have hdrop := isLeast_dropZeros hx (x.scale - least).toNat
  rwa [hlimit] at hdrop

/-- From the scale of whole numbers on there is no exception for zero. -/
theorem isLeast_stripZeros_zero {x : Decimal} (hle : 0 ≤ x.scale) :
    IsLeast {scale | 0 ≤ scale ∧ WrittenAt x.value scale} (x.stripZeros 0).scale := by
  by_cases hx : x.unscaled = 0
  · rw [stripZeros, if_pos hx, value_eq_zero_iff.mpr hx]
    exact ⟨⟨le_rfl, zero, value_zero, rfl⟩, fun _ h => h.1⟩
  · exact isLeast_stripZeros hx hle

theorem isLeast_normalized {x : Decimal} (hx : x.unscaled ≠ 0) :
    IsLeast {scale | WrittenAt x.value scale} x.normalized.scale := by
  constructor
  · have hself := writtenAt_value x.normalized
    rwa [value_normalized] at hself
  · intro scale hscale
    refine scale_le_of_writtenAt (not_ten_dvd_normalized hx) ?_
    rwa [value_normalized]

/-- Zero and every number that is stripped down to `least` stay at or above the bound. -/
theorem scale_stripZeros_le (x : Decimal) {least bound : Int} (hleast : max least 0 ≤ bound)
    (hscale : x.scale ≤ bound) : (x.stripZeros least).scale ≤ bound := by
  unfold stripZeros
  split
  · exact hleast
  · exact (scale_dropZeros_le x _).trans hscale

theorem le_scale_stripZeros (x : Decimal) {least : Int} (hle : least ≤ x.scale) :
    least ≤ (x.stripZeros least).scale := by
  unfold stripZeros
  split
  · exact le_max_left ..
  · have hdrop := le_scale_dropZeros x (x.scale - least).toNat
    omega

/-! ## Exact quotients -/

/-- An exact quotient is the quotient of the values at the least scale from the difference of the
scales on, unless no decimal is. -/
theorem isLeast_div {x y : Decimal} (hx : x.unscaled ≠ 0) (hy : y.unscaled ≠ 0) :
    x.div y = .error .nonTerminating ∧ (∀ z : Decimal, z.value ≠ x.value / y.value) ∨
      ∃ z : Decimal, x.div y = checked z ∧ z.value = x.value / y.value ∧
        IsLeast {scale | x.scale - y.scale ≤ scale ∧ WrittenAt (x.value / y.value) scale} z.scale := by
  obtain ⟨numerator, denominator, twos, fives, rest, hsplit, hten, hpos, hcoprime, hratio, hdiv⟩ :=
    exists_reduced hx hy
  by_cases hrest : rest = 1
  · rw [hrest, mul_one] at hsplit
    have hvalue := @value_of_fraction numerator (x.scale - y.scale) _ _ _ hsplit
    rw [hratio, ← value_div_value] at hvalue
    have hnonzero : x.value / y.value ≠ 0 :=
      div_ne_zero (mt value_eq_zero_iff.mp hx) (mt value_eq_zero_iff.mp hy)
    refine .inr ⟨_, hdiv.trans (if_neg (not_not.mpr hrest)), ?_, ?_⟩
    · rw [value_stripZeros, hvalue]
    · rw [← hvalue] at hnonzero ⊢
      refine isLeast_stripZeros (mt value_eq_zero_iff.mpr hnonzero) ?_
      exact le_add_of_nonneg_right (Int.natCast_nonneg _)
  · refine .inl ⟨hdiv.trans (if_pos hrest), ?_⟩
    rw [value_div_value, ← hratio]
    exact value_ne_fraction hpos hcoprime (Dvd.intro_left _ hsplit.symm) hten hrest

end Abacus.Decimal
