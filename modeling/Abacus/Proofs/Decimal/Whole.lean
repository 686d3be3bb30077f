import Abacus.Proofs.Decimal.Division

/-!
# Decimals as integers

The tests for an integer and the conversion to 64 bits look at digits and scales.  What they find is a
property of the value: `isInteger_iff` and `toInt64?_eq`.
-/

namespace Abacus.Decimal

/-- The coefficient ends in a zero after zeros were dropped if what was left without its sign does. -/
theorem ten_dvd_dropZeros_iff {x : Decimal} (hx : x.unscaled ≠ 0) (limit : Nat) :
    (10 : Int) ∣ (x.dropZeros limit).unscaled ↔
      10 ∣ (stripFactor 10 limit x.unscaled.natAbs).2 := by
  rw [← Int.natCast_dvd_natCast]
  simp only [dropZeros]
  rcases sign_cases x.unscaled with ⟨_, hsign⟩ | ⟨hzero, _⟩ | ⟨_, hsign⟩
  · rw [hsign, neg_one_mul, dvd_neg]
    rfl
  · exact absurd hzero hx
  · rw [hsign, one_mul]
    rfl

/-- The coefficient of a normalized number other than zero does not end in a zero. -/
theorem not_ten_dvd_normalized {x : Decimal} (hx : x.unscaled ≠ 0) :
    ¬(10 : Int) ∣ x.normalized.unscaled := by
  rw [normalized, if_neg hx, ten_dvd_dropZeros_iff hx]
  exact not_dvd_stripFactor_rest (show 2 ≤ 10 by norm_num) (Int.natAbs_pos.mpr hx)

/-- A decimal without digits after the point is whole. -/
theorem value_eq_unscaledAt_zero {x : Decimal} (h : x.scale ≤ 0) :
    x.value = x.unscaledAt 0 := by
  rw [unscaledAt_cast h, zpow_zero, mul_one]

theorem isInteger_iff {x : Decimal} : x.isInteger = true ↔ ∃ n : Int, x.value = n := by
  rw [isInteger, decide_eq_true_iff, ← value_normalized]
  constructor
  · intro h
    exact ⟨_, value_eq_unscaledAt_zero h⟩
  · intro h
    obtain ⟨n, hn⟩ := h
    by_contra hscale
    by_cases hx : x.unscaled = 0
    · simp [normalized, hx, zero, ofInt] at hscale
    · refine not_ten_dvd_normalized hx ?_
      obtain ⟨k, hk⟩ : ∃ k : Nat, x.normalized.scale = k + 1 :=
        ⟨x.normalized.scale.toNat - 1, by omega⟩
      have hcast : (x.normalized.unscaled : ℚ) = n * 10 ^ (k + 1) := by
        rw [← hn, value, hk, mul_assoc, ← zpow_natCast, ← zpow_add₀ (by norm_num)]
        simp
      have hmul : x.normalized.unscaled = n * 10 ^ (k + 1) := by exact_mod_cast hcast
      exact ⟨n * 10 ^ k, by rw [hmul]; ring⟩

/-- A number with many zeros before its point does not fit into 64 bits. -/
theorem large_of_scale {x : Decimal} (hx : x.unscaled ≠ 0) (h : x.scale < -18) :
    9223372036854775808 < (x.unscaledAt 0).natAbs := by
  have hpow : 10 ^ 19 ≤ 10 ^ (0 - x.scale).toNat := Nat.pow_le_pow_right (by norm_num) (by omega)
  calc 9223372036854775808 < 1 * 10 ^ 19 := by norm_num
    _ ≤ x.unscaled.natAbs * 10 ^ (0 - x.scale).toNat :=
        Nat.mul_le_mul (Int.natAbs_pos.mpr hx) hpow
    _ = (x.unscaledAt 0).natAbs := by
        simp [unscaledAt, Int.natAbs_mul, Int.natAbs_pow]

/-- The conversion to 64 bits cuts off the fraction of the value. -/
theorem toInt64?_eq (x : Decimal) :
    x.toInt64? =
      let whole := Rounding.down.ofRat x.value
      if -9223372036854775808 ≤ whole ∧ whole ≤ 9223372036854775807 then some whole else none := by
  by_cases hx : x.unscaled = 0
  · have hwhole : Rounding.down.ofRat x.value = 0 := by
      rw [value_eq_zero_iff.mpr hx]
      exact Rounding.ofRat_intCast .down 0
    simp [toInt64?, hx, hwhole]
  · by_cases hscale : x.scale < -18
    · have hlarge := large_of_scale hx hscale
      have hout : ¬(-9223372036854775808 ≤ x.unscaledAt 0 ∧
          x.unscaledAt 0 ≤ 9223372036854775807) := by omega
      rw [value_eq_unscaledAt_zero (by omega), Rounding.ofRat_intCast, toInt64?, if_neg hx,
        if_pos hscale]
      exact (if_neg hout).symm
    · have hwhole : (if x.scale ≤ 0 then x.unscaledAt 0 else x.unscaled.tdiv (10 ^ x.scale.toNat)) =
          Rounding.down.ofRat x.value := by
        split
        · rename_i h
          rw [value_eq_unscaledAt_zero h, Rounding.ofRat_intCast]
        · rename_i h
          have hpositive : 0 ≤ x.scale := by omega
          have hratio := unscaled_div_pow hpositive
          rw [sub_zero, zpow_zero, mul_one] at hratio
          rw [tdiv_eq (by positivity), hratio]
      simp only [toInt64?, hx, hscale, if_false, hwhole]

end Abacus.Decimal
