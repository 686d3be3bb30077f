import Abacus.Proofs.Decimal.Rounding

/-!
# Exact quotients

A quotient of decimals is, up to a power of ten, a reduced fraction of integers.  Its denominator is
split into twos, fives and a rest without a factor in common with ten, and the quotient is a decimal
exactly when that rest is one (`exists_reduced`, `div_outcome`).
-/

namespace Abacus

/-! ## Twos, fives and the rest -/

/-- With the number itself as the limit all factors are divided out. -/
theorem not_dvd_stripFactor_rest {f n : Nat} (hf : 2 ≤ f) (hn : 0 < n) :
    ¬f ∣ (stripFactor f n n).2 := by
  have hmul := pow_mul_stripFactor f n n
  have hrest : 0 < (stripFactor f n n).2 := by
    refine Nat.pos_of_ne_zero fun hzero => ?_
    rw [hzero, Nat.mul_zero] at hmul
    omega
  have hcount : (stripFactor f n n).1 < n :=
    calc (stripFactor f n n).1 < 2 ^ (stripFactor f n n).1 := Nat.lt_two_pow_self
      _ ≤ f ^ (stripFactor f n n).1 := Nat.pow_le_pow_left hf _
      _ ≤ f ^ (stripFactor f n n).1 * (stripFactor f n n).2 := Nat.le_mul_of_pos_right _ hrest
      _ = n := hmul
  intro hdvd
  exact stripFactor_rest_mod_ne_zero hcount (Nat.mod_eq_zero_of_dvd hdvd)

/-- What is left of a number without its twos and fives. -/
theorem stripFactor_two_five {n twos fives half rest : Nat} (hn : 0 < n)
    (htwos : stripFactor 2 n n = (twos, half)) (hfives : stripFactor 5 half half = (fives, rest)) :
    n = 2 ^ twos * 5 ^ fives * rest ∧ rest.Coprime 10 := by
  have hmul := pow_mul_stripFactor 2 n n
  have hodd := not_dvd_stripFactor_rest (le_refl 2) hn
  rw [htwos] at hmul hodd
  have hhalf : 0 < half := by
    refine Nat.pos_of_ne_zero fun hzero => ?_
    simp [hzero] at hodd
  have hmul' := pow_mul_stripFactor 5 half half
  have hfive := not_dvd_stripFactor_rest (show 2 ≤ 5 by norm_num) hhalf
  rw [hfives] at hmul' hfive
  have hrest : ¬2 ∣ rest := fun hdvd => hodd (hmul' ▸ Dvd.dvd.mul_left hdvd _)
  refine ⟨by rw [mul_assoc, hmul', hmul], ?_⟩
  have h2 : rest.Coprime 2 := ((Nat.Prime.coprime_iff_not_dvd Nat.prime_two).mpr hrest).symm
  have h5 : rest.Coprime 5 := ((Nat.Prime.coprime_iff_not_dvd Nat.prime_five).mpr hfive).symm
  exact Nat.Coprime.mul_right h2 h5

namespace Decimal

/-! ## The reduced fraction -/

/-- The fraction of two integers with the gcd divided out and the sign in the numerator. -/
theorem reduced_fraction {a b common : Int} (hb : b ≠ 0) (hcommon : common = Int.gcd a b) :
    0 < (b.tdiv common).natAbs ∧
      (a.tdiv common * b.sign).natAbs.Coprime (b.tdiv common).natAbs ∧
      ((a.tdiv common * b.sign : Int) : ℚ) / (b.tdiv common).natAbs = a / b := by
  have hgcd : 0 < Int.gcd a b := Int.gcd_pos_of_ne_zero_right a hb
  have hpos : 0 < common := by omega
  obtain ⟨a', b', hcoprime, ha, hb'⟩ := Int.exists_gcd_one hgcd
  rw [← hcommon] at ha hb'
  have hnonzero : b' ≠ 0 := by
    intro hzero
    rw [hzero, zero_mul] at hb'
    exact hb hb'
  have hsign : b.sign = b'.sign := by
    rw [hb', Int.sign_mul, Int.sign_eq_one_of_pos hpos, mul_one]
  have hsign' : b'.sign ≠ 0 := by simpa using hnonzero
  have hdiv : a.tdiv common = a' := by rw [ha, Int.mul_tdiv_cancel _ hpos.ne']
  have hdiv' : b.tdiv common = b' := by rw [hb', Int.mul_tdiv_cancel _ hpos.ne']
  rw [hdiv, hdiv', hsign]
  refine ⟨Int.natAbs_pos.mpr hnonzero, ?_, ?_⟩
  · rw [Int.natAbs_mul, Int.natAbs_sign_of_ne_zero hnonzero, mul_one]
    exact hcoprime
  · have habs : ((b'.natAbs : Int) : ℚ) = (b' * b'.sign : Int) := by
      rw [mul_comm, Int.sign_mul_self_eq_natAbs]
    have hsignq : (b'.sign : ℚ) ≠ 0 := by exact_mod_cast hsign'
    have hcommonq : (common : ℚ) ≠ 0 := by exact_mod_cast hpos.ne'
    rw [← Int.cast_natCast, habs, ha, hb']
    push_cast
    rw [mul_div_mul_right _ _ hsignq, mul_div_mul_right _ _ hcommonq]

/-- The exact quotient of numbers other than zero, in terms of the reduced fraction. -/
theorem exists_reduced {x y : Decimal} (hx : x.unscaled ≠ 0) (hy : y.unscaled ≠ 0) :
    ∃ (numerator : Int) (denominator twos fives rest : Nat),
      denominator = 2 ^ twos * 5 ^ fives * rest ∧ rest.Coprime 10 ∧
      0 < denominator ∧ numerator.natAbs.Coprime denominator ∧
      (numerator : ℚ) / denominator = x.unscaled / y.unscaled ∧
      x.div y =
        if rest ≠ 1 then .error .nonTerminating
        else
          checked ((⟨(numerator * 10 ^ max twos fives).tdiv denominator,
            x.scale - y.scale + (max twos fives : Nat)⟩ : Decimal).stripZeros
              (x.scale - y.scale)) := by
  obtain ⟨hpos, hcoprime, hratio⟩ := reduced_fraction (a := x.unscaled) hy rfl
  rcases htwos : stripFactor 2 _ _ with ⟨twos, half⟩
  rcases hfives : stripFactor 5 half half with ⟨fives, rest⟩
  obtain ⟨hsplit, hten⟩ := stripFactor_two_five hpos htwos hfives
  refine ⟨_, _, twos, fives, rest, hsplit, hten, hpos, hcoprime, hratio, ?_⟩
  simp only [div, hx, hy, if_false, htwos, hfives, checkScale_bind]

/-- The ratio of the values is that of the coefficients at the difference of the scales. -/
theorem value_div_value (x y : Decimal) :
    x.value / y.value = x.unscaled / y.unscaled * (10 : ℚ) ^ (-(x.scale - y.scale)) := by
  rw [value, value, mul_div_mul_comm, ← zpow_sub₀ (by norm_num)]
  congr 2
  omega

/-- A fraction whose denominator has only twos and fives, written with enough digits. -/
theorem value_of_fraction {numerator preferred : Int} {denominator twos fives : Nat}
    (hsplit : denominator = 2 ^ twos * 5 ^ fives) :
    value ⟨(numerator * 10 ^ max twos fives).tdiv denominator,
        preferred + (max twos fives : Nat)⟩ =
      (numerator : ℚ) / denominator * 10 ^ (-preferred) := by
  have hdvd : denominator ∣ 10 ^ max twos fives := by
    rw [hsplit, show 10 = 2 * 5 by norm_num, Nat.mul_pow]
    exact Nat.mul_dvd_mul (Nat.pow_dvd_pow 2 (le_max_left ..)) (Nat.pow_dvd_pow 5 (le_max_right ..))
  have hnonzero : (denominator : ℚ) ≠ 0 := by
    rw [hsplit]
    positivity
  have hexact : ((numerator * 10 ^ max twos fives).tdiv denominator * denominator : Int) =
      numerator * 10 ^ max twos fives :=
    Int.tdiv_mul_cancel (Dvd.dvd.mul_left (by exact_mod_cast hdvd) _)
  have hcast : ((numerator * 10 ^ max twos fives).tdiv denominator : ℚ) =
      numerator * 10 ^ max twos fives / denominator := by
    rw [eq_div_iff hnonzero]
    exact_mod_cast hexact
  rw [value, hcast, neg_add, zpow_add₀ (by norm_num), zpow_neg _ ((max twos fives : Nat) : Int),
    zpow_natCast]
  field_simp

/-- A reduced fraction whose denominator has another factor is the value of no decimal. -/
theorem value_ne_fraction {numerator preferred : Int} {denominator rest : Nat}
    (hpos : 0 < denominator) (hcoprime : numerator.natAbs.Coprime denominator)
    (hrest : rest ∣ denominator) (hten : rest.Coprime 10) (hne : rest ≠ 1) (z : Decimal) :
    z.value ≠ (numerator : ℚ) / denominator * 10 ^ (-preferred) := by
  intro hvalue
  refine hne (Nat.Coprime.eq_one_of_dvd (hten.pow_right (z.scale - preferred).toNat) ?_)
  refine hrest.trans (hcoprime.symm.dvd_of_dvd_mul_left ?_)
  have hcross : z.unscaled * 10 ^ (-(z.scale - preferred)).toNat * denominator =
      numerator * 10 ^ (z.scale - preferred).toNat := by
    have hten : (10 : ℚ) ≠ 0 := by norm_num
    have hd : (denominator : ℚ) ≠ 0 := by exact_mod_cast hpos.ne'
    have hshift : (z.unscaled : ℚ) = numerator / denominator * 10 ^ (z.scale - preferred) := by
      rw [sub_eq_neg_add, zpow_add₀ hten, ← mul_assoc, ← hvalue, value, mul_assoc,
        ← zpow_add₀ hten, neg_add_cancel, zpow_zero, mul_one]
    have hcast : (z.unscaled : ℚ) * 10 ^ (-(z.scale - preferred)).toNat * denominator =
        numerator * 10 ^ (z.scale - preferred).toNat := by
      rw [hshift, ← pow_div_pow_neg]
      field_simp
    exact_mod_cast hcast
  have habs := congrArg Int.natAbs hcross
  simp only [Int.natAbs_mul, Int.natAbs_pow, Int.natAbs_natCast] at habs
  exact Dvd.intro_left _ habs

/-- An exact quotient is the quotient of the values, unless no decimal is. -/
theorem div_outcome (x : Decimal) {y : Decimal} (hy : y.unscaled ≠ 0) :
    x.div y = .error .nonTerminating ∧ (∀ z : Decimal, z.value ≠ x.value / y.value) ∨
      ∃ z : Decimal, z.value = x.value / y.value ∧ x.div y = checked z := by
  by_cases hx : x.unscaled = 0
  · refine .inr ⟨⟨0, max (x.scale - y.scale) 0⟩, ?_, ?_⟩
    · rw [value_eq_zero_iff.mpr hx]
      simp [value]
    · simp only [div, hx, hy, if_false, if_true, checkScale_bind]
  · obtain ⟨numerator, denominator, twos, fives, rest, hsplit, hten, hpos, hcoprime, hratio, hdiv⟩ :=
      exists_reduced hx hy
    rw [hdiv, value_div_value, ← hratio]
    by_cases hrest : rest = 1
    · rw [hrest, mul_one] at hsplit
      refine .inr ⟨_, ?_, if_neg (not_not.mpr hrest)⟩
      rw [value_stripZeros, value_of_fraction hsplit]
    · refine .inl ⟨if_pos hrest, ?_⟩
      exact value_ne_fraction hpos hcoprime (Dvd.intro_left _ hsplit.symm) hten hrest

end Decimal

end Abacus
