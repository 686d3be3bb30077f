import Abacus.Proofs.Decimal.RoundingModes
import Abacus.Proofs.Decimal.Whole

/-!
# Integer views

Two functions look at a decimal as an integer: the test for a whole number and the conversion to a
signed 64-bit integer.  The test goes by the normalized form.  The conversion goes by the scale: it gives
up at once below scale `-18`, multiplies up to scale zero and divides above that.

Neither choice is seen in the results, which only depend on the value.  Every value has exactly one whole
part (`existsUnique_wholePart`), and the conversion gives it exactly if it is a word
(`toInt64?_eq_some_iff`, `toInt64?_eq_none_iff`).  Below scale `-18` no number but zero has a whole part
that is a word (`not_isWord_of_scale`), so nothing is lost by giving up.  The main statement is
`integer_views_exact`.
-/

namespace Abacus

/-- The signed 64-bit integers. -/
def IsWord (n : Int) : Prop := -9223372036854775808 ≤ n ∧ n ≤ 9223372036854775807

instance (n : Int) : Decidable (IsWord n) := by
  unfold IsWord
  infer_instance

namespace Decimal

variable {x : Decimal} {k : Int}

/-- The integer `k` is the value truncated towards zero: between zero and the value, and less than one
from the value. -/
def IsWholePart (x : Decimal) (k : Int) : Prop :=
  if 0 ≤ x.value then (k : ℚ) ≤ x.value ∧ x.value < k + 1 else x.value ≤ k ∧ (k : ℚ) - 1 < x.value

theorem isWholePart_iff : x.IsWholePart k ↔ k = Rounding.down.ofRat x.value := by
  rw [← Rounding.rounds_iff]
  simp only [IsWholePart, Rounding.Rounds]
  split
  · rw [eq_comm, Int.floor_eq_iff]
  · rw [eq_comm, Int.ceil_eq_iff, and_comm]

theorem existsUnique_wholePart (x : Decimal) : ∃! k, x.IsWholePart k := by
  refine ⟨Rounding.down.ofRat x.value, isWholePart_iff.mpr rfl, ?_⟩
  intro k hk
  exact isWholePart_iff.mp hk

/-- An integer is its own whole part. -/
theorem isWholePart_of_value_eq (h : x.value = k) : x.IsWholePart k := by
  rw [isWholePart_iff, h, Rounding.ofRat_intCast]

theorem toInt64?_eq_some_iff : x.toInt64? = some k ↔ x.IsWholePart k ∧ IsWord k := by
  simp only [toInt64?_eq, isWholePart_iff, Option.ite_none_right_eq_some, Option.some_inj, IsWord]
  constructor
  · rintro ⟨hword, rfl⟩
    exact ⟨rfl, hword⟩
  · rintro ⟨rfl, hword⟩
    exact ⟨hword, rfl⟩

/-- The conversion fails exactly on the values whose whole part is no word. -/
theorem toInt64?_eq_none_iff : x.toInt64? = none ↔ ∀ k, x.IsWholePart k → ¬IsWord k := by
  rw [Option.eq_none_iff_forall_not_mem]
  refine forall_congr' fun k => ?_
  rw [Option.mem_def, toInt64?_eq_some_iff, not_and]

/-- A number other than zero with more than eighteen zeros behind its coefficient is no word. -/
theorem not_isWord_of_scale (hscale : x.scale < -18) (hx : x.value ≠ 0) (hk : x.IsWholePart k) :
    ¬IsWord k := by
  have hlarge := large_of_scale (mt value_eq_zero_iff.mpr hx) hscale
  have hwhole : x.IsWholePart (x.unscaledAt 0) :=
    isWholePart_of_value_eq (value_eq_unscaledAt_zero (by omega))
  obtain rfl : k = x.unscaledAt 0 := (existsUnique_wholePart x).unique hk hwhole
  intro hword
  unfold IsWord at hword
  omega

/-- A number is whole exactly if its value is an integer, and it is converted to 64 bits exactly if the
whole part of its value fits.  That is so at every scale, and a number other than zero with a scale that
is given up does not fit. -/
theorem integer_views_exact (x : Decimal) :
    (x.isInteger = true ↔ ∃ n : Int, x.value = n) ∧
    (∀ k, x.toInt64? = some k ↔ x.IsWholePart k ∧ IsWord k) ∧
    (x.toInt64? = none ↔ ∀ k, x.IsWholePart k → ¬IsWord k) ∧
    (x.scale < -18 → (x.value = 0 → x.toInt64? = some 0) ∧
      (x.value ≠ 0 → x.toInt64? = none ∧ ∀ k, x.IsWholePart k → ¬IsWord k)) := by
  refine ⟨isInteger_iff, fun _ => toInt64?_eq_some_iff, toInt64?_eq_none_iff, ?_⟩
  intro hscale
  constructor
  · intro hzero
    rw [toInt64?_eq_some_iff]
    refine ⟨isWholePart_of_value_eq (by rw [hzero, Int.cast_zero]), ?_⟩
    unfold IsWord
    omega
  · intro hx
    have hout : ∀ k, x.IsWholePart k → ¬IsWord k := fun _ => not_isWord_of_scale hscale hx
    exact ⟨toInt64?_eq_none_iff.mpr hout, hout⟩

/-- The largest word behind a point, one at a scale that is just given up, and zero at the least scale. -/
theorem integer_views_exact_at_limits :
    toInt64? ⟨92233720368547758079, 1⟩ = some 9223372036854775807 ∧
      IsWholePart ⟨92233720368547758079, 1⟩ 9223372036854775807 ∧
      isInteger ⟨92233720368547758079, 1⟩ = false ∧
      (-19 : Int) < -18 ∧ value ⟨1, -19⟩ ≠ 0 ∧ toInt64? ⟨1, -19⟩ = none ∧
      (-2147483648 : Int) < -18 ∧ value ⟨0, -2147483648⟩ = 0 ∧
      toInt64? ⟨0, -2147483648⟩ = some 0 := by
  have hlargest : toInt64? ⟨92233720368547758079, 1⟩ = some 9223372036854775807 := by decide
  have hfraction : isInteger ⟨92233720368547758079, 1⟩ = false := by decide
  have hone : value ⟨1, -19⟩ ≠ 0 := mt value_eq_zero_iff.mp (by decide)
  have hzero : value ⟨0, -2147483648⟩ = 0 := value_eq_zero_iff.mpr rfl
  obtain ⟨_, hwhole, _, _⟩ := integer_views_exact ⟨92233720368547758079, 1⟩
  obtain ⟨_, _, _, hearly⟩ := integer_views_exact ⟨1, -19⟩
  obtain ⟨_, _, _, hleast⟩ := integer_views_exact ⟨0, -2147483648⟩
  exact ⟨hlargest, ((hwhole _).mp hlargest).1, hfraction, by omega, hone,
    ((hearly (by norm_num)).2 hone).1, by omega, hzero, (hleast (by norm_num)).1 hzero⟩

end Decimal

end Abacus
