import Abacus.Proofs.Decimal.Congruence
import Abacus.Proofs.Decimal.TrailingZeros

/-!
# One form for one value

Zero is normal with scale zero, and any other number if its coefficient does not end in a zero.  A
value has exactly one normal form, since a coefficient that does not end in a zero is written at the
least scale (`IsNormal.eq_of_value`), and normalizing finds it (`normalized_eq_iff`).

Comparing numbers goes another way: signs first, then coefficients at a common scale.  Both ways tell
the same numbers apart, and tables that find a number by its hash depend on that.  The main statement
is `compares_and_hashes_by_value`; `countDistinct_eq_card` says what it means for a set of numbers.
-/

namespace Abacus.Decimal

variable {x y : Decimal}

/-- The number is written without zeros that could be left out. -/
structure IsNormal (x : Decimal) : Prop where
  zero : x.unscaled = 0 → x.scale = 0
  stripped : x.unscaled ≠ 0 → ¬(10 : Int) ∣ x.unscaled

theorem isNormal_normalized (x : Decimal) : x.normalized.IsNormal := by
  have hzero : x.normalized.unscaled = 0 ↔ x.unscaled = 0 :=
    unscaled_eq_zero_congr (value_normalized x)
  constructor
  · intro h
    rw [normalized, if_pos (hzero.mp h)]
    rfl
  · intro h
    exact not_ten_dvd_normalized (mt hzero.mpr h)

/-- A value has one normal form. -/
theorem IsNormal.eq_of_value (hx : x.IsNormal) (hy : y.IsNormal) (hvalue : x.value = y.value) :
    x = y := by
  have hle : ∀ {a b : Decimal}, a.IsNormal → b.IsNormal → a.value = b.value →
      a.scale ≤ b.scale := by
    intro a b ha hb hab
    by_cases hzero : a.unscaled = 0
    · rw [ha.zero hzero, hb.zero ((unscaled_eq_zero_congr hab).mp hzero)]
    · apply scale_le_of_writtenAt (ha.stripped hzero)
      rw [hab]
      exact writtenAt_value b
  apply eq_of_value_of_scale hvalue
  exact le_antisymm (hle hx hy hvalue) (hle hy hx hvalue.symm)

/-- Normalizing gives the normal form of the value and nothing else. -/
theorem normalized_eq_iff {z : Decimal} : x.normalized = z ↔ z.IsNormal ∧ z.value = x.value := by
  constructor
  · intro h
    rw [← h]
    exact ⟨isNormal_normalized x, value_normalized x⟩
  · intro h
    apply (isNormal_normalized x).eq_of_value h.1
    rw [value_normalized, h.2]

/-- A value has one normalized form. -/
theorem normalized_congr (h : x.value = y.value) : x.normalized = y.normalized :=
  normalized_eq_iff.mpr ⟨isNormal_normalized y, by rw [value_normalized, h]⟩

theorem normalized_eq_normalized_iff : x.normalized = y.normalized ↔ x.value = y.value := by
  constructor
  · intro h
    rw [← value_normalized x, h, value_normalized]
  · exact normalized_congr

/-- What is hashed is the whole normal form. -/
theorem hashData_eq_hashData_iff : x.hashData = y.hashData ↔ x.normalized = y.normalized := by
  rw [hashData, hashData, Prod.mk_inj]
  constructor
  · intro h
    calc x.normalized = ⟨x.normalized.unscaled, x.normalized.scale⟩ := rfl
      _ = y.normalized := by rw [h.1, h.2]
  · intro h
    rw [h]
    exact ⟨rfl, rfl⟩

/-- Numbers compare as their values do, a normalized number is the normal form of the value, and numbers
are equal exactly if their normalized forms are written alike and exactly if they are hashed alike. -/
theorem compares_and_hashes_by_value (x y : Decimal) :
    x.compare y = Ord.compare x.value y.value ∧
    (∀ z, x.normalized = z ↔ z.IsNormal ∧ z.value = x.value) ∧
    (x.sameValue y = true ↔
      x.normalized.unscaled = y.normalized.unscaled ∧ x.normalized.scale = y.normalized.scale) ∧
    (x.sameValue y = true ↔ x.hashData = y.hashData) := by
  have hhashed : x.sameValue y = true ↔ x.hashData = y.hashData := by
    rw [sameValue_iff, hashData_eq_hashData_iff, normalized_eq_normalized_iff]
  refine ⟨compare_eq x y, fun z => normalized_eq_iff, ?_, hhashed⟩
  rw [hhashed, hashData, hashData, Prod.mk_inj]

/-- Zero has no sign and no digits to tell its writings apart. -/
example : hashData ⟨0, -5⟩ = hashData ⟨0, 2⟩ := by decide

/-! ## Sets of numbers -/

theorem nodup_eraseDups (xs : List Decimal) : xs.eraseDups.Nodup := by
  induction hlength : xs.length using Nat.strong_induction_on generalizing xs with
  | h n ih =>
    cases xs with
    | nil => exact List.nodup_nil
    | cons x xs =>
      rw [List.eraseDups_cons, List.nodup_cons]
      have hshorter : (xs.filter fun y => !y == x).length < n := by
        rw [← hlength]
        exact Nat.lt_succ_of_le (List.length_filter_le ..)
      refine ⟨?_, ih _ hshorter _ rfl⟩
      simp [List.mem_eraseDups]

/-- A set of numbers that are told apart by their normal forms has one entry for each value. -/
theorem countDistinct_eq_card (xs : List Decimal) :
    countDistinct xs = (xs.map value).toFinset.card := by
  have hinjective : Set.InjOn value (xs.map normalized).toFinset := by
    intro a ha b hb hab
    rw [Finset.mem_coe, List.mem_toFinset, List.mem_map] at ha hb
    obtain ⟨x, _, rfl⟩ := ha
    obtain ⟨y, _, rfl⟩ := hb
    exact (isNormal_normalized x).eq_of_value (isNormal_normalized y) hab
  have hvalues : (xs.map value).toFinset = (xs.map normalized).toFinset.image value := by
    ext v
    simp
  have hdistinct : (xs.map normalized).eraseDups.toFinset = (xs.map normalized).toFinset := by
    ext z
    simp
  rw [hvalues, Finset.card_image_of_injOn hinjective, ← hdistinct,
    List.toFinset_card_of_nodup (nodup_eraseDups _), countDistinct]

end Abacus.Decimal
