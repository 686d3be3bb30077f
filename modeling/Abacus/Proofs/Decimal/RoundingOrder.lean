import Abacus.Proofs.Decimal.Interchange
import Abacus.Proofs.Decimal.RoundingModes

/-!
# Rounding keeps the order

All modes of rounding keep the order of the ratios (`Rounding.ofRat_mono`) and leave whole ratios as they
are.  From these two facts alone, what is rounded is not below the floor and not above the ceiling.  A mode
that does not ask for the nearest integer takes the floor or the ceiling on each side of zero, and floors
and ceilings can be taken in two steps (`Rounding.IsDirected.ofRat_div`).

For decimals of any scale the main statement is `rounded_in_order`.
-/

namespace Abacus

variable {ratio ratio' : ℚ} {n n' : Int}

/-- The nearest integers of two ratios are in the order of the ratios. -/
theorem IsNearest.le_of_lt (h : IsNearest ratio n) (h' : IsNearest ratio' n') (hlt : ratio < ratio') :
    n ≤ n' := by
  by_contra hgt
  -- the integers would be a unit apart, and each of them is at most one half away from its ratio
  have hunit : (n' : ℚ) + 1 ≤ n := by exact_mod_cast not_le.mp hgt
  rw [isNearest_iff_abs_le, abs_le] at h h'
  linarith

/-- The ceilings below zero and the floors above it do not meet. -/
theorem ceil_le_floor_of_neg_of_nonneg (h : ratio < 0) (h' : 0 ≤ ratio') : ⌈ratio⌉ ≤ ⌊ratio'⌋ := by
  have hceil : ⌈ratio⌉ ≤ 0 := Int.ceil_le.mpr (by exact_mod_cast h.le)
  have hfloor : 0 ≤ ⌊ratio'⌋ := Int.floor_nonneg.mpr h'
  omega

namespace Rounding

/-! ## The order of the ratios -/

/-- What a mode asks for in place of two ratios is in their order. -/
theorem le_of_rounds (mode : Rounding) (h : mode.Rounds ratio n) (h' : mode.Rounds ratio' n')
    (hlt : ratio < ratio') : n ≤ n' := by
  cases mode with
  | up =>
    unfold Rounds at h h'
    rw [h, h']
    split <;> split
    · exact Int.ceil_le_ceil hlt.le
    · linarith
    · exact (Int.floor_le_floor hlt.le).trans (Int.floor_le_ceil _)
    · exact Int.floor_le_floor hlt.le
  | down =>
    unfold Rounds at h h'
    rw [h, h']
    split <;> split
    · exact Int.floor_le_floor hlt.le
    · linarith
    · rename_i hneg hnonneg
      exact ceil_le_floor_of_neg_of_nonneg (not_le.mp hneg) hnonneg
    · exact Int.ceil_le_ceil hlt.le
  | ceiling =>
    unfold Rounds at h h'
    rw [h, h']
    exact Int.ceil_le_ceil hlt.le
  | floor =>
    unfold Rounds at h h'
    rw [h, h']
    exact Int.floor_le_floor hlt.le
  | halfUp => exact h.1.le_of_lt h'.1 hlt
  | halfDown => exact h.1.le_of_lt h'.1 hlt
  | halfEven => exact h.1.le_of_lt h'.1 hlt

theorem ofRat_mono (mode : Rounding) : Monotone mode.ofRat := by
  intro ratio ratio' hle
  rcases hle.lt_or_eq with hlt | heq
  · exact mode.le_of_rounds (mode.rounds_iff.mpr rfl) (mode.rounds_iff.mpr rfl) hlt
  · rw [heq]

theorem ofRat_floor (ratio : ℚ) : Rounding.floor.ofRat ratio = ⌊ratio⌋ :=
  (Rounding.floor.rounds_iff.mp rfl).symm

theorem ofRat_ceiling (ratio : ℚ) : Rounding.ceiling.ofRat ratio = ⌈ratio⌉ :=
  (Rounding.ceiling.rounds_iff.mp rfl).symm

theorem ofRat_floor_le (mode : Rounding) (ratio : ℚ) :
    Rounding.floor.ofRat ratio ≤ mode.ofRat ratio := by
  calc Rounding.floor.ofRat ratio = mode.ofRat ⌊ratio⌋ := by rw [ofRat_floor, ofRat_intCast]
    _ ≤ mode.ofRat ratio := mode.ofRat_mono (Int.floor_le ratio)

theorem ofRat_le_ceiling (mode : Rounding) (ratio : ℚ) :
    mode.ofRat ratio ≤ Rounding.ceiling.ofRat ratio := by
  calc mode.ofRat ratio ≤ mode.ofRat ⌈ratio⌉ := mode.ofRat_mono (Int.le_ceil ratio)
    _ = Rounding.ceiling.ofRat ratio := by rw [ofRat_ceiling, ofRat_intCast]

/-! ## Rounding in two steps -/

/-- The mode goes in one direction and does not ask for the nearest integer. -/
def IsDirected : Rounding → Prop
  | .up | .down | .ceiling | .floor => True
  | .halfUp | .halfDown | .halfEven => False

namespace IsDirected

variable {mode : Rounding}

theorem mirrored (h : mode.IsDirected) : mode.mirrored.IsDirected := by
  cases mode <;> exact h

/-- On ratios that are not negative the mode takes the floor, or it takes the ceiling. -/
theorem cases_of_nonneg (h : mode.IsDirected) :
    (∀ ratio : ℚ, 0 ≤ ratio → mode.ofRat ratio = ⌊ratio⌋) ∨
      ∀ ratio : ℚ, 0 ≤ ratio → mode.ofRat ratio = ⌈ratio⌉ := by
  cases mode with
  | up => exact .inr fun ratio hratio => (Rounding.up.rounds_iff.mp (if_pos hratio).symm).symm
  | down => exact .inl fun ratio hratio => (Rounding.down.rounds_iff.mp (if_pos hratio).symm).symm
  | ceiling => exact .inr fun ratio _ => ofRat_ceiling ratio
  | floor => exact .inl fun ratio _ => ofRat_floor ratio
  | halfUp | halfDown | halfEven => exact h.elim

theorem ofRat_div_of_nonneg (h : mode.IsDirected) (hratio : 0 ≤ ratio) (parts : Nat) :
    mode.ofRat (mode.ofRat ratio / parts) = mode.ofRat (ratio / parts) := by
  have hquotient : 0 ≤ ratio / parts := div_nonneg hratio (Nat.cast_nonneg _)
  rcases h.cases_of_nonneg with hfloor | hceil
  · have hwhole : (0 : ℚ) ≤ ⌊ratio⌋ := by exact_mod_cast Int.floor_nonneg.mpr hratio
    rw [hfloor ratio hratio, hfloor _ hquotient, hfloor _ (div_nonneg hwhole (Nat.cast_nonneg _)),
      Rat.floor_intCast_div_natCast, Int.floor_div_natCast]
  · have hwhole : (0 : ℚ) ≤ ⌈ratio⌉ := hratio.trans (Int.le_ceil ratio)
    rw [hceil ratio hratio, hceil _ hquotient, hceil _ (div_nonneg hwhole (Nat.cast_nonneg _)),
      Rat.ceil_intCast_div_natCast, ← neg_neg (ratio / parts), Int.ceil_neg, ← neg_div,
      Int.floor_div_natCast, Int.floor_neg]

/-- A ratio that is rounded before it is divided is rounded to the same integer. -/
theorem ofRat_div (h : mode.IsDirected) (ratio : ℚ) (parts : Nat) :
    mode.ofRat (mode.ofRat ratio / parts) = mode.ofRat (ratio / parts) := by
  rcases le_total 0 ratio with hratio | hratio
  · exact h.ofRat_div_of_nonneg hratio parts
  · have hmirror : ∀ ratio : ℚ, mode.ofRat ratio = -mode.mirrored.ofRat (-ratio) := by
      intro ratio
      rw [← ofRat_neg, neg_neg]
    calc mode.ofRat (mode.ofRat ratio / parts)
        = -mode.mirrored.ofRat (mode.mirrored.ofRat (-ratio) / parts) := by
          rw [hmirror (_ / _), hmirror ratio, Int.cast_neg, neg_div, neg_neg]
      _ = -mode.mirrored.ofRat (-ratio / parts) := by
          rw [h.mirrored.ofRat_div_of_nonneg (neg_nonneg.mpr hratio)]
      _ = mode.ofRat (ratio / parts) := by rw [neg_div, ← hmirror]

end IsDirected

end Rounding

/-! ## Rounded decimals -/

namespace Decimal

theorem isAtMost_iff {x y : Decimal} : x.isAtMost y = true ↔ x.value ≤ y.value := by
  rw [isAtMost, bne_iff_ne, compare_eq, Ne, compare_gt_iff_gt, not_lt]

/-- At one scale numbers are in the order of their coefficients. -/
theorem isAtMost_of_unscaled_le {m n : Int} (h : m ≤ n) (scale : Int) :
    (⟨m, scale⟩ : Decimal).isAtMost ⟨n, scale⟩ = true := by
  rw [isAtMost_iff, value, value]
  exact mul_le_mul_of_nonneg_right (by exact_mod_cast h) (zpow_nonneg (by norm_num) _)

/-- A scale in range is all that rounding needs. -/
theorem round_of_scaleInRange (x : Decimal) {scale : Int} (h : ScaleInRange scale)
    (mode : Rounding) :
    x.round scale mode = .ok ⟨mode.ofRat (x.value * 10 ^ scale), scale⟩ := by
  rw [round_eq, checked, if_pos h]

/-- The value that is left at a coarser scale, as a part of the coefficient at a finer one. -/
theorem value_mul_pow (n : Int) {coarse fine : Int} (h : coarse ≤ fine) :
    (⟨n, fine⟩ : Decimal).value * 10 ^ coarse = n / (10 ^ (fine - coarse).toNat : Nat) := by
  have hcast : (n : ℚ) / (10 ^ (fine - coarse).toNat : Nat) =
      n / (10 ^ (fine - coarse).toNat : Int) := by
    push_cast
    rfl
  rw [hcast]
  exact (unscaled_div_pow h).symm

/-- In a directed mode, digits can be rounded away in two steps. -/
theorem round_round {mode : Rounding} (hmode : mode.IsDirected) (x : Decimal) {coarse fine : Int}
    (h : coarse ≤ fine) :
    (⟨mode.ofRat (x.value * 10 ^ fine), fine⟩ : Decimal).round coarse mode = x.round coarse mode := by
  have hpow : (10 : ℚ) ^ fine / (10 ^ (fine - coarse).toNat : Nat) = 10 ^ coarse := by
    have hnat : ((fine - coarse).toNat : Int) = fine - coarse := by omega
    rw [Nat.cast_pow, ← zpow_natCast, hnat, Nat.cast_ofNat, ← zpow_sub₀ (by norm_num), sub_sub_cancel]
  rw [round_eq, round_eq, value_mul_pow _ h, hmode.ofRat_div, mul_div_assoc, hpow]

/-- Rounding to one scale keeps the order of numbers, gives numbers between the floor and the ceiling, and
treats the two sides of zero in the same way but for floor and ceiling.  In a directed mode it can be done
in two steps. -/
theorem rounded_in_order {x y : Decimal} (h : x.isAtMost y = true) {scale : Int}
    (hscale : ScaleInRange scale) (mode : Rounding) :
    (∃ a b : Decimal, x.round scale mode = .ok a ∧ y.round scale mode = .ok b ∧
      a.isAtMost b = true) ∧
    (∃ low a high : Decimal, x.round scale .floor = .ok low ∧ x.round scale mode = .ok a ∧
      x.round scale .ceiling = .ok high ∧ low.isAtMost a = true ∧ a.isAtMost high = true) ∧
    (∃ a : Decimal, x.round scale mode.mirrored = .ok a ∧ (-x).round scale mode = .ok (-a)) ∧
    (mode.IsDirected → ∀ coarse ≤ scale, ∃ a : Decimal, x.round scale mode = .ok a ∧
      a.round coarse mode = x.round coarse mode) := by
  have hround : ∀ (z : Decimal) (mode : Rounding), z.round scale mode =
      .ok ⟨mode.ofRat (z.value * 10 ^ scale), scale⟩ := fun z mode => z.round_of_scaleInRange hscale mode
  refine ⟨⟨_, _, hround x mode, hround y mode, ?_⟩,
    ⟨_, _, _, hround x .floor, hround x mode, hround x .ceiling, ?_, ?_⟩,
    ⟨_, hround x mode.mirrored, ?_⟩, fun hmode coarse hcoarse => ⟨_, hround x mode, ?_⟩⟩
  · have hvalue : x.value * 10 ^ scale ≤ y.value * 10 ^ scale :=
      mul_le_mul_of_nonneg_right (isAtMost_iff.mp h) (zpow_nonneg (by norm_num) _)
    exact isAtMost_of_unscaled_le (mode.ofRat_mono hvalue) scale
  · exact isAtMost_of_unscaled_le (mode.ofRat_floor_le _) scale
  · exact isAtMost_of_unscaled_le (mode.ofRat_le_ceiling _) scale
  · rw [hround (-x) mode, value_neg, neg_mul, Rounding.ofRat_neg]
    rfl
  · exact round_round hmode x hcoarse

/-- Two numbers on the two sides of zero, with digits before the point rounded away in two steps. -/
theorem rounded_in_order_of_two_steps :
    (⟨-12501, 2⟩ : Decimal).isAtMost ⟨125, 0⟩ = true ∧ ScaleInRange 0 ∧ Rounding.up.IsDirected ∧
      round ⟨-12501, 2⟩ 0 .up = .ok ⟨-126, 0⟩ ∧ round ⟨-126, 0⟩ (-1) .up = .ok ⟨-13, -1⟩ ∧
      round ⟨-12501, 2⟩ (-1) .up = .ok ⟨-13, -1⟩ := by
  have hle : (⟨-12501, 2⟩ : Decimal).isAtMost ⟨125, 0⟩ = true := by decide
  have hscale : ScaleInRange 0 := by decide
  have hfirst : round ⟨-12501, 2⟩ 0 .up = .ok ⟨-126, 0⟩ := by decide
  have hsecond : round ⟨-126, 0⟩ (-1) .up = .ok ⟨-13, -1⟩ := by decide
  obtain ⟨a, ha, htwice⟩ := (rounded_in_order hle hscale .up).2.2.2 trivial (-1) (by decide)
  obtain rfl := Except.ok.inj (hfirst.symm.trans ha)
  exact ⟨hle, hscale, trivial, hfirst, hsecond, htwice.symm.trans hsecond⟩

end Decimal

end Abacus
