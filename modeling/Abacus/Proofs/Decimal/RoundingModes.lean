import Abacus.Proofs.Decimal.Rounding

/-!
# What the rounding modes mean

Rounding starts from the truncated quotient and moves it by a unit where sign, dropped fraction and
parity say so.  `Rounding.Rounds` states what each mode asks for without any of these: an integer on one
side of the ratio, or a nearest one, and of two nearest ones the one that the mode prefers.

A mode rounds a negative ratio as its mirror image rounds the positive one, and both descriptions are
mirrored in the same way (`Rounding.ofRat_neg`, `Rounding.rounds_neg_iff`).  So it is enough to compare
them on ratios that are not negative, where truncating is taking the floor.  What decimals are rounded to
follows in `rounded_as_mode_asks`.
-/

namespace Abacus

/-- No integer is nearer to the ratio. -/
def IsNearest (ratio : ℚ) (n : Int) : Prop := ∀ m : Int, |ratio - n| ≤ |ratio - m|

/-- The nearest integer, and of two nearest ones the one that is preferred to the other. -/
def IsPreferred (prefers : Int → Int → Prop) (ratio : ℚ) (n : Int) : Prop :=
  IsNearest ratio n ∧ ∀ m, IsNearest ratio m → m ≠ n → prefers n m

/-- `mode.Rounds ratio n` says that `n` is what `mode` asks for in place of `ratio`. -/
def Rounding.Rounds (mode : Rounding) (ratio : ℚ) (n : Int) : Prop :=
  match mode with
  | .up => n = if 0 ≤ ratio then ⌈ratio⌉ else ⌊ratio⌋
  | .down => n = if 0 ≤ ratio then ⌊ratio⌋ else ⌈ratio⌉
  | .ceiling => n = ⌈ratio⌉
  | .floor => n = ⌊ratio⌋
  | .halfUp => IsPreferred (fun n m => |m| < |n|) ratio n
  | .halfDown => IsPreferred (fun n m => |n| < |m|) ratio n
  | .halfEven => IsPreferred (fun n _ => Even n) ratio n

/-- The mode that does on the one side of zero what `mode` does on the other. -/
def Rounding.mirrored : Rounding → Rounding
  | .ceiling => .floor
  | .floor => .ceiling
  | mode => mode

variable {ratio : ℚ} {n : Int}

/-! ## Nearest integers -/

/-- The nearest integers are those at most one half away. -/
theorem isNearest_iff_abs_le : IsNearest ratio n ↔ |ratio - n| ≤ 1 / 2 := by
  constructor
  · intro h
    exact (h (round ratio)).trans (abs_sub_round ratio)
  · intro h m
    by_cases hmn : m = n
    · rw [hmn]
    · -- another integer is a unit away from `n`, so the ratio is not nearer to it than one half
      have hapart : (1 : ℚ) ≤ |(m : ℚ) - n| := by
        have hint : 1 ≤ |m - n| := Int.one_le_abs (sub_ne_zero.mpr hmn)
        exact_mod_cast hint
      have htriangle := abs_sub_le (m : ℚ) ratio n
      rw [abs_sub_comm (m : ℚ) ratio] at htriangle
      linarith

/-- A nearest integer is the floor or the next integer. -/
theorem isNearest_iff_fract :
    IsNearest ratio n ↔ n = ⌊ratio⌋ ∧ Int.fract ratio ≤ 1 / 2 ∨
      n = ⌊ratio⌋ + 1 ∧ 1 / 2 ≤ Int.fract ratio := by
  have hsplit := Int.floor_add_fract ratio
  have hnonneg := Int.fract_nonneg ratio
  have hlt := Int.fract_lt_one ratio
  rw [isNearest_iff_abs_le, abs_le]
  constructor
  · intro h
    have hge : (⌊ratio⌋ : ℚ) - 1 < n := by linarith
    have hle : (n : ℚ) < ⌊ratio⌋ + 2 := by linarith
    have hge' : ⌊ratio⌋ - 1 < n := by exact_mod_cast hge
    have hle' : n < ⌊ratio⌋ + 2 := by exact_mod_cast hle
    obtain rfl | rfl : n = ⌊ratio⌋ ∨ n = ⌊ratio⌋ + 1 := by omega
    · exact .inl ⟨rfl, by linarith⟩
    · push_cast at h
      exact .inr ⟨rfl, by linarith⟩
  · intro h
    rcases h with ⟨rfl, hfract⟩ | ⟨rfl, hfract⟩
    · constructor <;> linarith
    · push_cast
      constructor <;> linarith

/-- Two different integers are nearest only if the ratio is in the middle between them. -/
theorem middle_of_isNearest {m : Int} (hn : IsNearest ratio n) (hm : IsNearest ratio m)
    (hne : m ≠ n) : Int.fract ratio = 1 / 2 ∧
      (n = ⌊ratio⌋ ∧ m = ⌊ratio⌋ + 1 ∨ n = ⌊ratio⌋ + 1 ∧ m = ⌊ratio⌋) := by
  rw [isNearest_iff_fract] at hn hm
  rcases hn with ⟨rfl, hn⟩ | ⟨rfl, hn⟩
  · rcases hm with ⟨hm, _⟩ | ⟨hm, hfract⟩
    · exact absurd hm hne
    · exact ⟨le_antisymm hn hfract, .inl ⟨rfl, hm⟩⟩
  · rcases hm with ⟨hm, hfract⟩ | ⟨hm, _⟩
    · exact ⟨le_antisymm hfract hn, .inr ⟨rfl, hm⟩⟩
    · exact absurd hm hne

/-- An integer that is preferred to all other nearest ones, and none of them to it, is the one that is
asked for. -/
theorem isPreferred_iff_eq {prefers : Int → Int → Prop} {k : Int} (hk : IsNearest ratio k)
    (hothers : ∀ m, IsNearest ratio m → m ≠ k → prefers k m ∧ ¬prefers m k) :
    IsPreferred prefers ratio n ↔ n = k := by
  constructor
  · intro h
    by_contra hne
    exact (hothers n h.1 hne).2 (h.2 k hk (Ne.symm hne))
  · intro h
    rw [h]
    exact ⟨hk, fun m hm hne => (hothers m hm hne).1⟩

theorem isNearest_neg_iff : IsNearest (-ratio) (-n) ↔ IsNearest ratio n := by
  have hdistance : |-ratio - (-n : Int)| = |ratio - n| := by
    rw [← abs_neg, Int.cast_neg, neg_sub_neg, neg_sub, abs_sub_comm]
  rw [isNearest_iff_abs_le, isNearest_iff_abs_le, hdistance]

theorem isPreferred_neg_iff {prefers : Int → Int → Prop}
    (hprefers : ∀ k m : Int, prefers (-k) (-m) ↔ prefers k m) :
    IsPreferred prefers (-ratio) (-n) ↔ IsPreferred prefers ratio n := by
  unfold IsPreferred
  rw [isNearest_neg_iff]
  refine and_congr_right fun _ => ?_
  rw [← (Equiv.neg Int).forall_congr_right]
  simp only [Equiv.neg_apply, isNearest_neg_iff, hprefers, ne_eq, neg_inj]

namespace Rounding

/-! ## Mirror images -/

theorem mirrored_mirrored (mode : Rounding) : mode.mirrored.mirrored = mode := by
  cases mode <;> rfl

/-- A choice by the sign of the ratio is mirrored by exchanging the two sides.  Zero is on both of
them. -/
theorem neg_eq_ite_neg_iff {a b : Int} (hzero : ratio = 0 → a = b) :
    (-n = if 0 ≤ -ratio then -a else -b) ↔ n = if 0 ≤ ratio then b else a := by
  simp only [neg_nonneg]
  rcases lt_trichotomy ratio 0 with h | h | h
  · rw [if_pos h.le, if_neg h.not_ge, neg_inj]
  · rw [if_pos h.le, if_pos h.ge, neg_inj, hzero h]
  · rw [if_neg h.not_ge, if_pos h.le, neg_inj]

/-- What a mode asks for in place of a ratio, its mirror image asks for with the signs changed. -/
theorem rounds_neg_iff (mode : Rounding) :
    mode.Rounds (-ratio) (-n) ↔ mode.mirrored.Rounds ratio n := by
  cases mode with
  | up =>
    simp only [Rounds, mirrored, Int.ceil_neg, Int.floor_neg]
    exact neg_eq_ite_neg_iff fun hzero => by rw [hzero, Int.floor_zero, Int.ceil_zero]
  | down =>
    simp only [Rounds, mirrored, Int.ceil_neg, Int.floor_neg]
    exact neg_eq_ite_neg_iff fun hzero => by rw [hzero, Int.floor_zero, Int.ceil_zero]
  | ceiling => simp only [Rounds, mirrored, Int.ceil_neg, neg_inj]
  | floor => simp only [Rounds, mirrored, Int.floor_neg, neg_inj]
  | halfUp =>
    unfold Rounds mirrored
    exact isPreferred_neg_iff fun k m => by rw [abs_neg, abs_neg]
  | halfDown =>
    unfold Rounds mirrored
    exact isPreferred_neg_iff fun k m => by rw [abs_neg, abs_neg]
  | halfEven =>
    unfold Rounds mirrored
    exact isPreferred_neg_iff fun k m => even_neg

theorem awayFromZero_mirrored (mode : Rounding) (positive : Bool) (half : Ordering) (n : Int) :
    mode.mirrored.awayFromZero positive half n = mode.awayFromZero (!positive) half (-n) := by
  have hparity : ((-n) % 2 != 0) = (n % 2 != 0) := by
    rw [Bool.eq_iff_iff, bne_iff_ne, bne_iff_ne]
    omega
  cases mode <;> simp only [mirrored, awayFromZero, Bool.not_not, hparity]

theorem roundQuotient_neg (mode : Rounding) (a b : Int) :
    roundQuotient mode (-a) b = -roundQuotient mode.mirrored a b := by
  simp only [roundQuotient, Int.neg_tdiv, Int.neg_tmod, neg_eq_zero, Int.natAbs_neg]
  split
  · rfl
  · rename_i hremainder
    have ha : a ≠ 0 := by
      intro hzero
      rw [hzero, Int.zero_tmod] at hremainder
      exact hremainder rfl
    have hsign : (decide (-a < 0) == decide (b < 0)) = !(decide (a < 0) == decide (b < 0)) := by
      rw [decide_neg_lt_zero ha]
      cases decide (a < 0) <;> cases decide (b < 0) <;> rfl
    rw [hsign, awayFromZero_mirrored]
    cases hpositive : (decide (a < 0) == decide (b < 0)) with
    | true =>
      simp only [Bool.not_true, Bool.false_eq_true, if_true, if_false]
      split <;> omega
    | false =>
      simp only [Bool.not_false, Bool.false_eq_true, if_true, if_false]
      split <;> omega

theorem ofRat_neg (mode : Rounding) (ratio : ℚ) :
    mode.ofRat (-ratio) = -mode.mirrored.ofRat ratio := by
  rw [ofRat, Rat.neg_num, Rat.neg_den, roundQuotient_neg, ofRat]

/-! ## Ratios that are not negative -/

/-- Such a ratio is rounded down unless it has a fraction and the mode moves it. -/
theorem ofRat_of_nonneg (mode : Rounding) (h : 0 ≤ ratio) :
    mode.ofRat ratio =
      if Int.fract ratio = 0 then ⌊ratio⌋
      else if mode.awayFromZero true (compare (Int.fract ratio) (1 / 2)) ⌊ratio⌋ then ⌊ratio⌋ + 1
      else ⌊ratio⌋ := by
  have hnum : 0 ≤ ratio.num := Rat.num_nonneg.mpr h
  have hden : (0 : ℚ) < ratio.den := by exact_mod_cast ratio.den_pos
  have hfloor : ratio.num.tdiv ratio.den = ⌊ratio⌋ := by
    rw [Int.tdiv_eq_ediv_of_nonneg hnum, Rat.floor_def']
  have hremainder : (ratio.num.tmod ratio.den : ℚ) = Int.fract ratio * ratio.den := by
    rw [Int.tmod_def, hfloor, Int.fract]
    push_cast
    rw [sub_mul, Rat.mul_den_eq_num, mul_comm (ratio.den : ℚ)]
  have hzero : ratio.num.tmod ratio.den = 0 ↔ Int.fract ratio = 0 := by
    rw [← Int.cast_eq_zero (α := ℚ), hremainder, mul_eq_zero, or_iff_left hden.ne']
  have hpositive : (decide (ratio.num < 0) == decide ((ratio.den : Int) < 0)) = true := by
    have hden' : ¬(ratio.den : Int) < 0 := by omega
    rw [decide_eq_false hnum.not_gt, decide_eq_false hden', beq_self_eq_true]
  have hhalf : compare (2 * (ratio.num.tmod ratio.den).natAbs) (ratio.den : Int).natAbs =
      compare (Int.fract ratio) (1 / 2) := by
    have hcast : ((2 * (ratio.num.tmod ratio.den).natAbs : Nat) : ℚ) =
        Int.fract ratio * 2 * ratio.den := by
      have hnonneg : 0 ≤ ratio.num.tmod ratio.den := Int.tmod_nonneg _ hnum
      rw [Nat.cast_mul, ← Int.cast_natCast (ratio.num.tmod ratio.den).natAbs,
        Int.natAbs_of_nonneg hnonneg, hremainder, Nat.cast_two]
      ring
    rw [Int.natAbs_natCast]
    apply compare_congr
    · rw [← Nat.cast_lt (α := ℚ), hcast, mul_lt_iff_lt_one_left hden, lt_div_iff₀ two_pos]
    · rw [← Nat.cast_lt (α := ℚ), hcast, lt_mul_iff_one_lt_left hden, div_lt_iff₀ two_pos]
  simp only [ofRat, roundQuotient, hfloor, hzero, hpositive, hhalf, if_true]

theorem ofRat_of_middle (mode : Rounding) (h : 0 ≤ ratio) (hfract : Int.fract ratio = 1 / 2) :
    mode.ofRat ratio =
      if mode.awayFromZero true .eq ⌊ratio⌋ then ⌊ratio⌋ + 1 else ⌊ratio⌋ := by
  have hne : Int.fract ratio ≠ 0 := by
    rw [hfract]
    norm_num
  rw [ofRat_of_nonneg mode h, if_neg hne, compare_eq_iff_eq.mpr hfract]

/-- A mode that keeps less than a half and moves more than a half rounds to the nearest integer, so it
is described by what it does with a half. -/
theorem isPreferred_iff_of_nonneg {mode : Rounding} {prefers : Int → Int → Prop} (h : 0 ≤ ratio)
    (hless : mode.awayFromZero true .lt ⌊ratio⌋ = false)
    (hmore : mode.awayFromZero true .gt ⌊ratio⌋ = true)
    (hmoved : mode.awayFromZero true .eq ⌊ratio⌋ = true →
      prefers (⌊ratio⌋ + 1) ⌊ratio⌋ ∧ ¬prefers ⌊ratio⌋ (⌊ratio⌋ + 1))
    (hkept : mode.awayFromZero true .eq ⌊ratio⌋ = false →
      prefers ⌊ratio⌋ (⌊ratio⌋ + 1) ∧ ¬prefers (⌊ratio⌋ + 1) ⌊ratio⌋) :
    IsPreferred prefers ratio n ↔ n = mode.ofRat ratio := by
  have hnearest : IsNearest ratio (mode.ofRat ratio) := by
    rw [isNearest_iff_fract]
    rcases lt_trichotomy (Int.fract ratio) (1 / 2) with hfract | hfract | hfract
    · rw [ofRat_of_nonneg mode h, compare_lt_iff_lt.mpr hfract, hless]
      exact .inl ⟨by simp, hfract.le⟩
    · rw [ofRat_of_middle mode h hfract, hfract]
      split <;> simp
    · have hne : Int.fract ratio ≠ 0 := by linarith
      rw [ofRat_of_nonneg mode h, if_neg hne, compare_gt_iff_gt.mpr hfract, hmore]
      exact .inr ⟨rfl, hfract.le⟩
  apply isPreferred_iff_eq hnearest
  intro m hm hne
  obtain ⟨hfract, hcases⟩ := middle_of_isNearest hnearest hm hne
  rw [ofRat_of_middle mode h hfract] at hcases ⊢
  cases haway : mode.awayFromZero true .eq ⌊ratio⌋ with
  | true =>
    simp only [haway, if_true] at hcases ⊢
    obtain rfl : m = ⌊ratio⌋ := by omega
    exact hmoved haway
  | false =>
    simp only [haway, Bool.false_eq_true, if_false] at hcases ⊢
    obtain rfl : m = ⌊ratio⌋ + 1 := by omega
    exact hkept haway

/-- The ceiling is the next integer unless there is no fraction. -/
theorem ceil_eq_ite (ratio : ℚ) :
    ⌈ratio⌉ = if Int.fract ratio = 0 then ⌊ratio⌋ else ⌊ratio⌋ + 1 := by
  have hsplit := Int.floor_add_fract ratio
  have hlt := Int.fract_lt_one ratio
  split
  · rename_i hzero
    rw [Int.ceil_eq_iff]
    constructor <;> linarith
  · rename_i hne
    have hpos : 0 < Int.fract ratio := (Int.fract_nonneg ratio).lt_of_ne' hne
    rw [Int.ceil_eq_iff]
    push_cast
    constructor <;> linarith

/-- A ratio that is not negative is rounded to what its mode asks for. -/
theorem rounds_iff_of_nonneg (mode : Rounding) (h : 0 ≤ ratio) :
    mode.Rounds ratio n ↔ n = mode.ofRat ratio := by
  have hfloor : 0 ≤ ⌊ratio⌋ := Int.floor_nonneg.mpr h
  have hgrows : |⌊ratio⌋| < |⌊ratio⌋ + 1| := by
    rw [abs_of_nonneg hfloor, abs_of_nonneg (by omega)]
    omega
  have hparity : Rounding.halfEven.awayFromZero true .eq ⌊ratio⌋ = true ↔ ¬Even ⌊ratio⌋ := by
    simp [awayFromZero, Int.even_iff]
  cases mode with
  | up =>
    rw [Rounds, if_pos h, ofRat_of_nonneg _ h, ceil_eq_ite]
    rfl
  | down =>
    rw [Rounds, if_pos h, ofRat_of_nonneg _ h]
    simp [awayFromZero]
  | ceiling =>
    rw [Rounds, ofRat_of_nonneg _ h, ceil_eq_ite]
    rfl
  | floor =>
    rw [Rounds, ofRat_of_nonneg _ h]
    simp [awayFromZero]
  | halfUp =>
    apply isPreferred_iff_of_nonneg h rfl rfl
    · intro _
      exact ⟨hgrows, hgrows.not_gt⟩
    · intro hkept
      cases hkept
  | halfDown =>
    apply isPreferred_iff_of_nonneg h rfl rfl
    · intro hmoved
      cases hmoved
    · intro _
      exact ⟨hgrows, hgrows.not_gt⟩
  | halfEven =>
    apply isPreferred_iff_of_nonneg h rfl rfl
    · intro hmoved
      have hodd := hparity.mp hmoved
      exact ⟨Int.even_add_one.mpr hodd, hodd⟩
    · intro hkept
      have heven : Even ⌊ratio⌋ := by
        rw [← not_not (a := Even _), ← hparity, hkept]
        exact Bool.false_ne_true
      exact ⟨heven, mt Int.even_add_one.mp (not_not.mpr heven)⟩

/-- Rounding gives what the mode asks for, and nothing else is asked for. -/
theorem rounds_iff (mode : Rounding) : mode.Rounds ratio n ↔ n = mode.ofRat ratio := by
  rcases le_total 0 ratio with h | h
  · exact rounds_iff_of_nonneg mode h
  · have hmirrored := @rounds_neg_iff (-ratio) (-n) mode
    rw [neg_neg, neg_neg, rounds_iff_of_nonneg _ (neg_nonneg.mpr h)] at hmirrored
    rw [hmirrored, ofRat_neg, mirrored_mirrored, neg_inj]

end Rounding

/-! ## Rounded decimals -/

namespace Decimal

/-- Rounded quotients and rounded numbers have the scale that was asked for, and their digits are those
that the mode asks for in place of the exact value at that scale. -/
theorem rounded_as_mode_asks (x : Decimal) {y : Decimal} (hy : y.value ≠ 0) {scale : Int}
    (hscale : ScaleInRange scale) (mode : Rounding) :
    (∃ q : Decimal, x.divScaled y scale mode = .ok q ∧ q.scale = scale ∧
      ∀ n : Int, mode.Rounds (10 ^ scale * (x.value / y.value)) n ↔ n = q.unscaled) ∧
    ∃ q : Decimal, x.round scale mode = .ok q ∧ q.scale = scale ∧
      ∀ n : Int, mode.Rounds (10 ^ scale * x.value) n ↔ n = q.unscaled := by
  have hchecked : ∀ n : Int, checked ⟨n, scale⟩ = .ok ⟨n, scale⟩ := fun n => if_pos hscale
  constructor
  · refine ⟨_, (divScaled_eq (mt value_eq_zero_iff.mpr hy) scale mode).trans (hchecked _), rfl, ?_⟩
    intro n
    rw [mul_comm]
    exact mode.rounds_iff
  · refine ⟨_, (round_eq x scale mode).trans (hchecked _), rfl, ?_⟩
    intro n
    rw [mul_comm]
    exact mode.rounds_iff

/-- A ratio in the middle, on either side of zero, with digits before the point rounded away. -/
theorem rounded_as_mode_asks_of_middle :
    (⟨-10, 1⟩ : Decimal).value ≠ 0 ∧ ScaleInRange (-1) ∧
      divScaled ⟨-25, 0⟩ ⟨-10, 1⟩ (-1) .halfEven = .ok ⟨2, -1⟩ ∧
      (∀ n, Rounding.halfEven.Rounds (5 / 2) n ↔ n = 2) ∧
      round ⟨-25, 0⟩ (-1) .halfEven = .ok ⟨-2, -1⟩ ∧
      ∀ n, Rounding.halfEven.Rounds (-5 / 2) n ↔ n = -2 := by
  have hy : (⟨-10, 1⟩ : Decimal).value ≠ 0 := mt value_eq_zero_iff.mp (by decide)
  have hscale : ScaleInRange (-1) := by decide
  have hratio : (10 : ℚ) ^ (-1 : Int) * (value ⟨-25, 0⟩ / value ⟨-10, 1⟩) = 5 / 2 := by
    norm_num [value]
  have hnumber : (10 : ℚ) ^ (-1 : Int) * value ⟨-25, 0⟩ = -5 / 2 := by norm_num [value]
  have hdivided : divScaled ⟨-25, 0⟩ ⟨-10, 1⟩ (-1) .halfEven = .ok ⟨2, -1⟩ := by decide
  have hrounded : round ⟨-25, 0⟩ (-1) .halfEven = .ok ⟨-2, -1⟩ := by decide
  obtain ⟨⟨q, hq, _, hasked⟩, ⟨r, hr, _, hasked'⟩⟩ :=
    rounded_as_mode_asks ⟨-25, 0⟩ hy hscale .halfEven
  obtain rfl := Except.ok.inj (hdivided.symm.trans hq)
  obtain rfl := Except.ok.inj (hrounded.symm.trans hr)
  rw [hratio] at hasked
  rw [hnumber] at hasked'
  exact ⟨hy, hscale, hdivided, hasked, hrounded, hasked'⟩

end Decimal

end Abacus
