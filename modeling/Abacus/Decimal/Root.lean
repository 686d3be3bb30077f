import Abacus.Decimal.Basic

/-!
# Square roots

The integer square root rounded down, found by refining a guess from above, and the square root of a
decimal truncated to a given number of digits.
-/

namespace Abacus

-- powers are those of the core library, with or without other instances in scope
attribute [local instance (2000)] instPowNat

/-- Refines a guess that is not below the square root of `n`.  The mean of a guess and `n` divided
by it is a better guess as long as it is a smaller one, so there are at most `guess` steps. -/
def refineRoot : (steps n guess : Nat) → Nat
  | 0, _, guess => guess
  | steps + 1, n, guess =>
    let next := (guess + n / guess) / 2
    if next < guess then refineRoot steps n next else guess

/-- The mean of two factors is not below the root of the product. -/
theorem four_mul_le_square_add (x y : Nat) : 4 * (x * y) ≤ (x + y) * (x + y) := by
  rcases Nat.le_total x y with h | h <;> obtain ⟨d, rfl⟩ := Nat.exists_eq_add_of_le h <;> grind

/-- A refined guess is not below the root either. -/
theorem lt_square_next_guess {n guess : Nat} (h : 0 < guess) :
    n < ((guess + n / guess) / 2 + 1) * ((guess + n / guess) / 2 + 1) := by
  have hn : n < guess * (n / guess + 1) := Nat.lt_mul_div_succ n h
  have hmean := four_mul_le_square_add guess (n / guess + 1)
  generalize n / guess = quotient at hn hmean ⊢
  have hle : guess + (quotient + 1) ≤ 2 * ((guess + quotient) / 2 + 1) := by omega
  have hsquare := Nat.mul_le_mul hle hle
  grind

/-- With enough steps the last guess is the root rounded down. -/
theorem refineRoot_bounds {steps n guess : Nat} (hsteps : guess ≤ steps)
    (h : n < (guess + 1) * (guess + 1)) :
    refineRoot steps n guess * refineRoot steps n guess ≤ n ∧
      n < (refineRoot steps n guess + 1) * (refineRoot steps n guess + 1) := by
  induction steps generalizing guess with
  | zero =>
    obtain rfl : guess = 0 := by omega
    simpa [refineRoot] using h
  | succ steps ih =>
    simp only [refineRoot]
    rcases Nat.eq_zero_or_pos guess with rfl | hpos
    · simpa using h
    · split
      · exact ih (by omega) (lt_square_next_guess hpos)
      · have hle : guess ≤ n / guess := by omega
        exact ⟨(Nat.le_div_iff_mul_le hpos).mp hle, h⟩

/-- A power of two above the square root of `n`. -/
def firstGuess (n : Nat) : Nat := 2 ^ (n.log2 / 2 + 1)

theorem lt_square_firstGuess (n : Nat) : n < firstGuess n * firstGuess n := by
  have h : n < 2 ^ (n.log2 + 1) := Nat.lt_log2_self
  have hle : n.log2 + 1 ≤ n.log2 / 2 + 1 + (n.log2 / 2 + 1) := by omega
  calc n < 2 ^ (n.log2 + 1) := h
    _ ≤ 2 ^ (n.log2 / 2 + 1 + (n.log2 / 2 + 1)) := Nat.pow_le_pow_right (by decide) hle
    _ = firstGuess n * firstGuess n := Nat.pow_add ..

/-- The square root of `n` rounded down. -/
def floorRoot (n : Nat) : Nat := refineRoot (firstGuess n) n (firstGuess n)

/-- The square of the root is the largest one that is not above the number. -/
theorem floorRoot_bounds (n : Nat) :
    floorRoot n * floorRoot n ≤ n ∧ n < (floorRoot n + 1) * (floorRoot n + 1) := by
  refine refineRoot_bounds (Nat.le_refl _) (Nat.lt_of_lt_of_le (lt_square_firstGuess n) ?_)
  exact Nat.mul_le_mul (Nat.le_succ _) (Nat.le_succ _)

namespace Decimal

/-- How many digits after the point approximate operations give unless told otherwise. -/
def defaultPrecision : Nat := 16

/-- The scale at which a square root is taken. -/
def rootScale (x : Decimal) (precision : Nat) : Int := max x.scale 0 + precision

/-- The square root truncated to at least `precision` digits after the point, without trailing
zeros.  There is none for a negative number, or where its scale would be out of range. -/
def sqrtWithPrecision (x : Decimal) (precision : Nat) : Option Decimal :=
  if x.unscaled < 0 then none
  else
    let scale := x.rootScale precision
    if ScaleInRange scale then
      let radicand := x.unscaled.natAbs * 10 ^ (2 * scale - x.scale).toNat
      some ((⟨floorRoot radicand, scale⟩ : Decimal).stripZeros 0)
    else none

/-- The square root truncated to the default precision. -/
def sqrt (x : Decimal) : Option Decimal := x.sqrtWithPrecision defaultPrecision

end Decimal

end Abacus
