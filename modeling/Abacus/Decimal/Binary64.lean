import Abacus.Decimal.Rounding

/-!
# Decimals and binary floating point

Both directions between decimals and the 64-bit binary floating-point numbers, in exact integer
arithmetic on the bit patterns.

* `Decimal.toBits` gives the binary number nearest to a decimal; of two equally near ones it takes
  the even one.  It goes through the scientific form, in which no exponent of more than six digits
  is read to its end.
* `Decimal.ofBits?` gives the shortest decimal that reads back as a binary number, and the nearest
  of the shortest.  A multiple of a larger power of ten has fewer digits, so `Magnitude.shortest`
  goes through the powers of ten from above and stops at the first with a multiple among the
  numbers that read back.
-/

namespace Abacus

-- powers are those of the core library, with or without other instances in scope
attribute [local instance (2000)] instPowNat

namespace Binary64

/-- The bit pattern of positive infinity.  The patterns of the finite non-negative numbers are the
integers below it, in the order of the numbers. -/
def infinityBits : Nat := 2047 * 2 ^ (52 : Nat)

/-- The bit that marks a negative number. -/
def signBit : Nat := 2 ^ (63 : Nat)

/-- The power of two of the last binary digit of the number nearest to a positive ratio, if the
range of exponents does not end before that. -/
def lastDigit (numerator denominator : Nat) : Int :=
  let low : Int := numerator.log2 - denominator.log2 - 53
  let top := low + 53
  if denominator * 2 ^ top.toNat ≤ numerator * 2 ^ (-top).toNat then low + 1 else low

/-- The bit pattern of the number nearest to a positive ratio, infinity where that is past the
largest finite number.  A significand that rounds up to the next power of two carries into the
exponent field by itself. -/
def nearestBits (numerator denominator : Nat) : Nat :=
  let exponent := max (lastDigit numerator denominator) (-1074)
  let significand := roundQuotient .halfEven
    (numerator * 2 ^ (-exponent).toNat) (denominator * 2 ^ exponent.toNat)
  min ((exponent + 1074).toNat * 2 ^ (52 : Nat) + significand.toNat) infinityBits

/-- What is read of an exponent in scientific form: the shortest leading part of its digits that
reaches `65536`, and all of it if none does.  The digits after such a part are passed over. -/
def readExponent (n : Nat) : Nat := if n / 10 < 65536 then n else readExponent (n / 10)
termination_by n
decreasing_by omega

theorem readExponent_of_lt {n : Nat} (h : n < 655360) : readExponent n = n := by
  unfold readExponent
  exact if_pos (by omega)

/-- A finite non-negative number, `significand * 2 ^ exponent`, with what decides which ratios round
to it. -/
structure Magnitude where
  /-- The binary digits, at most 53 of them. -/
  significand : Nat
  /-- The power of two of the last digit. -/
  exponent : Int
  /-- The next smaller number is only half as far away as the next larger one. -/
  narrowBelow : Bool

/-- The absolute value that a bit pattern stands for; `none` for infinities and non-numbers. -/
def Magnitude.ofBits? (bits : Nat) : Option Magnitude :=
  let field : Nat := bits / 2 ^ (52 : Nat) % 2048
  let fraction : Nat := bits % 2 ^ (52 : Nat)
  if field = 2047 then none
  else if field = 0 then some ⟨fraction, -1074, false⟩
  else some ⟨2 ^ (52 : Nat) + fraction, (field : Int) - 1075, fraction == 0 && decide (1 < field)⟩

namespace Magnitude

/-- The ratio of one unit of the last binary digit to `10 ^ power`, as numerator and
denominator. -/
def unit (x : Magnitude) (power : Int) : Nat × Nat :=
  (2 ^ x.exponent.toNat * 10 ^ (-power).toNat, 2 ^ (-x.exponent).toNat * 10 ^ power.toNat)

/-- Whether `count * 10 ^ power` rounds to `x`.  The numbers that do lie between the midpoints to
the two neighbours of `x`; the midpoints themselves belong to it if its significand is even. -/
def readsBack (x : Magnitude) (power : Int) (count : Nat) : Bool :=
  let (unit, denominator) := x.unit power
  let asked := 4 * count * denominator
  let least := (4 * x.significand - if x.narrowBelow then 1 else 2) * unit
  let greatest := (4 * x.significand + 2) * unit
  if x.significand % 2 = 0 then least ≤ asked && asked ≤ greatest
  else least < asked && asked < greatest

/-- The multiple of `10 ^ power` nearest to `x` among those that read back as `x`.  Only the two
around `x` have to be asked; of two equally near ones the larger is taken. -/
def multiple? (x : Magnitude) (power : Int) : Option Nat :=
  let (unit, denominator) := x.unit power
  let below := x.significand * unit / denominator
  match x.readsBack power below, x.readsBack power (below + 1) with
  | true, true =>
    some (if denominator ≤ 2 * (x.significand * unit % denominator) then below + 1 else below)
  | true, false => some below
  | false, true => some (below + 1)
  | false, false => none

/-- The first hit of `multiple?` from `power` downwards, within `steps` powers. -/
def shortestFrom (x : Magnitude) : Nat → Int → Nat × Int
  | 0, power => (0, power)
  | steps + 1, power =>
    match x.multiple? power with
    | some count => (count, power)
    | none => x.shortestFrom steps (power - 1)

/-- The shortest decimal that reads back as `x`, as a count of a power of ten.  Every finite number
lies below `10 ^ 309`, and seventeen digits always suffice, so 700 powers are enough. -/
def shortest (x : Magnitude) : Nat × Int := x.shortestFrom 700 309

end Magnitude

end Binary64

namespace Decimal

open Binary64

/-- The decimal that is converted to binary: the one that reading `x` in scientific form gives, the
coefficient followed by the exponent. -/
def asRead (x : Decimal) : Decimal := ⟨x.unscaled, x.scale.sign * readExponent x.scale.natAbs⟩

/-- Only scales of six digits and more can be read differently from what they are. -/
theorem asRead_of_natAbs_lt {x : Decimal} (h : x.scale.natAbs < 655360) : x.asRead = x := by
  simp only [asRead, readExponent_of_lt h, Int.sign_mul_natAbs]

/-- The bit pattern of the binary number that a decimal is converted to: the nearest one to the
decimal as it is read. -/
def toBits (x : Decimal) : UInt64 :=
  let x := x.asRead
  if x.unscaled = 0 then 0
  else
    let magnitude := nearestBits (x.unscaled.natAbs * 10 ^ (-x.scale).toNat) (10 ^ x.scale.toNat)
    UInt64.ofNat (magnitude + if x.isNegative then signBit else 0)

/-- The binary number that a decimal is converted to. -/
def toFloat (x : Decimal) : Float := Float.ofBits x.toBits

/-- The shortest decimal that reads back as the number with the given bit pattern; `none` for
infinities and non-numbers.  Its scale is not negative. -/
def ofBits? (bits : UInt64) : Option Decimal := do
  let magnitude ← Magnitude.ofBits? bits.toNat
  if magnitude.significand = 0 then return zero
  let (count, power) := magnitude.shortest
  let digits : Decimal := ⟨if bits.toNat < signBit then count else -count, -power⟩
  return if digits.scale ≤ 0 then ⟨digits.unscaledAt 0, 0⟩ else digits.stripZeros 0

/-- The shortest decimal that reads back as a binary number. -/
def ofFloat? (value : Float) : Option Decimal := ofBits? value.toBits

/-- A binary number as a decimal of at most `precision` digits after the point. -/
def approximate? (value : Float) (precision : Nat) : Option Decimal := do
  let x ← ofFloat? value
  return if x.scale ≤ precision then x else (x.rescale precision .halfEven).stripZeros 0

end Decimal

end Abacus
