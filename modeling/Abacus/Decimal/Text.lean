import Abacus.Decimal.Basic
import Abacus.Text.Blank

/-!
# Decimals as text

The written form of a decimal, `Decimal.toText`, shows every digit and never an exponent.  The
reader, `Decimal.ofText?`, accepts an optional sign, digits with at most one point among them, and
an optional exponent, with blanks around the whole.
-/

namespace Abacus

/-- Why a text is no decimal. -/
inductive LiteralError where
  /-- There are no digits. -/
  | empty
  /-- A character stands where only digits may stand. -/
  | invalidDigit
  /-- The exponent is malformed, or it or the scale is out of range. -/
  | exponent
deriving DecidableEq

/-- The text that reports an error of reading a decimal. -/
def LiteralError.message : LiteralError → String
  | .empty => "Cannot parse decimal from empty string"
  | .invalidDigit => "Invalid digit in decimal literal"
  | .exponent => "Invalid exponent in decimal literal"

/-- An optional sign and what follows it.  The flag says that the sign is a minus. -/
def splitSign : List Char → Bool × List Char
  | '-' :: rest => (true, rest)
  | '+' :: rest => (false, rest)
  | rest => (false, rest)

/-- The part before the first character that satisfies `stop`, and the part after it, if there is
such a character. -/
def splitFirst (stop : Char → Bool) : List Char → List Char × Option (List Char)
  | [] => ([], none)
  | c :: rest =>
    if stop c then ([], some rest)
    else
      let (before, after) := splitFirst stop rest
      (c :: before, after)

/-- The number that a run of decimal digits writes. -/
def digitValue (digits : List Char) : Nat := Nat.ofDigitChars 10 digits 0

@[simp] theorem digitValue_toDigits (n : Nat) : digitValue (Nat.toDigits 10 n) = n :=
  Nat.ofDigitChars_ten_toDigits

/-- The value with the sign that `negative` stands for. -/
def signed (negative : Bool) (n : Nat) : Int := if negative then -n else n

/-- Reads an exponent: an optional sign and one or more digits, in the signed 32-bit range. -/
def exponent? (text : List Char) : Option Int :=
  let (negative, digits) := splitSign text
  if digits.isEmpty || !digits.all Char.isDigit then none
  else
    let exponent := signed negative (digitValue digits)
    if -2147483648 ≤ exponent ∧ exponent ≤ 2147483647 then some exponent else none

namespace Decimal

/-- Splits a literal at the first `e` or `E` into mantissa and exponent.  Without one the exponent
is zero. -/
def splitExponent (text : List Char) : Except LiteralError (List Char × Int) :=
  match splitFirst (fun c => c == 'e' || c == 'E') text with
  | (mantissa, none) => .ok (mantissa, 0)
  | (mantissa, some suffix) =>
    match exponent? suffix with
    | some exponent => .ok (mantissa, exponent)
    | none => .error .exponent

/-- Reads a decimal that stands alone, without blanks around it.  A malformed exponent is reported
before anything else. -/
def ofChars? (text : List Char) : Except LiteralError Decimal := do
  let (mantissa, exponent) ← splitExponent text
  let (negative, digits) := splitSign mantissa
  let (whole, fraction) := splitFirst (· == '.') digits
  let fraction := fraction.getD []
  if whole.isEmpty && fraction.isEmpty then throw .empty
  if !whole.all Char.isDigit || !fraction.all Char.isDigit then throw .invalidDigit
  let scale := fraction.length - exponent
  if ScaleInRange scale then return ⟨signed negative (digitValue (whole ++ fraction)), scale⟩
  else throw .exponent

/-- Reads a decimal with blanks around it. -/
def ofText? (text : String) : Except LiteralError Decimal := ofChars? (trimBlanks text.toList)

/-- The characters of the written form.  A number with a fraction has at least one digit before the
point. -/
def toChars (x : Decimal) : List Char :=
  let sign := if x.isNegative then ['-'] else []
  let digits := Nat.toDigits 10 x.unscaled.natAbs
  if x.scale ≤ 0 then
    sign ++ digits ++ if x.isZero then [] else List.replicate (-x.scale).toNat '0'
  else
    let places := x.scale.toNat
    let padded := List.replicate (places + 1 - digits.length) '0' ++ digits
    let point := padded.length - places
    sign ++ padded.take point ++ '.' :: padded.drop point

/-- The written form: all digits, exactly `scale` of them after the point, and no exponent. -/
def toText (x : Decimal) : String := String.ofList x.toChars

instance : ToString Decimal := ⟨toText⟩

end Decimal

end Abacus
