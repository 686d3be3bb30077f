import Abacus.Decimal.Text

/-!
# Values

What an expression evaluates to: a decimal, a truth value, a text, or nothing.  Values of all kinds
can be compared with one another, taken as truth values, and, where their text allows it, taken as
numbers.
-/

namespace Abacus

/-- A value. -/
inductive Value where
  /-- The missing value. -/
  | void
  /-- A decimal. -/
  | number (value : Decimal)
  /-- A truth value. -/
  | bool (value : Bool)
  /-- A text. -/
  | text (value : String)
deriving DecidableEq

/-- What a variable may hold. -/
inductive ValueType where
  /-- Values of every type. -/
  | any
  /-- Only the missing value. -/
  | void
  /-- Decimals. -/
  | number
  /-- Truth values. -/
  | bool
  /-- Texts. -/
  | text
deriving DecidableEq

/-- The name of a type in messages. -/
def ValueType.name : ValueType → String
  | .any => "_"
  | .void => "void"
  | .number => "number"
  | .bool => "bool"
  | .text => "text"

namespace Value

instance : Inhabited Value := ⟨.void⟩

/-- The type of a value. -/
def type : Value → ValueType
  | .void => .void
  | .number _ => .number
  | .bool _ => .bool
  | .text _ => .text

/-- The text of a value. -/
def toText : Value → String
  | .void => ""
  | .number value => value.toText
  | .bool value => if value then "true" else "false"
  | .text value => value

instance : ToString Value := ⟨toText⟩

/-- The decimal that a value is. -/
def asNumber? : Value → Option Decimal
  | .number value => some value
  | _ => none

/-- The truth value that a value is. -/
def asBool? : Value → Option Bool
  | .bool value => some value
  | _ => none

/-- What a value is as a number: a decimal, missing, or neither. -/
inductive Numeral where
  /-- The value is a decimal or a text that reads as one. -/
  | number (value : Decimal)
  /-- The value is missing. -/
  | missing
  /-- The text of the value does not read as a decimal. -/
  | notANumber
deriving DecidableEq

/-- A text taken as a number. -/
def numeralOfText (text : String) : Numeral :=
  match Decimal.ofText? text with
  | .ok value => .number value
  | .error _ => .notANumber

/-- A value taken as a number, through its text unless it is one. -/
def toNumeral : Value → Numeral
  | .void => .missing
  | .number value => .number value
  | value => numeralOfText value.toText

/-- The order of two texts by their code points. -/
def compareTexts (x y : String) : Ordering := Ord.compare x y

/-- The order of values.  The missing value is the least.  Two truth values are ordered with false
first, two values that read as numbers by number, and all others by text. -/
def compare (lhs rhs : Value) : Ordering :=
  match lhs, rhs with
  | .void, .void => .eq
  | .void, _ => .lt
  | _, .void => .gt
  | .bool x, .bool y => Ord.compare x y
  | lhs, rhs =>
    match lhs.toNumeral, rhs.toNumeral with
    | .number x, .number y => x.compare y
    | _, _ => compareTexts lhs.toText rhs.toText

/-- The texts that stand for true. -/
def trueWords : List String := ["on", "yes", "1", "true"]

/-- The texts that stand for false. -/
def falseWords : List String := ["off", "no", "0", "false"]

/-- A value taken as a truth value: numbers are true if they are positive, and texts if they are one
of the words for true or read as a positive number. -/
def isTruthy : Value → Bool
  | .void => false
  | .bool value => value
  | .number value => value.isPositive
  | .text value =>
    if trueWords.contains value then true
    else if falseWords.contains value then false
    else
      match numeralOfText value with
      | .number value => value.isPositive
      | _ => false

end Value

end Abacus
