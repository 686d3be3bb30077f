import Abacus.Scope
import Abacus.Text.Quoted

/-!
# Inspection

Texts that show what a value of a library type holds, for diagnosis: the name of the type and its
fields between braces, with all texts quoted.
-/

namespace Abacus

/-- Items between brackets. -/
def inspectList (items : List String) : String := "[" ++ ", ".intercalate items ++ "]"

/-- A record: the name of its type, and its fields with their names. -/
def inspectRecord (type : String) (fields : List (String × String)) : String :=
  type ++ " \x7b " ++ ", ".intercalate (fields.map fun (name, shown) => name ++ ": " ++ shown)
    ++ " \x7d"

/-- A constructor applied to one thing. -/
def inspectApplied (constructor inner : String) : String := constructor ++ "(" ++ inner ++ ")"

/-- A truth value. -/
def inspectBool (value : Bool) : String := if value then "true" else "false"

/-- A decimal, by its written form. -/
def Decimal.inspect (x : Decimal) : String := inspectApplied "Decimal" (quoted x.toText)

/-- A value, with its type. -/
def Value.inspect : Value → String
  | .void => "Void"
  | .number value => inspectApplied "Number" value.inspect
  | .bool value => inspectApplied "Bool" (inspectBool value)
  | .text value => inspectApplied "Text" (quoted value)

/-- A type of values. -/
def ValueType.inspect : ValueType → String
  | .any => "Any"
  | .void => "Void"
  | .number => "Number"
  | .bool => "Bool"
  | .text => "Text"

/-- A variable with all that it holds. -/
def Variable.inspect (v : Variable) : String :=
  inspectRecord "Variable"
    [("name", quoted v.name),
      ("value", match v.value with
        | some value => inspectApplied "Some" value.inspect
        | none => "None"),
      ("ty", v.type.inspect), ("constant", inspectBool v.isConstant)]

/-- An arithmetical operator without its computation. -/
def Arithmetical.inspect (op : Arithmetical) : String :=
  inspectRecord "Arithmetical"
    [("symbol", quoted op.symbol), ("precedence", toString op.precedence),
      ("unary", inspectBool op.isUnary), ("neutral", op.neutral.inspect)]

/-- A trigonometric function without its computation. -/
def Trigonometric.inspect (f : Trigonometric) : String :=
  inspectRecord "Trigonometric" [("name", quoted f.name), ("precision", toString f.precision)]

/-- The names in a table. -/
def Table.inspectNames {α : Type} (table : Table α) : String :=
  inspectList (table.keys.map quoted)

/-- A registry: what it knows, without how that computes. -/
def Registry.inspect (registry : Registry) : String :=
  inspectRecord "Registry"
    [("operators", registry.operators.inspectNames),
      ("functions", registry.callables.inspectNames)]

/-- A scope: its registry, its variables, and the names of its functions. -/
def Scope.inspect (scope : Scope) : String :=
  let shown := scope.vars.toList.map fun (name, v) => quoted name ++ ": " ++ v.inspect
  inspectRecord "Scope"
    [("registry", scope.registry.inspect),
      ("variables", "\x7b" ++ ", ".intercalate shown ++ "\x7d"),
      ("functions", scope.callables.inspectNames)]

/-- The place that a lexer has reached, with the text that is left. -/
def Cursor.inspect (cursor : Cursor) : String :=
  inspectRecord "LocatedSpanEx"
    [("offset", toString cursor.offset), ("line", toString cursor.line),
      ("fragment", quoted (String.ofList cursor.rest)), ("extra", "()")]

/-- The state of a parser that has read nothing yet. -/
def Parser.State.inspectStart (source : List Char) : String :=
  let state := State.start source
  inspectRecord "Parser"
    [("input", state.lexer.cursor.inspect), ("tokens", inspectList []),
      ("position", toString state.position), ("memo_len", toString state.memo.size)]

end Abacus
