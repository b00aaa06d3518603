import Runsheet.Expression.Value

/-!
# Values as text and as data

The text that a value is shown as, and the data value that it is turned into.  A string is shown
bare by itself and in quotes inside a sequence or a map.  As data, a sequence without a known length
is the list of its items, and a function the text that stands for it.
-/

namespace Runsheet.Expression.Value

mutual

/-- The text of a value inside a list or a map. -/
def nestedText : Value → String
  | .undefined _ => "undefined"
  | .none => "None"
  | .bool b => if b then "True" else "False"
  | .int n => toString n
  | .float x => Decimal.Layout.plain.render x
  | .string s => Text.quote s
  | .list items => "[" ++ itemsText items ++ "]"
  | .map entries => "\x7b" ++ entriesText entries ++ "\x7d"
  | .iterable Option.none items => "[" ++ itemsText items ++ "]"
  | .iterable (some label) _ | .callable _ label => label.1

/-- The texts of the items of a list, with commas between them. -/
def itemsText : List Value → String
  | [] => ""
  | [item] => nestedText item
  | item :: rest => nestedText item ++ ", " ++ itemsText rest

/-- The texts of the entries of a map, with commas between them. -/
def entriesText : List (Value × Value) → String
  | [] => ""
  | [(key, value)] => nestedText key ++ ": " ++ nestedText value
  | (key, value) :: rest =>
    nestedText key ++ ": " ++ nestedText value ++ ", " ++ entriesText rest

end

/-- The text that a value is shown as. -/
def display : Value → String
  | .undefined _ => ""
  | .string s => s
  | v => v.nestedText

mutual

/-- The data value of a value; what is undefined becomes null. -/
def toJson : Value → Except Json.Problem Json
  | .undefined _ | .none => .ok .null
  | .bool b => .ok (.bool b)
  | .int n => if Json.holdsInt n then .ok (.ofInt n) else .error .numberOutOfRange
  | .float x => .ok (.ofBinary64 x)
  | .string s => .ok (.string s)
  | .list items | .iterable _ items => do
    let items ← toJsonItems items
    pure (.array items)
  | .map entries => do
    let fields ← toJsonFields entries
    pure (.object (Table.ofList fields))
  | .callable _ label => .ok (.string label.1)

/-- The data values of the items of a list. -/
def toJsonItems : List Value → Except Json.Problem (List Json)
  | [] => .ok []
  | item :: rest => do
    let first ← toJson item
    let others ← toJsonItems rest
    pure (first :: others)

/-- The fields of the entries of a map. -/
def toJsonFields : List (Value × Value) → Except Json.Problem (List (String × Json))
  | [] => .ok []
  | (key, value) :: rest => do
    let name ← key.keyText
    let first ← toJson value
    let others ← toJsonFields rest
    pure ((name, first) :: others)

end

end Runsheet.Expression.Value
