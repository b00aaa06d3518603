import Runsheet.Decimal.Layout
import Runsheet.Json.Value
import Runsheet.Text.Quoted

/-!
# Written data values

Three forms of a data value: the compact one, which is what a value looks like inside a message;
the indented one, which is written to files; and the descriptive one, which names the kind of each
part.
-/

namespace Runsheet

namespace Number

/-- The text of a number. -/
def text : Number → String
  | .int n => toString n
  | .float x => Decimal.Layout.data.render x

end Number

namespace Json

/-- A number with exactly four digits in base sixteen. -/
def fourHex (n : Nat) : List Char :=
  let digits := Text.hexDigits n
  List.replicate (4 - digits.length) '0' ++ digits

/-- How a character is written inside a string: quotes, backslashes and control characters are
escaped. -/
def escapedChar (c : Char) : List Char :=
  if c = '"' then ['\\', '"']
  else if c = '\\' then ['\\', '\\']
  else if c = '\n' then ['\\', 'n']
  else if c = '\r' then ['\\', 'r']
  else if c = '\t' then ['\\', 't']
  else if c.toNat = 8 then ['\\', 'b']
  else if c.toNat = 12 then ['\\', 'f']
  else if c.toNat < 32 then ['\\', 'u'] ++ fourHex c.toNat
  else [c]

/-- A string in quotes. -/
def stringText (s : String) : List Char :=
  '"' :: s.toList.flatMap escapedChar ++ ['"']

/-- The characters that bracket a list and an object. -/
def openList : Char := '['

def closeList : Char := ']'

def openObject : Char := '\x7b'

def closeObject : Char := '\x7d'

mutual

/-- The compact form: no spaces and no line breaks. -/
def text : Json → List Char
  | .null => "null".toList
  | .bool true => "true".toList
  | .bool false => "false".toList
  | .number n => n.text.toList
  | .string s => stringText s
  | .array items => openList :: itemsText items ++ [closeList]
  | .object fields => openObject :: fieldsText fields ++ [closeObject]

/-- The compact form of the items of a list. -/
def itemsText : List Json → List Char
  | [] => []
  | [item] => text item
  | item :: rest => text item ++ ',' :: itemsText rest

/-- The compact form of the fields of an object. -/
def fieldsText : List (String × Json) → List Char
  | [] => []
  | [(key, value)] => stringText key ++ ':' :: text value
  | (key, value) :: rest => stringText key ++ ':' :: text value ++ ',' :: fieldsText rest

end

/-- The compact form as a string. -/
def render (j : Json) : String :=
  String.ofList j.text

/-- A new line, indented by two spaces a level. -/
def newLine (depth : Nat) : List Char :=
  '\n' :: List.replicate (2 * depth) ' '

mutual

/-- The indented form: each item and each field on a line of its own. -/
def prettyText (depth : Nat) : Json → List Char
  | .array [] => [openList, closeList]
  | .array (item :: rest) =>
    openList :: prettyItems (depth + 1) (item :: rest) ++ newLine depth ++ [closeList]
  | .object [] => [openObject, closeObject]
  | .object (field :: rest) =>
    openObject :: prettyFields (depth + 1) (field :: rest) ++ newLine depth ++ [closeObject]
  | .null => "null".toList
  | .bool true => "true".toList
  | .bool false => "false".toList
  | .number n => n.text.toList
  | .string s => stringText s

/-- The indented items of a list. -/
def prettyItems (depth : Nat) : List Json → List Char
  | [] => []
  | [item] => newLine depth ++ prettyText depth item
  | item :: rest => newLine depth ++ prettyText depth item ++ ',' :: prettyItems depth rest

/-- The indented fields of an object. -/
def prettyFields (depth : Nat) : List (String × Json) → List Char
  | [] => []
  | [(key, value)] => newLine depth ++ stringText key ++ [':', ' '] ++ prettyText depth value
  | (key, value) :: rest =>
    newLine depth ++ stringText key ++ [':', ' '] ++ prettyText depth value ++
      ',' :: prettyFields depth rest

end

/-- The indented form as a string. -/
def pretty (j : Json) : String :=
  String.ofList (prettyText 0 j)

/-- The indented form of named values in the order in which they are given. -/
def prettyRecord (fields : List (String × Json)) : String :=
  String.ofList (openObject :: prettyFields 1 fields ++ newLine 0 ++ [closeObject])

mutual

/-- The descriptive form. -/
def describe : Json → String
  | .null => "Null"
  | .bool true => "Bool(true)"
  | .bool false => "Bool(false)"
  | .number n => "Number(" ++ n.text ++ ")"
  | .string s => "String(" ++ Text.quote s ++ ")"
  | .array items => "Array [" ++ describeItems items ++ "]"
  | .object fields => "Object \x7b" ++ describeFields fields ++ "\x7d"

/-- The descriptive form of the items of a list. -/
def describeItems : List Json → String
  | [] => ""
  | [item] => describe item
  | item :: rest => describe item ++ ", " ++ describeItems rest

/-- The descriptive form of named values. -/
def describeFields : List (String × Json) → String
  | [] => ""
  | [(key, value)] => Text.quote key ++ ": " ++ describe value
  | (key, value) :: rest =>
    Text.quote key ++ ": " ++ describe value ++ ", " ++ describeFields rest

end

/-- The descriptive form of a table of values. -/
def describeVars (vars : Vars) : String :=
  "\x7b" ++ describeFields vars ++ "\x7d"

end Json

end Runsheet
