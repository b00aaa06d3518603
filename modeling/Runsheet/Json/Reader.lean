import Runsheet.Decimal.Reader
import Runsheet.Json.Value

/-!
# Reading data values

Reads the written form of a data value, compact or indented.  A number with a point or an exponent
is a floating-point number and any other is an integer.
-/

namespace Runsheet.Json

namespace Reader

/-- Skips the spaces and line breaks between the parts of a value. -/
def skipSpace (cs : List Char) : List Char :=
  cs.dropWhile fun c => c = ' ' || c = '\n' || c = '\r' || c = '\t'

/-- The number written by four digits in base sixteen. -/
def fourHex? (a b c d : Char) : Option Nat :=
  Decimal.natural? 16 [a, b, c, d]

/-- The character of an escape with one letter. -/
def escape? (c : Char) : Option Char :=
  if c = 'n' then some '\n'
  else if c = 't' then some '\t'
  else if c = 'r' then some '\r'
  else if c = 'b' then some (Char.ofNat 8)
  else if c = 'f' then some (Char.ofNat 12)
  else if c = '"' || c = '\\' || c = '/' then some c
  else none

/-- The character of a pair of surrogate numbers. -/
def pairChar (high low : Nat) : Char :=
  Char.ofNat (0x10000 + (high - 0xD800) * 1024 + (low - 0xDC00))

/-- Reads a string after its opening quote; `acc` is its reversed beginning. -/
def string? : List Char → List Char → Option (List Char × List Char)
  | '"' :: rest, acc => some (acc.reverse, rest)
  | '\\' :: 'u' :: a :: b :: c :: d :: '\\' :: 'u' :: e :: f :: g :: h :: rest, acc => do
    let first ← fourHex? a b c d
    if 0xD800 ≤ first && first < 0xDC00 then
      let second ← fourHex? e f g h
      string? rest (pairChar first second :: acc)
    else string? ('\\' :: 'u' :: e :: f :: g :: h :: rest) (Char.ofNat first :: acc)
  | '\\' :: 'u' :: a :: b :: c :: d :: rest, acc => do
    string? rest (Char.ofNat (← fourHex? a b c d) :: acc)
  | '\\' :: c :: rest, acc => do string? rest ((← escape? c) :: acc)
  | c :: rest, acc => string? rest (c :: acc)
  | [], _ => none

/-- The characters of numbers. -/
def isNumberChar (c : Char) : Bool :=
  c.isDigit || c = '-' || c = '+' || c = '.' || c = 'e' || c = 'E'

/-- Reads a number. -/
def number? (cs : List Char) : Option (Json × List Char) :=
  let digits := cs.takeWhile isNumberChar
  let rest := cs.dropWhile isNumberChar
  if digits.any fun c => c = '.' || c = 'e' || c = 'E' then
    (Decimal.float? digits).map fun x => (.number (.float x), rest)
  else (Decimal.integer? 10 digits).map fun n => (.ofInt n, rest)

mutual

/-- Reads a value; `fuel` bounds the number of parts. -/
def value? (fuel : Nat) (cs : List Char) : Option (Json × List Char) :=
  match fuel with
  | 0 => none
  | fuel + 1 =>
    match skipSpace cs with
    | 'n' :: 'u' :: 'l' :: 'l' :: rest => some (.null, rest)
    | 't' :: 'r' :: 'u' :: 'e' :: rest => some (.bool true, rest)
    | 'f' :: 'a' :: 'l' :: 's' :: 'e' :: rest => some (.bool false, rest)
    | '"' :: rest => (string? rest []).map fun r => (.string (String.ofList r.1), r.2)
    | '[' :: rest =>
      match skipSpace rest with
      | ']' :: rest => some (.array [], rest)
      | rest => (items? fuel rest []).map fun r => (.array r.1, r.2)
    | '\x7b' :: rest =>
      match skipSpace rest with
      | '\x7d' :: rest => some (.object [], rest)
      | rest => (fields? fuel rest []).map fun r => (.object (Table.ofList r.1), r.2)
    | rest => number? rest

/-- Reads the items of a list up to its closing bracket. -/
def items? (fuel : Nat) (cs : List Char) (acc : List Json) : Option (List Json × List Char) :=
  match fuel with
  | 0 => none
  | fuel + 1 => do
    let (item, rest) ← value? fuel cs
    match skipSpace rest with
    | ',' :: rest => items? fuel rest (item :: acc)
    | ']' :: rest => some ((item :: acc).reverse, rest)
    | _ => none

/-- Reads the fields of an object up to its closing brace. -/
def fields? (fuel : Nat) (cs : List Char) (acc : List (String × Json)) :
    Option (List (String × Json) × List Char) :=
  match fuel with
  | 0 => none
  | fuel + 1 =>
    match skipSpace cs with
    | '"' :: rest => do
      let (key, rest) ← string? rest []
      match skipSpace rest with
      | ':' :: rest =>
        let (value, rest) ← value? fuel rest
        let field := (String.ofList key, value)
        match skipSpace rest with
        | ',' :: rest => fields? fuel rest (field :: acc)
        | '\x7d' :: rest => some ((field :: acc).reverse, rest)
        | _ => none
      | _ => none
    | _ => none

end

end Reader

/-- Reads the written form of a data value. -/
def read? (s : String) : Option Json :=
  let cs := s.toList
  match Reader.value? (2 * cs.length + 1) cs with
  | some (value, rest) => if (Reader.skipSpace rest).isEmpty then some value else none
  | none => none

end Runsheet.Json
