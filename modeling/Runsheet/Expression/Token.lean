import Runsheet.Decimal.Reader
import Runsheet.Expression.Problem
import Runsheet.Text.Blank

/-!
# Tokens

The tokens of expressions and how they are read off a text.  A token list may end in a broken
token, which stands for the place where no further token can be read; whoever comes to it stops
with its problem, so what stands before it is read first.

-/

namespace Runsheet.Expression

/-- Operators, brackets and separators. -/
inductive Mark
  | plus | minus | times | divide | floorDivide | modulo | power | join
  | equal | notEqual | less | lessEqual | greater | greaterEqual
  | assign | pipe | dot | comma | colon
  | openParen | closeParen | openBracket | closeBracket | openBrace | closeBrace
  deriving DecidableEq, Repr

/-- A token of an expression, or one of the marks that divide a template into text, expressions
and statements. -/
inductive Token
  | name (s : String)
  | string (s : String)
  | integer (n : Nat)
  | decimal (x : Binary64)
  | mark (m : Mark)
  | text (s : String)
  | openValue
  | closeValue
  | openStatement
  | closeStatement
  | broken (problem : Problem)
  deriving DecidableEq, Repr

/-- Can a name begin with the character? -/
def isNameStart (c : Char) : Bool :=
  c.isAlpha || c = '_'

/-- Can a name go on with the character? -/
def isNameChar (c : Char) : Bool :=
  c.isAlphanum || c = '_'

/-- The marks of two characters. -/
def doubleMark? : Char → Char → Option Mark
  | '/', '/' => some .floorDivide
  | '*', '*' => some .power
  | '=', '=' => some .equal
  | '!', '=' => some .notEqual
  | '>', '=' => some .greaterEqual
  | '<', '=' => some .lessEqual
  | _, _ => none

/-- The marks of one character. -/
def singleMark? : Char → Option Mark
  | '+' => some .plus
  | '-' => some .minus
  | '*' => some .times
  | '/' => some .divide
  | '%' => some .modulo
  | '.' => some .dot
  | ',' => some .comma
  | ':' => some .colon
  | '~' => some .join
  | '=' => some .assign
  | '|' => some .pipe
  | '>' => some .greater
  | '<' => some .less
  | '(' => some .openParen
  | ')' => some .closeParen
  | '[' => some .openBracket
  | ']' => some .closeBracket
  | '\x7b' => some .openBrace
  | '\x7d' => some .closeBrace
  | _ => none

/-- By how much a token changes the number of open brackets. -/
def Token.nesting : Token → Int
  | .mark .openParen | .mark .openBracket | .mark .openBrace => 1
  | .mark .closeParen | .mark .closeBracket | .mark .closeBrace => -1
  | _ => 0

/-- The part of a string literal before its closing quote, and what comes after that quote. -/
def untilQuote (quote : Char) : List Char → Option (List Char × List Char)
  | [] => none
  | '\\' :: c :: rest => (untilQuote quote rest).map fun r => ('\\' :: c :: r.1, r.2)
  | c :: rest =>
    if c = quote then some ([], rest)
    else if c = '\\' then none
    else (untilQuote quote rest).map fun r => (c :: r.1, r.2)

/-- The number of a Unicode escape, whose digits may follow a plus sign. -/
def escapeNumber? : List Char → Option Nat
  | '+' :: cs => Decimal.natural? 16 cs
  | cs => Decimal.natural? 16 cs

/-- The character that an escape of one letter stands for. -/
def escapeLetter? (c : Char) : Option Char :=
  if c = '"' || c = '\\' || c = '/' || c = '\'' then some c
  else if c = 'b' then some (Char.ofNat 8)
  else if c = 'f' then some (Char.ofNat 12)
  else if c = 'n' then some '\n'
  else if c = 'r' then some '\r'
  else if c = 't' then some '\t'
  else none

/-- Replaces the escapes of a string literal; `high` is the first half of a pair that still waits
for its second half. -/
def unescape (high : Option Nat) : List Char → Option (List Char)
  | [] => if high.isSome then none else some []
  | '\\' :: 'u' :: a :: b :: c :: d :: rest => do
    let n ← escapeNumber? [a, b, c, d]
    match high with
    | none =>
      if 0xD800 ≤ n && n < 0xE000 then unescape (some n) rest
      else (Char.ofNat n :: ·) <$> unescape none rest
    | some h =>
      if h < 0xDC00 && 0xDC00 ≤ n && n < 0xE000 then
        (Char.ofNat (0x10000 + (h - 0xD800) * 1024 + (n - 0xDC00)) :: ·) <$> unescape none rest
      else none
  | '\\' :: c :: rest =>
    if high.isSome then none
    else do
      let letter ← escapeLetter? c
      (letter :: ·) <$> unescape none rest
  | c :: rest => if high.isSome || c = '\\' then none else (c :: ·) <$> unescape none rest

/-- The part of a number that is being read. -/
inductive NumberPart
  | whole
  | fraction
  | exponent
  | exponentDigits
  | based (base : Nat)

/-- The part that a character leads to; none if the number ends before it. -/
def NumberPart.next? : NumberPart → Char → Option NumberPart
  | .whole, '.' => some .fraction
  | .whole, 'e' | .whole, 'E' | .fraction, 'e' | .fraction, 'E' => some .exponent
  | .exponent, '+' | .exponent, '-' => some .exponentDigits
  | part, c =>
    if c.isDigit then
      match part with
      | .exponent => some .exponentDigits
      | _ => some part
    else if c = '_' then some part
    else
      match part with
      | .based 16 => if (Decimal.digitValue? c).any (· < 16) then some part else none
      | _ => none

/-- The characters of a number, the part it ends in, and the rest. -/
def numberChars (part : NumberPart) : List Char → List Char × NumberPart × List Char
  | [] => ([], part, [])
  | c :: rest =>
    match part.next? c with
    | some part =>
      let r := numberChars part rest
      (c :: r.1, r.2)
    | none => ([], part, c :: rest)

/-- The base that a number begins with. -/
def numberBase (cs : List Char) : NumberPart × List Char :=
  match cs with
  | '0' :: c :: rest =>
    if c = 'x' || c = 'X' then (.based 16, rest)
    else if c = 'o' || c = 'O' then (.based 8, rest)
    else if c = 'b' || c = 'B' then (.based 2, rest)
    else (.whole, cs)
  | _ => (.whole, cs)

/-- The token of an integer, which must be below the hundred-and-twenty-eighth power of two. -/
def integerToken (n : Option Nat) : Token :=
  match n with
  | some n => if n < Nat.pow 2 128 then .integer n else .broken .malformed
  | none => .broken .malformed

/-- Reads a number.  Low lines between the digits do not count, and there may be none at the
end. -/
def readNumber (cs : List Char) : Token × List Char :=
  let start := numberBase cs
  let found := numberChars start.1 start.2
  let digits := found.1.filter (· ≠ '_')
  let token :=
    if found.1.getLast? = some '_' then .broken .malformed
    else
      match found.2.1 with
      | .based base => integerToken (Decimal.natural? base digits)
      | .whole => integerToken (Decimal.natural? 10 digits)
      | _ =>
        match Decimal.float? digits with
        | some x => .decimal x
        | none => .broken .malformed
  (token, found.2.2)

/-- Reads a string literal after its opening quote. -/
def readString (quote : Char) (cs : List Char) : Token × List Char :=
  match untilQuote quote cs with
  | none => (.broken .malformed, [])
  | some (inner, rest) =>
    match unescape none inner with
    | some s => (.string (String.ofList s), rest)
    | none => (.broken .badEscape, [])

/-- Reads one token; the text must not begin with white space.  After a broken token nothing is
left to read. -/
def readToken? (cs : List Char) : Option (Token × List Char) :=
  match cs with
  | [] => none
  | c :: rest =>
    match doubleMark? c (rest.headD ' ') with
    | some m => some (.mark m, rest.drop 1)
    | none =>
      match singleMark? c with
      | some m => some (.mark m, rest)
      | none =>
        if c = '\'' || c = '"' then some (readString c rest)
        else if c.isDigit then some (readNumber (c :: rest))
        else if isNameStart c then
          some (.name (String.ofList (c :: rest.takeWhile isNameChar)), rest.dropWhile isNameChar)
        else some (.broken .malformed, [])

/-- How the part of a text that holds an expression ends. -/
inductive Region
  | value
  | statement
  deriving DecidableEq

/-- The characters that end a region. -/
def Region.ending : Region → List Char
  | .value => ['\x7d', '\x7d']
  | .statement => ['%', '\x7d']

/-- The token that ends a region. -/
def Region.closing : Region → Token
  | .value => .closeValue
  | .statement => .closeStatement

/-- The rest after the ending of a region, and whether a hyphen asks to trim the text after it. -/
def Region.ends? (r : Region) (cs : List Char) : Option (List Char × Bool) :=
  match cs with
  | '-' :: rest =>
    if r.ending.isPrefixOf rest then some (rest.drop 2, true) else none
  | '+' :: rest =>
    if r.ending.isPrefixOf rest then some (rest.drop 2, false) else none
  | _ => if r.ending.isPrefixOf cs then some (cs.drop 2, false) else none

/-- The tokens of a region, and what stands after its ending: the rest of the text and whether its
beginning is to be trimmed.  The ending counts only outside brackets; `fuel` bounds the number of
tokens. -/
def regionTokens (r : Region) (fuel : Nat) (depth : Int) (cs : List Char) :
    List Token × Option (List Char × Bool) :=
  match fuel with
  | 0 => ([], none)
  | fuel + 1 =>
    let cs := cs.dropWhile Text.isBlank
    match if depth = 0 then r.ends? cs else none with
    | some after => ([r.closing], some after)
    | none =>
      match readToken? cs with
      | none => ([], none)
      | some (.broken problem, _) => ([.broken problem], none)
      | some (token, rest) =>
        let more := regionTokens r fuel (depth + token.nesting) rest
        (token :: more.1, more.2)

/-- The tokens of a text that is one expression. -/
def tokens (cs : List Char) : List Token :=
  (regionTokens .value (cs.length + 1) 0 cs).1

end Runsheet.Expression
