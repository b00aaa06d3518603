import Runsheet.Expression.Token

/-!
# Tokens of templates

A template is cut into text and regions.  A region begins with two braces for an expression whose
value is shown, a brace and a percent sign for a statement, or a brace and a number sign for a
comment.  A hyphen beside a mark trims the white space at that side, and a plus sign changes
nothing.
-/

namespace Runsheet.Template

open Runsheet.Expression

/-- What a region holds. -/
inductive Opening
  | value
  | statement
  | comment
  deriving DecidableEq

/-- The opening that a character after a brace makes. -/
def opening? : Char → Option Opening
  | '\x7b' => some .value
  | '%' => some .statement
  | '#' => some .comment
  | _ => none

/-- How the white space beside a mark is treated, and the rest of the text. -/
def trimMark : List Char → Bool × List Char
  | '-' :: rest => (true, rest)
  | '+' :: rest => (false, rest)
  | rest => (false, rest)

/-- A region that was found: the text before it, what it holds, and the text after its opening. -/
structure Found where
  before : List Char
  opening : Opening
  after : List Char

/-- The first region of a text. -/
def firstRegion? : List Char → Option Found
  | '\x7b' :: c :: rest =>
    match opening? c with
    | some opening => some ⟨[], opening, rest⟩
    | none => (firstRegion? (c :: rest)).map fun f => { f with before := '\x7b' :: f.before }
  | c :: rest => (firstRegion? rest).map fun f => { f with before := c :: f.before }
  | [] => none

/-- A token of text; nothing is left out. -/
def textToken (cs : List Char) : List Token :=
  if cs.isEmpty then [] else [.text (String.ofList cs)]

/-- The beginning of a text is trimmed or left as it is. -/
def trimStart (trim : Bool) (cs : List Char) : List Char :=
  if trim then cs.dropWhile Text.isBlank else cs

/-- The end of a text is trimmed or left as it is. -/
def trimEnd (trim : Bool) (cs : List Char) : List Char :=
  if trim then Text.dropRightWhile Text.isBlank cs else cs

/-- The text after the end of a comment, and whether its beginning is trimmed; `last` is the
character before. -/
def commentEnd? (last : Option Char) : List Char → Option (Bool × List Char)
  | '#' :: '\x7d' :: rest => some (last = some '-', rest)
  | c :: rest => commentEnd? (some c) rest
  | [] => none

/-- The white space of ASCII without the vertical tab. -/
def isSpace (c : Char) : Bool :=
  c = ' ' || c = '\t' || c = '\n' || c = '\r' || c.toNat = 12

/-- The rest after a statement that is one word only, and how the white space after it is
treated. -/
def wordStatement? (word : String) (cs : List Char) : Option (Bool × List Char) :=
  let cs := cs.dropWhile isSpace
  if word.toList.isPrefixOf cs then
    let (trim, rest) := trimMark ((cs.drop word.length).dropWhile isSpace)
    if Region.statement.ending.isPrefixOf rest then some (trim, rest.drop 2) else none
  else none

/-- What was found at the end of a raw text: the text, whether its end is trimmed, whether the text
after it is trimmed, and that text. -/
structure RawEnd where
  raw : List Char
  trimRaw : Bool
  trimAfter : Bool
  after : List Char

/-- The end of a raw text. -/
def rawEnd? : List Char → Option RawEnd
  | '\x7b' :: '%' :: rest =>
    let (trimRaw, inner) := trimMark rest
    match wordStatement? "endraw" inner with
    | some (trimAfter, after) => some ⟨[], trimRaw, trimAfter, after⟩
    | none => (rawEnd? ('%' :: rest)).map fun r => { r with raw := '\x7b' :: r.raw }
  | c :: rest => (rawEnd? rest).map fun r => { r with raw := c :: r.raw }
  | [] => none

/-- The token that opens a region. -/
def openToken : Region → Token
  | .value => .openValue
  | .statement => .openStatement

/-- The tokens of a template; `fuel` bounds the number of regions. -/
def tokensFrom (fuel : Nat) (cs : List Char) : List Token :=
  match fuel with
  | 0 => []
  | fuel + 1 =>
    match firstRegion? cs with
    | none => textToken cs
    | some found =>
      let (trim, after) := trimMark found.after
      let region (r : Region) : List Token :=
        let (inner, rest) := regionTokens r (after.length + 1) 0 after
        openToken r :: inner ++
          match rest with
          | some (rest, trim) => tokensFrom fuel (trimStart trim rest)
          | none => []
      textToken (trimEnd trim found.before) ++
        match found.opening with
        | .value => region .value
        | .comment =>
          match commentEnd? none after with
          | some (trim, rest) => tokensFrom fuel (trimStart trim rest)
          | none => [.broken .malformed]
        | .statement =>
          match wordStatement? "raw" after with
          | some (trimRaw, rest) =>
            match rawEnd? rest with
            | some r =>
              textToken (trimEnd r.trimRaw (trimStart trimRaw r.raw)) ++
                tokensFrom fuel (trimStart r.trimAfter r.after)
            | none => [.broken .malformed]
          | none => region .statement

/-- A text without one line break at its very end. -/
def withoutLastBreak (cs : List Char) : List Char :=
  let dropLast (c : Char) (cs : List Char) := if cs.getLast? = some c then cs.dropLast else cs
  dropLast '\r' (dropLast '\n' cs)

/-- The tokens of a template.  One line break at its very end does not count. -/
def tokens (cs : List Char) : List Token :=
  let cs := withoutLastBreak cs
  tokensFrom (cs.length + 1) cs

end Runsheet.Template
