/-!
# Places in a document

A cursor is a place in the text of a document: the characters from there on, with the number of
characters, of line breaks, and of characters of the same line before it.
-/

namespace Runsheet.Yaml

/-- Spaces and tabs separate tokens. -/
def isGap (c : Char) : Bool :=
  c = ' ' || c = '\t'

/-- The characters that end a line. -/
def isBreak (c : Char) : Bool :=
  c = '\n' || c = '\r' || c.toNat = 0x85 || c.toNat = 0x2028 || c.toNat = 0x2029

/-- The characters that names are made of. -/
def isWordChar (c : Char) : Bool :=
  c.isAlphanum || c = '-' || c = '_'

/-- The characters that a document may hold. -/
def isAllowed (c : Char) : Bool :=
  let n := c.toNat
  n == 9 || n == 10 || n == 13 || (0x20 ≤ n && n ≤ 0x7E) || n == 0x85 ||
    (0xA0 ≤ n && n ≤ 0xD7FF) || (0xE000 ≤ n && n ≤ 0xFFFD) || 0x10000 ≤ n

/-- A place in a document. -/
structure Cursor where
  rest : List Char
  index : Nat := 0
  line : Nat := 0
  column : Nat := 0

namespace Cursor

/-- The beginning of a document. -/
def start (cs : List Char) : Cursor :=
  { rest := cs }

/-- The place after `n` characters of the same line. -/
def advance (c : Cursor) (n : Nat) : Cursor :=
  { rest := c.rest.drop n, index := c.index + n, line := c.line, column := c.column + n }

/-- The character `n` places further on. -/
def at? (c : Cursor) (n : Nat) : Option Char :=
  c.rest[n]?

/-- Does the text go on with the character? -/
def sees (c : Cursor) (ch : Char) : Bool :=
  c.rest.head? == some ch

/-- Is the character `n` places further on a gap or a line break, or does the text end before? -/
def endsAt (c : Cursor) (n : Nat) : Bool :=
  (c.at? n).all fun ch => isGap ch || isBreak ch

/-- Does the line end here? -/
def atLineEnd (c : Cursor) : Bool :=
  c.rest.head?.all isBreak

/-- The place on the next line after `n` characters that end the line. -/
def nextLine (c : Cursor) (n : Nat) : Cursor :=
  { rest := c.rest.drop n, index := c.index + n, line := c.line + 1, column := 0 }

/-- Takes a line break: what it means in a text, and the beginning of the next line. -/
def takeBreak (c : Cursor) : List Char × Cursor :=
  match c.rest with
  | '\r' :: '\n' :: _ => (['\n'], c.nextLine 2)
  | ch :: _ =>
    if ch = '\r' || ch = '\n' || ch.toNat = 0x85 then (['\n'], c.nextLine 1)
    else if isBreak ch then ([ch], c.nextLine 1)
    else ([], c)
  | [] => ([], c)

/-- Takes the characters of a class; the class holds no line breaks. -/
def takeWhile (c : Cursor) (p : Char → Bool) : List Char × Cursor :=
  let taken := c.rest.takeWhile p
  (taken, c.advance taken.length)

/-- The place after the characters of a class. -/
def skipWhile (c : Cursor) (p : Char → Bool) : Cursor :=
  (c.takeWhile p).2

/-- The place at the end of the line. -/
def skipLine (c : Cursor) : Cursor :=
  c.skipWhile fun ch => !isBreak ch

/-- The place after a comment, if there is one. -/
def skipComment (c : Cursor) : Cursor :=
  if c.sees '#' then c.skipLine else c

/-- Does a line of three marks begin or end a document here? -/
def atDocumentMark (c : Cursor) (mark : Char) : Bool :=
  c.column == 0 && [mark, mark, mark].isPrefixOf c.rest && c.endsAt 3

/-- Does a document begin or end here? -/
def atDocumentEdge (c : Cursor) : Bool :=
  c.atDocumentMark '-' || c.atDocumentMark '.'

end Cursor

end Runsheet.Yaml
