import Runsheet.Decimal.Reader
import Runsheet.Yaml.Cursor

/-!
# Scalars

The texts of scalars.  Plain and quoted scalars may go over several lines: a single line break
between two lines becomes a space, and of several the first is left out.  Block scalars keep or
fold their line breaks.
-/

namespace Runsheet.Yaml

/-- The white space between two parts of a scalar: the text that it stands for, whether it has a
line break, and the place after it. -/
structure Gap where
  text : List Char
  broken : Bool
  after : Cursor

/-- The text of white space: blanks without a line break stay, a line break becomes a space unless
others follow it. -/
def foldGap (blanks : List Char) (first : Option (List Char)) (more : List Char) : List Char :=
  match first with
  | none => blanks.reverse
  | some ['\n'] => if more.isEmpty then [' '] else more
  | some other => other ++ more

/-- Reads white space.  In a block, a tab before column `indent` of a further line is an error.
`blanks` are those before the first line break, reversed; `first` is that break. -/
def readGap (indent fuel : Nat) (c : Cursor) (blanks : List Char) (first : Option (List Char))
    (more : List Char) : Option Gap :=
  let gap : Gap := ⟨foldGap blanks first more, first.isSome, c⟩
  match fuel with
  | 0 => some gap
  | fuel + 1 =>
    match c.rest with
    | [] => some gap
    | ch :: _ =>
      if isGap ch then
        if first.isSome then
          if ch = '\t' && c.column < indent then none
          else readGap indent fuel (c.advance 1) blanks first more
        else readGap indent fuel (c.advance 1) (ch :: blanks) first more
      else if isBreak ch then
        let (brk, next) := c.takeBreak
        if first.isSome then readGap indent fuel next blanks first (more ++ brk)
        else readGap indent fuel next [] (some brk) more
      else some gap

/-- The characters that have a meaning of their own in lists and maps in brackets. -/
def isFlowMark (c : Char) : Bool :=
  c = ',' || c = '[' || c = ']' || c = '\x7b' || c = '\x7d'

/-- The part of a plain scalar up to the next white space or to its end; none if a colon stands
where it must not. -/
def plainPart (inFlow : Bool) : List Char → Option (List Char)
  | [] => some []
  | ch :: rest =>
    if isGap ch || isBreak ch then some []
    else if ch = ':' && rest.head?.all (fun d => isGap d || isBreak d) then some []
    else if inFlow && ch = ':' && rest.head?.any (fun d => isFlowMark d || d = '?') then none
    else if inFlow && isFlowMark ch then some []
    else (ch :: ·) <$> plainPart inFlow rest

/-- What was read: the text of a scalar, the place after it and the white space that follows it, and
whether that has a line break. -/
structure ScalarRead where
  text : List Char
  after : Cursor
  broken : Bool := false

/-- Reads a plain scalar on; `text` is its beginning and `gap` the white space after that.  In a
block, it ends before a line that is indented less than `indent`. -/
def readPlain (inFlow : Bool) (indent fuel : Nat) (c : Cursor) (text : List Char) (gap : Gap) :
    Option ScalarRead :=
  match fuel with
  | 0 => none
  | fuel + 1 =>
    let ended : ScalarRead := ⟨text, c, gap.broken⟩
    if c.atDocumentEdge || c.sees '#' then some ended
    else do
      let part ← plainPart inFlow c.rest
      if part.isEmpty then some ended
      else
        let text := text ++ gap.text ++ part
        let c := c.advance part.length
        if c.rest.head?.any fun ch => isGap ch || isBreak ch then
          let gap ← readGap indent (c.rest.length + 1) c [] none []
          if !inFlow && gap.after.column < indent then some ⟨text, gap.after, gap.broken⟩
          else readPlain inFlow indent fuel gap.after text gap
        else some ⟨text, c, false⟩

/-- The characters that an escape of one letter stands for. -/
def escapeLetter? (c : Char) : Option Char :=
  match c with
  | '0' => some (Char.ofNat 0)
  | 'a' => some (Char.ofNat 7)
  | 'b' => some (Char.ofNat 8)
  | 't' | '\t' => some '\t'
  | 'n' => some '\n'
  | 'v' => some (Char.ofNat 11)
  | 'f' => some (Char.ofNat 12)
  | 'r' => some '\r'
  | 'e' => some (Char.ofNat 27)
  | ' ' | '"' | '/' | '\\' => some c
  | 'N' => some (Char.ofNat 0x85)
  | '_' => some (Char.ofNat 0xA0)
  | 'L' => some (Char.ofNat 0x2028)
  | 'P' => some (Char.ofNat 0x2029)
  | _ => none

/-- The number of digits of an escape that gives a character by its number. -/
def escapeDigits? (c : Char) : Option Nat :=
  match c with
  | 'x' => some 2
  | 'u' => some 4
  | 'U' => some 8
  | _ => none

/-- Reads an escape after its backslash: the character, and how many characters it takes. -/
def readEscape (cs : List Char) : Option (Char × Nat) := do
  let letter ← cs.head?
  match escapeDigits? letter with
  | some n =>
    let digits := (cs.drop 1).take n
    if digits.length < n then none
    let value ← Decimal.natural? 16 digits
    if (0xD800 ≤ value && value ≤ 0xDFFF) || 0x10FFFF < value then none
    else pure (Char.ofNat value, n + 1)
  | none =>
    let c ← escapeLetter? letter
    pure (c, 1)

/-- The two ways to quote a scalar. -/
inductive Quoting
  | single
  | double
  deriving DecidableEq

/-- The quotation mark. -/
def Quoting.mark : Quoting → Char
  | .single => '\''
  | .double => '"'

/-- A part of a quoted scalar up to the next white space or to its end: the text reversed, the place
after it, and whether it ends in an escaped line break. -/
def quotedPart (q : Quoting) (fuel : Nat) (c : Cursor) (text : List Char) :
    Option (List Char × Cursor × Bool) :=
  match fuel with
  | 0 => none
  | fuel + 1 =>
    match c.rest with
    | [] => some (text, c, false)
    | ch :: rest =>
      if isGap ch || isBreak ch then some (text, c, false)
      else if ch = q.mark then
        if q = .single && rest.head? == some '\'' then
          quotedPart q fuel (c.advance 2) ('\'' :: text)
        else some (text, c, false)
      else if q = .double && ch = '\\' then
        if rest.head?.any isBreak then some (text, (c.advance 1).takeBreak.2, true)
        else do
          let (d, n) ← readEscape rest
          quotedPart q fuel (c.advance (n + 1)) (d :: text)
      else quotedPart q fuel (c.advance 1) (ch :: text)

/-- Reads a quoted scalar after its opening mark; `text` is its reversed beginning. -/
def readQuoted (q : Quoting) (fuel : Nat) (c : Cursor) (text : List Char) : Option ScalarRead :=
  match fuel with
  | 0 => none
  | fuel + 1 =>
    if c.atDocumentEdge || c.rest.isEmpty then none
    else do
      let (text, c, escaped) ← quotedPart q (c.rest.length + 1) c text
      if !escaped && c.sees q.mark then some ⟨text.reverse, c.advance 1, false⟩
      else
        let gap ← readGap 0 (c.rest.length + 1) c [] (if escaped then some [] else none) []
        readQuoted q fuel gap.after (gap.text.reverse ++ text)

/-- What becomes of the line breaks at the end of a block scalar. -/
inductive Chomping
  | strip
  | clip
  | keep
  deriving DecidableEq

/-- The header of a block scalar: how it ends, and how much it is indented if it says so. -/
structure BlockHeader where
  chomping : Chomping := .clip
  increment : Option Nat := none

/-- Reads the mark for how a block scalar ends. -/
def readChomping (c : Cursor) : Option (Chomping × Cursor) :=
  if c.sees '+' then some (.keep, c.advance 1)
  else if c.sees '-' then some (.strip, c.advance 1)
  else none

/-- Reads the digit for how much a block scalar is indented; it is not zero. -/
def readIncrement (c : Cursor) : Option (Option Nat × Cursor) :=
  match c.rest.head? with
  | some ch =>
    if ch.isDigit then
      if ch = '0' then none else some (some (ch.toNat - 48), c.advance 1)
    else some (none, c)
  | none => some (none, c)

/-- Reads the header of a block scalar, its two marks in either order. -/
def readHeader (c : Cursor) : Option (BlockHeader × Cursor) := do
  match readChomping c with
  | some (chomping, c) =>
    let (increment, c) ← readIncrement c
    pure ({ chomping, increment }, c)
  | none =>
    let (increment, c) ← readIncrement c
    match increment, readChomping c with
    | some _, some (chomping, c) => pure ({ chomping, increment }, c)
    | _, _ => pure ({ increment }, c)

/-- The line breaks before a line of a block scalar, the widest indentation met, and the place where
the line begins. -/
structure Breaks where
  text : List Char
  widest : Nat
  after : Cursor

/-- Skips the indentation of lines of a block scalar and collects their line breaks; without a given
indentation every space counts.  A tab within the indentation is an error. -/
def readBreaks (indent : Option Nat) (fuel : Nat) (c : Cursor) (text : List Char) (widest : Nat) :
    Option Breaks :=
  match fuel with
  | 0 => none
  | fuel + 1 =>
    let spaces := (c.rest.takeWhile (· = ' ')).length
    let c := c.advance (indent.elim spaces fun n => min spaces (n - c.column))
    let widest := max widest c.column
    if indent.all (c.column < ·) && c.sees '\t' then none
    else if c.rest.head?.any isBreak then
      let (brk, next) := c.takeBreak
      readBreaks indent fuel next (text ++ brk) widest
    else some ⟨text, widest, c⟩

/-- The lines of a block scalar that were read: their text, the break of the last line, and the
breaks of empty lines after it. -/
structure BlockText where
  text : List Char
  lastBreak : List Char
  breaks : List Char
  after : Cursor

/-- Reads the lines of a block scalar.  Folded, a single break between two lines that do not begin
with white space becomes a space; `blankBefore` says that the line before begins so. -/
def readLines (folded : Bool) (indent fuel : Nat) (b : BlockText) (blankBefore : Bool) :
    Option BlockText :=
  match fuel with
  | 0 => none
  | fuel + 1 =>
    let c := b.after
    if c.column != indent || c.rest.isEmpty then some b
    else
      let blank := c.rest.head?.any isGap
      let joint :=
        if folded && b.lastBreak.head? == some '\n' && !blankBefore && !blank then
          if b.breaks.isEmpty then [' '] else b.breaks
        else b.lastBreak ++ b.breaks
      let (line, c) := c.takeWhile fun ch => !isBreak ch
      let (lastBreak, c) := c.takeBreak
      match readBreaks (some indent) (c.rest.length + 1) c [] 0 with
      | none => none
      | some breaks =>
        readLines folded indent fuel
          { text := b.text ++ joint ++ line, lastBreak, breaks := breaks.text, after := breaks.after }
          blank

/-- Reads a block scalar after its first mark; `parent` is the indentation of the block that it
stands in. -/
def readBlock (folded : Bool) (parent : Int) (c : Cursor) : Option ScalarRead := do
  let (header, c) ← readHeader c
  let c := (c.skipWhile isGap).skipComment
  if !c.atLineEnd then none
  let (_, c) := c.takeBreak
  let given := header.increment.map fun n => if 0 ≤ parent then parent.toNat + n else n
  let breaks ← readBreaks given (c.rest.length + 1) c [] 0
  let indent := given.getD (max breaks.widest (max (parent + 1).toNat 1))
  let b ← readLines folded indent (breaks.after.rest.length + 1)
    { text := [], lastBreak := [], breaks := breaks.text, after := breaks.after } false
  let tail := match header.chomping with
    | .strip => []
    | .clip => b.lastBreak
    | .keep => b.lastBreak ++ b.breaks
  pure ⟨b.text ++ tail, b.after, false⟩

end Runsheet.Yaml
