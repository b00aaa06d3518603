import Runsheet.Yaml.Scalar

/-!
# Tokens of documents

The tokens of a stream of documents.  Indentation becomes tokens that open and close blocks.  A key
without a mark of its own is recognised by the colon after it: where a key may stand, its place is
remembered, and the colon puts the missing marks there.  A token list ends in a broken token where
the text cannot be read on.
-/

namespace Runsheet.Yaml

/-- A token of a stream of documents. -/
inductive Token
  | version (major minor : Nat)
  | tagHandle (handle meaning : String)
  | documentStart
  | documentEnd
  | openBlockList
  | openBlockMap
  | closeBlock
  | openFlowList
  | closeFlowList
  | openFlowMap
  | closeFlowMap
  | item
  | comma
  | key
  | value
  | reference (name : String)
  | anchor (name : String)
  | tag (handle suffix : String)
  | scalar (text : String) (plain : Bool)
  | streamEnd
  | broken
  deriving DecidableEq, Repr

/-- A place where a key may have begun: the number of tokens before it, and whether the text is
malformed unless it is a key. -/
structure KeyPlace where
  before : Nat
  required : Bool
  start : Cursor

/-- What has been read: the tokens in reverse with their number, the open blocks, and for each open
bracket and for the block around them a place where a key may have begun. -/
structure Scan where
  cursor : Cursor
  tokens : List Token := []
  count : Nat := 0
  indent : Int := -1
  outer : List Int := []
  keyAllowed : Bool := true
  keys : List (Option KeyPlace) := [none]
  done : Bool := false

namespace Scan

/-- Is the place inside brackets? -/
def inFlow (s : Scan) : Bool :=
  1 < s.keys.length

/-- Adds a token. -/
def push (s : Scan) (t : Token) : Scan :=
  { s with tokens := t :: s.tokens, count := s.count + 1 }

/-- Puts a token after the first `n` tokens. -/
def insertAt (s : Scan) (n : Nat) (t : Token) : Scan :=
  let later := s.tokens.take (s.count - n)
  let earlier := s.tokens.drop (s.count - n)
  { s with tokens := later ++ t :: earlier, count := s.count + 1 }

/-- Is a place too far back to begin a key: on an earlier line, or too many characters ago? -/
def isStale (k : KeyPlace) (c : Cursor) : Bool :=
  k.start.line < c.line || k.start.index + 1024 < c.index

/-- Forgets the places that are too far back; none if a key was required at one. -/
def dropStale (s : Scan) : Option Scan :=
  let stale (k : KeyPlace) : Bool := isStale k s.cursor
  if s.keys.any fun k => k.any fun k => k.required && stale k then none
  else some { s with keys := s.keys.map fun k => k.filter fun k => !stale k }

/-- Replaces the innermost place of a key; none if a key was required at the old one. -/
def setKey (s : Scan) (k : Option KeyPlace) : Option Scan :=
  match s.keys with
  | [] => some { s with keys := [k] }
  | old :: rest =>
    if old.any (·.required) then none else some { s with keys := k :: rest }

/-- Forgets the innermost place of a key. -/
def dropKey (s : Scan) : Option Scan :=
  s.setKey none

/-- Remembers that a key may begin here. -/
def saveKey (s : Scan) : Option Scan :=
  if s.keyAllowed then
    s.setKey (some
      { before := s.count, required := !s.inFlow && s.indent == s.cursor.column, start := s.cursor })
  else some s

/-- Opens a block at a column, if it is further in, with its token after the first `n`. -/
def openBlock (s : Scan) (column n : Nat) (t : Token) : Scan :=
  if s.inFlow || (column : Int) ≤ s.indent then s
  else { (s.insertAt n t) with indent := column, outer := s.indent :: s.outer }

/-- Closes the blocks among `open` that are further in than a column. -/
def closeAll (column : Int) : List Int → Scan → Scan
  | [], s => s
  | indent :: outer, s =>
    if column < s.indent then
      closeAll column outer { (s.push .closeBlock) with indent := indent, outer := outer }
    else s

/-- Closes the blocks that are further in than a column. -/
def closeBlocks (s : Scan) (column : Int) : Scan :=
  if s.inFlow then s else closeAll column s.outer s

/-- Skips white space, comments and line breaks before a token. -/
def skipSpace (fuel : Nat) (s : Scan) : Scan :=
  match fuel with
  | 0 => s
  | fuel + 1 =>
    let c := s.cursor
    let c := if c.index == 0 && c.sees (Char.ofNat 0xFEFF) then c.advance 1 else c
    let c := c.skipWhile fun ch => ch = ' ' || ((s.inFlow || !s.keyAllowed) && ch = '\t')
    let c := c.skipComment
    if c.rest.head?.any isBreak then
      skipSpace fuel { s with cursor := c.takeBreak.2, keyAllowed := s.keyAllowed || !s.inFlow }
    else { s with cursor := c }

/-- Moves to a place. -/
def moveTo (s : Scan) (c : Cursor) : Scan :=
  { s with cursor := c }

/-- Takes `n` characters as a token. -/
def take (s : Scan) (n : Nat) (t : Token) : Scan :=
  (s.moveTo (s.cursor.advance n)).push t

/-- Says whether a key may begin next. -/
def allowKey (s : Scan) (allowed : Bool) : Scan :=
  { s with keyAllowed := allowed }

end Scan

/-- Reads the number of a version. -/
def readVersionNumber (c : Cursor) : Option (Nat × Cursor) :=
  let (digits, c) := c.takeWhile Char.isDigit
  if 9 < digits.length then none else (Decimal.natural? 10 digits).map fun n => (n, c)

/-- Reads the handle of a tag.  In a directive it ends in an exclamation mark, as it does elsewhere
if it is one. -/
def readTagHandle (directive : Bool) (c : Cursor) : Option (List Char × Cursor) :=
  if c.sees '!' then
    let (word, c) := (c.advance 1).takeWhile isWordChar
    if c.sees '!' then some ('!' :: word ++ ['!'], c.advance 1)
    else if directive && !word.isEmpty then none
    else some ('!' :: word, c)
  else none

/-- The characters that tags are made of; `verbatim` ones may hold some more. -/
def isTagChar (verbatim : Bool) (c : Char) : Bool :=
  isWordChar c || ";/?:@&=+$.%!~*'()".toList.contains c || (verbatim && ",[]".toList.contains c)

/-- How many bytes a character has by its first one. -/
def byteCount? (n : Nat) : Option Nat :=
  if n < 0x80 then some 1
  else if 0xC0 ≤ n && n < 0xE0 then some 2
  else if 0xE0 ≤ n && n < 0xF0 then some 3
  else if 0xF0 ≤ n && n < 0xF8 then some 4
  else none

/-- Reads the bytes of a character that are each given by a percent sign and two digits. -/
def readEscapedBytes (count : Nat) : List Char → Option (List UInt8 × List Char)
  | '%' :: a :: b :: rest =>
    match count with
    | 0 => some ([], '%' :: a :: b :: rest)
    | count + 1 => do
      let n ← Decimal.natural? 16 [a, b]
      let (bytes, rest) ← readEscapedBytes count rest
      pure (UInt8.ofNat n :: bytes, rest)
  | rest => if count = 0 then some ([], rest) else none

/-- Replaces the percent escapes of a tag; `fuel` bounds the number of characters. -/
def unescapeTag (fuel : Nat) (cs : List Char) : Option (List Char) :=
  match fuel, cs with
  | _, [] => some []
  | 0, _ => none
  | fuel + 1, c :: rest =>
    if c = '%' then do
      let first ← Decimal.natural? 16 (rest.take 2)
      let count ← byteCount? first
      let (bytes, rest) ← readEscapedBytes count (c :: rest)
      let text ← String.fromUTF8? ⟨bytes.toArray⟩
      let more ← unescapeTag fuel rest
      pure (text.toList ++ more)
    else (c :: ·) <$> unescapeTag fuel rest

/-- Reads the rest of a tag, which must not be empty together with what was read before. -/
def readTagText (verbatim : Bool) (before : List Char) (c : Cursor) : Option (List Char × Cursor) :=
  let (text, c) := c.takeWhile (isTagChar verbatim)
  if text.isEmpty && before.isEmpty then none
  else do
    let text ← unescapeTag text.length text
    pure (before.drop 1 ++ text, c)

/-- Reads a directive after its percent sign, up to the end of its line. -/
def readDirective (c : Cursor) : Option (Token × Cursor) := do
  let (word, c) := c.takeWhile isWordChar
  if word.isEmpty || !c.endsAt 0 then none
  let c := c.skipWhile isGap
  let (token, c) ←
    if word = "YAML".toList then do
      let (major, c) ← readVersionNumber c
      if !c.sees '.' then none
      let (minor, c) ← readVersionNumber (c.advance 1)
      pure (Token.version major minor, c)
    else if word = "TAG".toList then do
      let (handle, c) ← readTagHandle true c
      if !(c.rest.head?.any isGap) then none
      let (meaning, c) ← readTagText true [] (c.skipWhile isGap)
      if !c.endsAt 0 then none
      pure (Token.tagHandle (String.ofList handle) (String.ofList meaning), c)
    else none
  let c := (c.skipWhile isGap).skipComment
  if !c.atLineEnd then none
  pure (token, c.takeBreak.2)

/-- Reads the name of an anchor after its mark. -/
def readName (c : Cursor) : Option (String × Cursor) :=
  let (word, c) := c.takeWhile isWordChar
  if word.isEmpty then none
  else if c.endsAt 0 || c.rest.head?.any ("?:,]\x7d%@".toList ++ [Char.ofNat 96]).contains then
    some (String.ofList word, c)
  else none

/-- The handle and the suffix of a tag that was read as one word. -/
def splitTag (suffix : List Char) : List Char × List Char :=
  if suffix.isEmpty then ([], ['!']) else (['!'], suffix)

/-- Reads a tag. -/
def readTag (inFlow : Bool) (c : Cursor) : Option (Token × Cursor) := do
  let ((handle, suffix), c) ←
    if (c.advance 1).sees '<' then do
      let (suffix, c) ← readTagText true [] (c.advance 2)
      if !c.sees '>' then none
      pure ((([] : List Char), suffix), c.advance 1)
    else do
      let (handle, c) ← readTagHandle false c
      if 2 ≤ handle.length && handle.getLast? == some '!' then
        let (suffix, c) ← readTagText false [] c
        pure ((handle, suffix), c)
      else
        let (suffix, c) ← readTagText false handle c
        pure (splitTag suffix, c)
  if c.endsAt 0 || (inFlow && c.sees ',') then
    pure (.tag (String.ofList handle) (String.ofList suffix), c)
  else none

/-- The characters that no plain scalar begins with. -/
def isIndicator (c : Char) : Bool :=
  ("-?:,[]\x7b\x7d#&*!|>'\"%@".toList ++ [Char.ofNat 96]).contains c

/-- Can a plain scalar begin here? -/
def startsPlain (inFlow : Bool) (c : Cursor) (ch : Char) : Bool :=
  let nextIsGap := (c.at? 1).any isGap
  !(isGap ch || isBreak ch || isIndicator ch) || (ch = '-' && !nextIsGap) ||
    (!inFlow && (ch = '?' || ch = ':') && !c.endsAt 1)

namespace Scan

/-- Ends the stream. -/
def finish (s : Scan) : Option Scan := do
  let s ← (s.closeBlocks (-1)).dropKey
  pure { (s.push .streamEnd) with done := true }

/-- Begins a document or ends one, or reads a directive between two. -/
def readEdge (s : Scan) (ch : Char) : Option Scan := do
  let s ← (s.closeBlocks (-1)).dropKey
  let s := s.allowKey false
  if ch = '%' then
    let (token, c) ← readDirective (s.cursor.advance 1)
    pure ((s.moveTo c).push token)
  else pure (s.take 3 (if ch = '-' then .documentStart else .documentEnd))

/-- Reads an opening bracket. -/
def readOpening (s : Scan) (t : Token) : Option Scan := do
  let s ← s.saveKey
  pure ({ s with keys := none :: s.keys, keyAllowed := true }.take 1 t)

/-- Reads a closing bracket. -/
def readClosing (s : Scan) (t : Token) : Option Scan := do
  let s ← s.dropKey
  let keys := if s.inFlow then s.keys.drop 1 else s.keys
  pure ({ s with keys, keyAllowed := false }.take 1 t)

/-- Reads a comma. -/
def readComma (s : Scan) : Option Scan := do
  let s ← s.dropKey
  pure ((s.allowKey true).take 1 .comma)

/-- Reads the mark of an item of a list. -/
def readItem (s : Scan) : Option Scan := do
  if !s.inFlow && !s.keyAllowed then none
  let s ← (s.openBlock s.cursor.column s.count .openBlockList).dropKey
  pure ((s.allowKey true).take 1 .item)

/-- Reads the mark of a key. -/
def readKey (s : Scan) : Option Scan := do
  if !s.inFlow && !s.keyAllowed then none
  let s ← (s.openBlock s.cursor.column s.count .openBlockMap).dropKey
  pure ((s.allowKey !s.inFlow).take 1 .key)

/-- Reads the colon before a value.  If a key may have begun before, it did. -/
def readValue (s : Scan) : Option Scan :=
  match s.keys with
  | some k :: rest =>
    let s := ({ s with keys := none :: rest }.insertAt k.before .key).openBlock
      k.start.column k.before .openBlockMap
    some ((s.allowKey false).take 1 .value)
  | _ => do
    if !s.inFlow && !s.keyAllowed then none
    let s := s.openBlock s.cursor.column s.count .openBlockMap
    pure ((s.allowKey !s.inFlow).take 1 .value)

/-- Reads a token that may begin a key and does not let another one begin right after it. -/
def readMark (s : Scan) (read : Cursor → Option (Token × Cursor)) : Option Scan := do
  let s ← s.saveKey
  let s := s.allowKey false
  let (token, c) ← read s.cursor
  pure ((s.moveTo c).push token)

/-- Reads a plain scalar. -/
def readPlainScalar (s : Scan) : Option Scan := do
  let s ← s.saveKey
  let c := s.cursor
  let r ← readPlain s.inFlow (s.indent + 1).toNat (c.rest.length + 1) c [] ⟨[], false, c⟩
  pure (((s.allowKey r.broken).moveTo r.after).push (.scalar (String.ofList r.text) true))

/-- Reads a block scalar. -/
def readBlockScalar (s : Scan) (folded : Bool) : Option Scan := do
  let s ← s.dropKey
  let r ← readBlock folded s.indent (s.cursor.advance 1)
  pure (((s.allowKey true).moveTo r.after).push (.scalar (String.ofList r.text) false))

/-- A quoted scalar as a token. -/
def quotedToken (q : Quoting) (c : Cursor) : Option (Token × Cursor) := do
  let r ← readQuoted q (c.rest.length + 1) (c.advance 1) []
  pure (.scalar (String.ofList r.text) false, r.after)

/-- Reads one token that begins with the character `ch`. -/
def readToken (s : Scan) (ch : Char) : Option Scan :=
  let c := s.cursor
  let spaced := c.endsAt 1
  if (c.column == 0 && ch = '%') || c.atDocumentEdge then s.readEdge ch
  else if ch = '[' then s.readOpening .openFlowList
  else if ch = '\x7b' then s.readOpening .openFlowMap
  else if ch = ']' then s.readClosing .closeFlowList
  else if ch = '\x7d' then s.readClosing .closeFlowMap
  else if ch = ',' then s.readComma
  else if ch = '-' && spaced then s.readItem
  else if ch = '?' && (s.inFlow || spaced) then s.readKey
  else if ch = ':' && (s.inFlow || spaced) then s.readValue
  else if ch = '*' then
    s.readMark fun c => (readName (c.advance 1)).map fun r => (.reference r.1, r.2)
  else if ch = '&' then
    s.readMark fun c => (readName (c.advance 1)).map fun r => (.anchor r.1, r.2)
  else if ch = '!' then s.readMark (readTag s.inFlow)
  else if (ch = '|' || ch = '>') && !s.inFlow then s.readBlockScalar (ch = '>')
  else if ch = '\'' then s.readMark (quotedToken .single)
  else if ch = '"' then s.readMark (quotedToken .double)
  else if startsPlain s.inFlow c ch then s.readPlainScalar
  else none

/-- Reads on by one token or the end of the stream. -/
def step (s : Scan) : Option Scan := do
  let s ← (s.skipSpace (s.cursor.rest.length + 1)).dropStale
  let s := s.closeBlocks s.cursor.column
  match s.cursor.rest with
  | [] => s.finish
  | ch :: _ => s.readToken ch

/-- The tokens that can be used when the text cannot be read on: those before the first place where
a key may have begun. -/
def usable (s : Scan) : List Token :=
  let open' := s.keys.filterMap fun k => k.filter fun k => !isStale k s.cursor
  let n := open'.foldl (fun n k => min n k.before) s.count
  (s.tokens.drop (s.count - n)).reverse

/-- The tokens from a state on; `fuel` bounds the number of steps. -/
def run (fuel : Nat) (s : Scan) : List Token :=
  match fuel with
  | 0 => s.usable ++ [.broken]
  | fuel + 1 =>
    if s.done then s.tokens.reverse
    else
      match s.step with
      | some s => run fuel s
      | none => s.usable ++ [.broken]

end Scan

/-- The tokens of a stream of documents.  A character that no document may hold breaks all of it. -/
def tokens (text : String) : List Token :=
  let cs := text.toList
  if cs.all isAllowed then (Scan.run (cs.length + 2) { cursor := .start cs }) else [.broken]

end Runsheet.Yaml
