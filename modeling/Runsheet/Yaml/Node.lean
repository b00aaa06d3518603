import Runsheet.Table
import Runsheet.Yaml.Token

/-!
# Nodes of documents

A document is a tree of scalars, lists and maps, in which a node can refer to an anchored node that
began before it.  The nodes are read from the tokens of a stream of documents, one document after
the other.
-/

namespace Runsheet.Yaml

/-- What can be written before a node: the number of its anchor and its tag. -/
structure Properties where
  anchor : Option Nat := none
  tag : Option String := none
  deriving DecidableEq, Repr

/-- A node of a document. -/
inductive Node
  | scalar (properties : Properties) (plain : Bool) (text : String)
  | list (properties : Properties) (items : List Node)
  | map (properties : Properties) (entries : List (Node × Node))
  | reference (anchor : Nat)
  deriving Inhabited

namespace Node

mutual

/-- The anchored nodes of a tree, each after those that begin later. -/
def anchored (found : List (Nat × Node)) : Node → List (Nat × Node)
  | .scalar p plain text => note p (.scalar p plain text) found
  | .list p items => anchoredItems (note p (.list p items) found) items
  | .map p entries => anchoredEntries (note p (.map p entries) found) entries
  | .reference _ => found

/-- The anchored nodes of the items of a list. -/
def anchoredItems (found : List (Nat × Node)) : List Node → List (Nat × Node)
  | [] => found
  | item :: rest => anchoredItems (anchored found item) rest

/-- The anchored nodes of the entries of a map. -/
def anchoredEntries (found : List (Nat × Node)) : List (Node × Node) → List (Nat × Node)
  | [] => found
  | (key, value) :: rest => anchoredEntries (anchored (anchored found key) value) rest

/-- Notes a node if it has an anchor. -/
def note (p : Properties) (n : Node) (found : List (Nat × Node)) : List (Nat × Node) :=
  match p.anchor with
  | some a => (a, n) :: found
  | none => found

end

mutual

/-- The number of beginnings and ends of nodes in a tree. -/
def eventCount : Node → Nat
  | .scalar .. | .reference _ => 1
  | .list _ items => eventCountItems items + 2
  | .map _ entries => eventCountEntries entries + 2

/-- The number of events of the items of a list. -/
def eventCountItems : List Node → Nat
  | [] => 0
  | item :: rest => eventCount item + eventCountItems rest

/-- The number of events of the entries of a map. -/
def eventCountEntries : List (Node × Node) → Nat
  | [] => 0
  | (key, value) :: rest => eventCount key + eventCount value + eventCountEntries rest

end

end Node

/-- A document: its root, or nothing if the stream holds nothing at all. -/
abbrev Document :=
  Option Node

/-- The state of reading nodes: the tokens that are left, the numbers of the anchors of this
document, and the meanings of the handles of tags. -/
structure Composing where
  tokens : List Token
  anchors : Table Nat := []
  handles : Table String := []

/-- A step of reading nodes; none if the tokens do not follow the grammar. -/
abbrev Compose :=
  StateT Composing Option

namespace Compose

variable {α : Type}

/-- The tokens do not follow the grammar. -/
def fail : Compose α := fun _ => none

/-- The next token, which stays. -/
def peek : Compose Token := do
  match (← get).tokens with
  | .broken :: _ | [] => fail
  | t :: _ => pure t

/-- Drops the next token. -/
def skip : Compose Unit :=
  modify fun s => { s with tokens := s.tokens.drop 1 }

/-- Takes the next token if it is the given one. -/
def accept (t : Token) : Compose Bool := do
  let found := (← peek) = t
  if found then skip
  pure found

/-- Takes the next token, which must be the given one. -/
def expect (t : Token) : Compose Unit := do
  unless ← accept t do fail

/-- Gives an anchor its number: the number of names that are in use. -/
def newAnchor (name : String) : Compose Nat := do
  let s ← get
  let n := s.anchors.length
  set { s with anchors := s.anchors.insert name n }
  pure n

/-- The meaning of a tag. -/
def tagMeaning (handle suffix : String) : Compose String := do
  if handle = "" then pure suffix
  else
    match Table.get? handle (← get).handles with
    | some meaning => pure (meaning ++ suffix)
    | none => fail

/-- Takes an anchor if one comes next. -/
def anchor? : Compose (Option Nat) := do
  match ← peek with
  | .anchor name =>
    skip
    some <$> newAnchor name
  | _ => pure none

/-- Takes a tag if one comes next. -/
def tag? : Compose (Option (String × String)) := do
  match ← peek with
  | .tag handle suffix =>
    skip
    pure (some (handle, suffix))
  | _ => pure none

/-- Takes what stands before a node: an anchor and a tag, in either order.  The anchor has its name
before the node begins. -/
def properties : Compose (Properties × Bool) := do
  let first ← anchor?
  let tag ← tag?
  let anchor ← if first.isNone && tag.isSome then anchor? else pure first
  let meaning ← match tag with
    | some (handle, suffix) => some <$> tagMeaning handle suffix
    | none => pure none
  pure ({ anchor, tag := meaning }, anchor.isSome || tag.isSome)

/-- A scalar that is left out. -/
def empty : Node :=
  .scalar {} true ""

/-- A scalar that was written.  The tag that is only an exclamation mark says nothing. -/
def written (p : Properties) (plain : Bool) (text : String) : Node :=
  .scalar { p with tag := p.tag.filter (· ≠ "!") } plain text

/-- The tokens after which a value in a block is left out. -/
def endsBlockValue (t : Token) : Bool :=
  t = .key || t = .value || t = .closeBlock

/-- Does the token end the item of a list that has no block of its own? -/
def endsInnerItem (t : Token) : Bool :=
  t = .item || endsBlockValue t

mutual

/-- A node.  `inBlock` says that blocks may begin here, and `inner` that the items of a list may
stand here without a block of their own. -/
def node (fuel : Nat) (inBlock inner : Bool) : Compose Node :=
  match fuel with
  | 0 => fail
  | fuel + 1 => do
    match ← peek with
    | .reference name =>
      skip
      match Table.get? name (← get).anchors with
      | some n => pure (.reference n)
      | none => fail
    | _ =>
      let (p, any) ← properties
      match ← peek with
      | .scalar text plain =>
        skip
        pure (written p plain text)
      | .openFlowList =>
        skip
        .list p <$> flowItems fuel true
      | .openFlowMap =>
        skip
        .map p <$> flowEntries fuel true
      | .item =>
        if inner then .list p <$> innerItems fuel
        else if any then pure (.scalar p true "")
        else fail
      | .openBlockList =>
        if inBlock then
          skip
          .list p <$> blockItems fuel
        else if any then pure (.scalar p true "")
        else fail
      | .openBlockMap =>
        if inBlock then
          skip
          .map p <$> blockEntries fuel
        else if any then pure (.scalar p true "")
        else fail
      | _ => if any then pure (.scalar p true "") else fail

/-- The items of a list in a block. -/
def blockItems (fuel : Nat) : Compose (List Node) :=
  match fuel with
  | 0 => fail
  | fuel + 1 => do
    if ← accept .closeBlock then pure []
    else
      expect .item
      let t ← peek
      let first ← if t = .item || t = .closeBlock then pure empty else node fuel true false
      let rest ← blockItems fuel
      pure (first :: rest)

/-- The items of a list without a block of its own. -/
def innerItems (fuel : Nat) : Compose (List Node) :=
  match fuel with
  | 0 => fail
  | fuel + 1 => do
    if ← accept .item then
      let t ← peek
      let first ← if endsInnerItem t then pure empty else node fuel true false
      let rest ← innerItems fuel
      pure (first :: rest)
    else pure []

/-- A key or a value in a block. -/
def blockPart (fuel : Nat) : Compose Node :=
  match fuel with
  | 0 => fail
  | fuel + 1 => do
    if endsBlockValue (← peek) then pure empty else node fuel true true

/-- The entries of a map in a block. -/
def blockEntries (fuel : Nat) : Compose (List (Node × Node)) :=
  match fuel with
  | 0 => fail
  | fuel + 1 => do
    if ← accept .closeBlock then pure []
    else
      expect .key
      let key ← blockPart fuel
      let value ← if ← accept .value then blockPart fuel else pure empty
      let rest ← blockEntries fuel
      pure ((key, value) :: rest)

/-- The items of a list in brackets.  An item with a colon is a map of one entry. -/
def flowItems (fuel : Nat) (first : Bool) : Compose (List Node) :=
  match fuel with
  | 0 => fail
  | fuel + 1 => do
    if ← accept .closeFlowList then pure []
    else
      unless first do expect .comma
      if ← accept .key then
        let entry ← pair fuel
        let rest ← flowItems fuel false
        pure (.map {} [entry] :: rest)
      else if ← accept .closeFlowList then pure []
      else
        let item ← node fuel false false
        let rest ← flowItems fuel false
        pure (item :: rest)

/-- The entry of an item with a colon.  A key that is left out takes the token after it along. -/
def pair (fuel : Nat) : Compose (Node × Node) :=
  match fuel with
  | 0 => fail
  | fuel + 1 => do
    let t ← peek
    let key ←
      if t = .value || t = .comma || t = .closeFlowList then
        skip
        pure empty
      else node fuel false false
    let value ←
      if ← accept .value then
        let t ← peek
        if t = .comma || t = .closeFlowList then pure empty else node fuel false false
      else pure empty
    pure (key, value)

/-- The entries of a map in brackets. -/
def flowEntries (fuel : Nat) (first : Bool) : Compose (List (Node × Node)) :=
  match fuel with
  | 0 => fail
  | fuel + 1 => do
    if ← accept .closeFlowMap then pure []
    else
      unless first do expect .comma
      if ← accept .key then
        let t ← peek
        let key ←
          if t = .value || t = .comma || t = .closeFlowMap then pure empty
          else node fuel false false
        let value ← flowValue fuel
        let rest ← flowEntries fuel false
        pure ((key, value) :: rest)
      else if ← accept .closeFlowMap then pure []
      else
        let key ← node fuel false false
        let rest ← flowEntries fuel false
        pure ((key, empty) :: rest)

/-- The value of an entry in brackets. -/
def flowValue (fuel : Nat) : Compose Node :=
  match fuel with
  | 0 => fail
  | fuel + 1 => do
    if ← accept .value then
      let t ← peek
      if t = .comma || t = .closeFlowMap then pure empty else node fuel false false
    else pure empty

end

/-- The handles of tags that every document has. -/
def commonHandles : Table String :=
  Table.ofList [("!", "!"), ("!!", "tag:yaml.org,2002:")]

/-- Takes the directives before a document; there is at most one version, and no handle is given
twice. -/
def directives (fuel : Nat) (versioned : Bool) (handles : Table String) : Compose (Table String) :=
  match fuel with
  | 0 => fail
  | fuel + 1 => do
    match ← peek with
    | .version major minor =>
      if versioned || major ≠ 1 || (minor ≠ 1 && minor ≠ 2) then fail
      else
        skip
        directives fuel true handles
    | .tagHandle handle meaning =>
      if handles.contains handle then fail
      else
        skip
        directives fuel versioned (handles.insert handle meaning)
    | _ => pure handles

/-- Does a document of which only the beginning is marked hold nothing before the token? -/
def endsDocument : Token → Bool
  | .version .. | .tagHandle .. | .documentStart | .documentEnd | .streamEnd => true
  | _ => false

/-- Skips the marks of ends of documents. -/
def skipEnds (fuel : Nat) : Compose Unit :=
  match fuel with
  | 0 => pure ()
  | fuel + 1 => do
    if ← accept .documentEnd then skipEnds fuel

/-- The next document, or none at the end of the stream.  The first document needs no mark for its
beginning. -/
def document? (first : Bool) : Compose (Option Node) := do
  let fuel := 4 * ((← get).tokens.length + 2)
  unless first do skipEnds fuel
  let t ← peek
  if t = .streamEnd then pure none
  else
    let root ←
      if first && !endsDocument t then
        modify fun s => { s with anchors := [], handles := commonHandles }
        node fuel true false
      else
        let handles ← directives fuel false []
        expect .documentStart
        modify fun s => { s with anchors := [], handles := Table.override commonHandles handles }
        if endsDocument (← peek) then pure empty else node fuel true false
    let _ ← accept .documentEnd
    pure (some root)

end Compose

/-- The documents of a stream up to the first malformed one, and whether there is none. -/
structure Stream where
  documents : List Document
  sound : Bool

namespace Stream

/-- Reads document after document; `fuel` bounds their number. -/
def read (fuel : Nat) (first : Bool) (s : Composing) : Stream :=
  match fuel with
  | 0 => ⟨[], false⟩
  | fuel + 1 =>
    match Compose.document? first s with
    | none => ⟨[], false⟩
    | some (none, _) => ⟨if first then [none] else [], true⟩
    | some (some root, s) =>
      let more := read fuel false s
      ⟨some root :: more.documents, more.sound⟩

/-- The documents of a text.  A text that holds nothing is one document that holds nothing. -/
def ofText (text : String) : Stream :=
  let tokens := tokens text
  read (tokens.length + 1) true { tokens }

end Stream

end Runsheet.Yaml
