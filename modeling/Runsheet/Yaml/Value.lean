import Runsheet.Json.Problem
import Runsheet.Json.Text
import Runsheet.Yaml.Node

/-!
# Values of documents

What a document says: data values, in which the keys of maps are values of any kind and a value may
carry a tag.  A plain scalar without a tag is null, a boolean or a number if it is written like one,
and a string otherwise.
-/

namespace Runsheet.Yaml

/-- A value of a document. -/
inductive Value
  | null
  | bool (b : Bool)
  | number (n : Number)
  | string (s : String)
  | list (items : List Value)
  | map (entries : List (Value × Value))
  | tagged (tag : String) (value : Value)
  deriving Inhabited

namespace Value

/-- Are two numbers the same key? -/
def sameNumber : Number → Number → Bool
  | .int m, .int n => m == n
  | .float x, .float y => (x.isNaN && y.isNaN) || x.toFloat == y.toFloat
  | _, _ => false

mutual

/-- Are two values the same key?  The entries of a map may stand in any order. -/
def same : Value → Value → Bool
  | .null, .null => true
  | .bool a, .bool b => a == b
  | .number m, .number n => sameNumber m n
  | .string s, .string t => s == t
  | .list xs, .list ys => sameItems xs ys
  | .map xs, .map ys => xs.length == ys.length && includes ys xs
  | .tagged t x, .tagged u y => t == u && same x y
  | _, _ => false

/-- Are the items of two lists the same? -/
def sameItems : List Value → List Value → Bool
  | [], [] => true
  | x :: xs, y :: ys => same x y && sameItems xs ys
  | _, _ => false

/-- Does a map have all of the entries? -/
def includes (entries : List (Value × Value)) : List (Value × Value) → Bool
  | [] => true
  | (k, x) :: rest => entries.any (fun e => same k e.1 && same x e.2) && includes entries rest

end

/-- Does a plain text say that there is nothing? -/
def isNullText (s : String) : Bool :=
  ["null", "Null", "NULL", "~"].contains s

/-- The boolean that a plain text is. -/
def boolean? (s : String) : Option Bool :=
  if ["true", "True", "TRUE"].contains s then some true
  else if ["false", "False", "FALSE"].contains s then some false
  else none

/-- Two or more digits of which the first is zero, after an optional sign, are no number. -/
def isZeroPadded (cs : List Char) : Bool :=
  let digits := match cs with
    | '+' :: rest | '-' :: rest => rest
    | _ => cs
  1 < digits.length && digits.head? == some '0' && digits.all Char.isDigit

/-- The base that a number names, and its digits. -/
def based? : List Char → Option (Nat × List Char)
  | '0' :: 'x' :: digits => some (16, digits)
  | '0' :: 'o' :: digits => some (8, digits)
  | '0' :: 'b' :: digits => some (2, digits)
  | _ => none

/-- The natural number that a text without a sign is, in the base it names or in base ten. -/
def magnitude? (cs : List Char) : Option Nat :=
  match based? cs with
  | some (base, digits) => Decimal.natural? base digits
  | none => Decimal.natural? 10 cs

/-- The integer that a plain text is, of any size. -/
def integer? (cs : List Char) : Option Int :=
  if isZeroPadded cs then none
  else
    match cs with
    | '+' :: rest => (magnitude? rest).map Int.ofNat
    | '-' :: rest => (magnitude? rest).map fun n => -(Int.ofNat n)
    | rest => (magnitude? rest).map Int.ofNat

/-- Is an integer within 128 bits, with a sign only below zero? -/
def isWide (n : Int) : Bool :=
  -(Int.pow 2 127) ≤ n && n < Int.pow 2 128

/-- The floating-point number that a plain text is. -/
def float? (cs : List Char) : Option Binary64 :=
  let (signed, bare) := match cs with
    | '+' :: rest => (true, rest)
    | _ => (false, cs)
  if signed && (bare.head? == some '+' || bare.head? == some '-') then none
  else if [".inf", ".Inf", ".INF"].contains (String.ofList bare) then
    some (.ofFloat (1 / 0))
  else if ["-.inf", "-.Inf", "-.INF"].contains (String.ofList cs) then some (.ofFloat (-1 / 0))
  else if [".nan", ".NaN", ".NAN"].contains (String.ofList cs) then some .nan
  else (Decimal.float? bare).filter (·.isFinite)

/-- The value of a number that a plain text is.  An integer of more than 64 bits but within 128 has
none, which is `some none`. -/
def number? (cs : List Char) : Option (Option Value) :=
  match (integer? cs).filter isWide with
  | some n => if Json.holdsInt n then some (some (.number (.int n))) else some none
  | none =>
    if isZeroPadded cs then none
    else (float? cs).map fun x => some (.number (.float x))

/-- The value of a plain text without a tag. -/
def ofPlain (s : String) : Option Value :=
  if s = "" || isNullText s then some .null
  else
    match boolean? s with
    | some b => some (.bool b)
    | none => (number? s.toList).getD (some (.string s))

/-- The name of a common tag. -/
def commonTag (name : String) : String :=
  "tag:yaml.org,2002:" ++ name

/-- The value of a scalar.  The common tags ask for a kind of value, and any other tag makes a
string. -/
def ofScalar (tag : Option String) (plain : Bool) (s : String) : Option Value :=
  match tag with
  | none => if plain then ofPlain s else some (.string s)
  | some tag =>
    if tag = commonTag "bool" then (boolean? s).map .bool
    else if tag = commonTag "int" then
      match (integer? s.toList).filter isWide with
      | some n => if Json.holdsInt n then some (.number (.int n)) else none
      | none => none
    else if tag = commonTag "float" then (float? s.toList).map fun x => .number (.float x)
    else if tag = commonTag "null" then if isNullText s then some .null else none
    else some (.string s)

/-- The map of a list of entries; no two may have the same key. -/
def ofEntries? (entries : List (Value × Value)) : Option Value :=
  let distinct := (entries.foldl (fun (found : Bool × List Value) e =>
    (found.1 && !found.2.any (same e.1), e.1 :: found.2)) (true, [])).1
  if distinct then some (.map entries) else none

/-- The tag of a value that is not a common one: an exclamation mark and a name. -/
def ownTag? : Node → Option String
  | .scalar p .. | .list p _ | .map p _ => p.tag.filter fun t => t.toList.head? == some '!'
  | .reference _ => none

/-- How deep lists and maps may be nested. -/
def maxDepth : Nat := 128

/-- The values of nodes; the state is the number of references that were followed. -/
abbrev Resolving :=
  StateT Nat Option

/-- The node that a node stands for: itself unless it is a reference.  At most `limit` references
are followed. -/
def target (anchors : List (Nat × Node)) (limit : Nat) (n : Node) : Resolving Node :=
  match n with
  | .reference a => do
    let followed ← modifyGet fun k => (k + 1, k + 1)
    if limit < followed then failure
    else
      match anchors.find? fun entry => entry.1 = a with
      | some (_, .reference _) | none => failure
      | some (_, n) => pure n
  | n => pure n

/-- The value of a scalar; a tag of its own does not make it a string. -/
def ofScalarNode (own tag : Option String) (plain : Bool) (s : String) : Option Value :=
  if own.isSome then if plain then ofPlain s else some (.string s)
  else ofScalar tag plain s

/-- A value with the own tag of its node; the exclamation mark alone is none. -/
def withTag (own : Option String) (value : Value) : Option Value :=
  match own with
  | none => some value
  | some tag => if tag = "!" then none else some (.tagged tag value)

/-- The value of a node that is no reference, without its own tag.  `inner?` gives the values of the
nodes within, if lists and maps may stand here. -/
def ofContent (inner? : Option (Node → Resolving Value)) (n : Node) : Resolving Value :=
  match n, inner? with
  | .scalar p plain s, _ => StateT.lift (ofScalarNode (ownTag? n) p.tag plain s)
  | .list _ items, some inner => .list <$> items.mapM inner
  | .map _ entries, some inner => do
    let entries ← entries.mapM fun e => do
      let k ← inner e.1
      let v ← inner e.2
      pure (k, v)
    StateT.lift (ofEntries? entries)
  | _, _ => failure

/-- The value of a node with its own tag, or of the node that it refers to. -/
def ofTarget (anchors : List (Nat × Node)) (limit : Nat) (inner? : Option (Node → Resolving Value))
    (n : Node) : Resolving Value := do
  let n ← target anchors limit n
  let value ← ofContent inner? n
  StateT.lift (withTag (ownTag? n) value)

/-- The value of a node, in which lists and maps may be nested to a depth. -/
def ofNode (anchors : List (Nat × Node)) (limit : Nat) : Nat → Node → Resolving Value
  | 0 => ofTarget anchors limit none
  | depth + 1 => ofTarget anchors limit (some (ofNode anchors limit depth))

/-- The value of a document; none if it has none. -/
def ofDocument? : Document → Option Value
  | none => some .null
  | some root =>
    let run := ofNode (root.anchored []) (100 * root.eventCount) maxDepth root
    (run.run 0).map (·.1)

/-- The value that a value is without its tags. -/
def untagged : Value → Value
  | .tagged _ value => untagged value
  | value => value

/-- The text of a key of an object: strings, numbers and booleans have one. -/
def keyText : Value → Except Json.Problem String
  | .string s => .ok s
  | .bool b => .ok (if b then "true" else "false")
  | .number (.int n) => .ok (toString n)
  | .number (.float x) => if x.isFinite then .ok (Number.float x).text else .error .keyNotFinite
  | .null | .list _ | .map _ | .tagged .. => .error .keyNotText

mutual

/-- The data value of a value.  A tag becomes the key of a map with one entry. -/
def toJson : Value → Except Json.Problem Json
  | .null => .ok .null
  | .bool b => .ok (.bool b)
  | .number (.int n) => .ok (.ofInt n)
  | .number (.float x) => .ok (.ofBinary64 x)
  | .string s => .ok (.string s)
  | .list items => do
    let items ← toJsonItems items
    pure (.array items)
  | .map entries => do
    let fields ← toJsonFields entries
    pure (.object (Table.ofList fields))
  | .tagged tag value => do
    let v ← toJson value
    pure (.object [(tag, v)])

/-- The data values of the items of a list. -/
def toJsonItems : List Value → Except Json.Problem (List Json)
  | [] => .ok []
  | item :: rest => do
    let first ← toJson item
    let others ← toJsonItems rest
    pure (first :: others)

/-- The fields of the entries of a map. -/
def toJsonFields : List (Value × Value) → Except Json.Problem (List (String × Json))
  | [] => .ok []
  | (key, value) :: rest => do
    let name ← key.keyText
    let first ← toJson value
    let others ← toJsonFields rest
    pure ((name, first) :: others)

end

end Value

/-- The values of a stream of documents up to the first that has none, and whether there is no such
document. -/
structure Values where
  values : List Value
  sound : Bool

/-- The values of documents, one after the other. -/
def Values.ofDocuments (sound : Bool) : List Document → Values
  | [] => ⟨[], sound⟩
  | d :: rest =>
    match Value.ofDocument? d with
    | none => ⟨[], false⟩
    | some v =>
      let more := ofDocuments sound rest
      ⟨v :: more.values, more.sound⟩

/-- The values of the documents of a text. -/
def Values.ofText (text : String) : Values :=
  let stream := Stream.ofText text
  ofDocuments stream.sound stream.documents

end Runsheet.Yaml
