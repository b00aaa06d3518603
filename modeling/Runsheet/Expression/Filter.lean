import Runsheet.Decimal.Reader
import Runsheet.Expression.Arguments
import Runsheet.Text.Base64
import Runsheet.Text.Case

/-!
# Filters

The filters that expressions can apply to a value with `|`.  A filter takes the value as its first
argument.  `filters` lists them by name.
-/

namespace Runsheet.Expression

/-- What a filter does with its arguments, of which the first is the value before the bar. -/
abbrev Filter :=
  Setting → Arguments → Value.Result

namespace Filter

/-- The bounds of integers of 32 and 64 bits. -/
def min32 : Int := -(Int.pow 2 31)

def max32 : Int := Int.pow 2 31 - 1

def min64 : Int := -(Int.pow 2 63)

def max64 : Int := Int.pow 2 63 - 1

/-- A string value. -/
def ofChars (cs : List Char) : Value :=
  .string (String.ofList cs)

/-- A filter that changes a text. -/
def onText (f : List Char → List Char) : Filter := fun s args => do
  let text ← (Taking.text s).run args.all
  pure (ofChars (f text.toList))

/-- A filter of a value alone. -/
def onValue (f : Setting → Value → Value.Result) : Filter := fun s args => do
  let v ← Taking.value.run args.all
  f s v

/-- Is a character one of the punctuation marks of ASCII? -/
def isPunctuation (c : Char) : Bool :=
  let n := c.toNat
  (33 ≤ n && n ≤ 47) || (58 ≤ n && n ≤ 64) || (91 ≤ n && n ≤ 96) || (123 ≤ n && n ≤ 126)

/-- Begins every word with a capital letter; `fresh` says that a word may begin here. -/
def titleFrom (fresh : Bool) : List Char → List Char
  | [] => []
  | c :: cs =>
    if isPunctuation c || Text.isBlank c then c :: titleFrom true cs
    else if fresh then Text.upperChar c ++ titleFrom false cs
    else Text.lowerChar c ++ titleFrom false cs

/-- Begins with a capital letter and goes on with small ones. -/
def capitalize : List Char → List Char
  | [] => []
  | c :: cs => Text.upperChar c ++ Text.toLower cs

/-- Trims white space, or the characters that are given. -/
def trim : Filter := fun s args =>
  (do
    let text ← Taking.text s
    let chars ← Taking.text?
    let isTrimmed := match chars with
      | some chars => chars.toList.contains
      | none => Text.isBlank
    pure (ofChars (Text.trimChars isTrimmed text.toList)) : Taking Value).run args.all

/-- Replaces every occurrence of a text. -/
def replace : Filter := fun s args =>
  (do
    let text ← Taking.text s
    let old ← Taking.text s
    let new ← Taking.text s
    pure (ofChars (Text.replaceAll old.toList new.toList text.toList)) : Taking Value).run args.all

/-- The number of characters, items or entries, where it is known before the end. -/
def length : Filter :=
  onValue fun _ v =>
    match v with
    | .string text => .ok (.int text.length)
    | .list items | .iterable none items => .ok (.int items.length)
    | .map entries => .ok (.int entries.length)
    | _ => .error .invalidOperation

/-- Joins texts; a separator stands between two texts unless nothing but empty ones came before. -/
def joinWith (sep : String) (texts : List String) : String :=
  texts.foldl (fun joined text => if joined = "" then text else joined ++ sep ++ text) ""

/-- The texts of the items of a value, joined. -/
def join : Filter := fun s args =>
  (do
    let v ← Taking.value
    let sep ← Taking.text?
    let items ← s.asList v
    pure (.string (joinWith (sep.getD "") (items.map Value.display))) : Taking Value).run args.all

/-- The first character, item or key. -/
def first : Filter :=
  onValue fun s v =>
    match v with
    | .string _ | .list _ | .map _ | .iterable .. => do
      let items ← s.items v
      pure (items.headD (.undefined false))
    | _ => .error .invalidOperation

/-- The last character or item. -/
def last : Filter :=
  onValue fun s v =>
    match v with
    | .string _ | .list _ | .iterable .. => do
      let items ← s.items v
      pure (items.getLast?.getD (.undefined false))
    | _ => .error .invalidOperation

/-- The characters, items or keys in the opposite order. -/
def reverse : Filter :=
  onValue fun _ v =>
    match v with
    | .undefined _ | .none => .ok v
    | .string text => .ok (ofChars text.toList.reverse)
    | .list items | .iterable _ items => .ok (.iterable none items.reverse)
    | .map entries => .ok (.iterable none (entries.reverse.map (·.1)))
    | _ => .error .invalidOperation

/-- The named arguments of a filter; names outside the list are refused. -/
def namedWithin (names : List String) (args : Arguments) : Except Problem Unit :=
  if args.named.all fun entry => names.contains entry.1 then .ok () else .error .tooManyArguments

/-- A named argument, unless it is absent. -/
def named? (name : String) (args : Arguments) : Option Value :=
  (Table.get? name args.named.reverse).filter fun v => !v.isAbsent

/-- A named argument that is a boolean; false if it is not given. -/
def namedBoolean (name : String) (args : Arguments) : Except Problem Bool :=
  match named? name args with
  | some v => Taking.boolean v
  | none => .ok false

/-- A named argument that is a string. -/
def namedString? (name : String) (args : Arguments) : Except Problem (Option String) :=
  match named? name args with
  | some (.string text) => .ok (some text)
  | some _ => .error .invalidOperation
  | none => .ok none

/-- The part of a value under a name or, where the name is a number, at an index. -/
def partOf (v : Value) (name : List Char) : Value :=
  match v with
  | .map entries => (Value.lookup? (ofChars name) entries).getD (.undefined false)
  | .list items | .iterable _ items =>
    match Decimal.natural? 10 name with
    | some n => items.getD n (.undefined false)
    | none => .undefined false
  | _ => .undefined false

/-- The part of a value that a path of names with dots between them leads to. -/
def atPath (path : String) (v : Value) : Value :=
  (Text.splitAll ['.'] path.toList).foldl partOf v

/-- The key by which an item is ordered: its part under a path, if one is given, and a string in
small letters unless case counts. -/
def orderKey (small : List Char → List Char) (path : Option String) (caseCounts : Bool)
    (item : Value) : Value :=
  let v := match path with
    | some path => atPath path item
    | none => item
  match v with
  | .string text => if caseCounts then v else ofChars (small text.toList)
  | v => v

/-- The items in order; items that the order takes for equal stay as they are. -/
def sort : Filter := fun s args => do
  let v ← Taking.value.run args.positional
  let items ← s.asList v
  let caseCounts ← namedBoolean "case_sensitive" args
  let path ← namedString? "attribute" args
  let backwards ← namedBoolean "reverse" args
  namedWithin ["case_sensitive", "attribute", "reverse"] args
  let key := orderKey (·.map Char.toLower) path caseCounts
  let sorted := items.mergeSort fun a b => (key a).compare (key b) != .gt
  pure (.list (if backwards then sorted.reverse else sorted))

/-- The items without those that came before. -/
def distinct (key : Value → Value) (items : List Value) : List Value :=
  (items.foldl (fun (found : List Value × List Value) item =>
    let k := key item
    if found.2.any fun seen => seen.compare k == .eq then found
    else (item :: found.1, k :: found.2)) ([], [])).1.reverse

/-- Each item once, where it first comes. -/
def unique : Filter := fun s args => do
  let v ← Taking.value.run args.positional
  let path ← namedString? "attribute" args
  let caseCounts ← namedBoolean "case_sensitive" args
  namedWithin ["case_sensitive", "attribute"] args
  let items ← s.items v
  pure (.list (distinct (orderKey Text.toLower path caseCounts) items))

/-- The item that no other item takes the place of, from left to right. -/
def extreme (replaces : Ordering → Bool) : Filter :=
  onValue fun s v => do
    match ← s.asList v with
    | [] => pure (.undefined false)
    | item :: rest =>
      pure (rest.foldl (fun found item =>
        if replaces (item.compare found) then item else found) item)

/-- The sum of numbers; undefined items do not count. -/
def sum : Filter :=
  onValue fun s v => do
    let items ← s.items v
    items.foldlM (fun total item =>
      match item with
      | .undefined _ => .ok total
      | .int _ | .float _ => total.add item
      | _ => .error .invalidOperation) (.int 0)

/-- The items as a list. -/
def list : Filter :=
  onValue fun s v => do
    let items ← s.asList v
    pure (.list items)

/-- Another value in place of an undefined one, or of any that counts as false. -/
def default : Filter := fun _ args =>
  (do
    let v ← Taking.value
    let other ← Taking.value?
    let lax ← Taking.boolean?
    if v.isUndefined || (lax.getD false && !v.truthy) then pure (other.getD (.string ""))
    else pure v : Taking Value).run args.all

/-- The nearest integer of 128 bits to the integer part of a number. -/
def clamped (x : Binary64) : Int :=
  match x.truncate? with
  | some n => max (-(Int.pow 2 127)) (min n (Int.pow 2 127 - 1))
  | none => if x.isNaN then 0 else if x.negative then -(Int.pow 2 127) else Int.pow 2 127 - 1

/-- The integer that a value stands for. -/
def int : Filter :=
  onValue fun _ v =>
    match v with
    | .undefined _ | .none => .ok (.int 0)
    | .bool b => .ok (.int b.toNat)
    | .int n => .ok (.int n)
    | .float x => .ok (.int (clamped x))
    | .string text =>
      match (Decimal.integer? 10 text.toList).filter Value.fits with
      | some n => .ok (.int n)
      | none =>
        match Decimal.float? text.toList with
        | some x => .ok (.int (clamped x))
        | none => .error .invalidOperation
    | .list _ | .map _ | .iterable .. | .callable .. => .error .invalidOperation

/-- The floating-point number that a value stands for. -/
def float : Filter :=
  onValue fun _ v =>
    match v with
    | .undefined _ | .none => .ok (.float (.ofInt 0))
    | .string text =>
      match Decimal.float? text.toList with
      | some x => .ok (.float x)
      | none => .error .invalidOperation
    | v =>
      match v.float? with
      | some x => .ok (.float x)
      | none => .error .invalidOperation

/-- The displayed form. -/
def string : Filter :=
  onValue fun _ v => .ok (.string v.display)

/-- Does the value count as true? -/
def bool : Filter :=
  onValue fun _ v => .ok (.bool v.truthy)

/-- The magnitude of a number. -/
def abs : Filter :=
  onValue fun _ v =>
    match v with
    | .int n => if n < 0 then Value.exact (-n) else .ok (.int n)
    | .float x => .ok (.float (.ofFloat x.toFloat.abs))
    | _ => .error .invalidOperation

/-- A number rounded to so many decimal places, halves away from zero. -/
def round : Filter := fun _ args =>
  (do
    let v ← Taking.value
    let places ← Taking.integer? min32 max32
    match v with
    | .int n => pure (.int n)
    | .float x =>
      let scale := Binary64.powInt 10 (places.getD 0)
      pure (.float (.ofFloat ((scale * x.toFloat).round / scale)))
    | _ => throw .invalidOperation : Taking Value).run args.all

/-- Cuts at the first `n` blank characters. -/
def splitBlank (n : Nat) (piece : List Char) : List Char → List (List Char)
  | [] => [piece.reverse]
  | c :: cs =>
    match n with
    | 0 => [piece.reverse ++ c :: cs]
    | n + 1 =>
      if Text.isBlank c then piece.reverse :: splitBlank n [] cs
      else splitBlank (n + 1) (c :: piece) cs

/-- The pieces of a text between separators, or its words, with a limit to the number of cuts.  They
are made while one goes through them, and how many there are is not known before the end. -/
def split : Filter := fun s args =>
  (do
    let text ← Taking.text s
    let sep ← Taking.text?
    let limit ← Taking.integer? min64 max64
    let cs := text.toList
    let pieces := match sep, limit.filter (0 ≤ ·) with
      | none, none => Text.words cs
      | some sep, none => Text.splitAll sep.toList cs
      | none, some n => splitBlank n.toNat [] cs
      | some sep, some n => Text.splitFirst sep.toList cs n.toNat
    pure (.iterable (some (s.label "split")) (pieces.map ofChars)) : Taking Value).run args.all

/-- The text in base sixty-four. -/
def encode : Filter := fun s args => do
  let text ← (Taking.text s).run args.all
  pure (.string (Text.Base64.encodeString text))

/-- The text that a text in base sixty-four stands for. -/
def decode : Filter := fun s args => do
  let text ← (Taking.text s).run args.all
  match Text.Base64.decodeString text with
  | some text => pure (.string text)
  | none => throw .invalidOperation

end Filter

/-- The filters by name. -/
def filters : List (String × Filter) :=
  [("upper", Filter.onText Text.toUpper),
   ("lower", Filter.onText Text.toLower),
   ("title", Filter.onText (Filter.titleFrom true)),
   ("capitalize", Filter.onText Filter.capitalize),
   ("trim", Filter.trim),
   ("replace", Filter.replace),
   ("length", Filter.length),
   ("count", Filter.length),
   ("join", Filter.join),
   ("first", Filter.first),
   ("last", Filter.last),
   ("sort", Filter.sort),
   ("reverse", Filter.reverse),
   ("min", Filter.extreme (· == .lt)),
   ("max", Filter.extreme (· != .lt)),
   ("sum", Filter.sum),
   ("unique", Filter.unique),
   ("list", Filter.list),
   ("default", Filter.default),
   ("d", Filter.default),
   ("int", Filter.int),
   ("float", Filter.float),
   ("string", Filter.string),
   ("bool", Filter.bool),
   ("abs", Filter.abs),
   ("round", Filter.round),
   ("split", Filter.split),
   ("b64encode", Filter.encode),
   ("b64decode", Filter.decode)]

end Runsheet.Expression
