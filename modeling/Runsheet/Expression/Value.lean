import Runsheet.Json.Problem
import Runsheet.Json.Text

/-!
# Values of expressions

What an expression evaluates to: a data value, nothing defined, a sequence that is made while one
goes through it, or a function.  The keys of a map are values of any kind, kept in the order of
values.  Two relations compare values: `compare` is the order, in which values of different kinds
are ordered by kind, and `same` is the equality that expressions ask for, in which numbers and
booleans are equal when their numbers are.

What the machine shows for a value that it does not show itself is its own matter: a function, and
a sequence whose length is not known before its end, carry a label for that.
-/

namespace Runsheet.Expression

/-- The text that stands for a value that is not shown itself.  It is never empty. -/
abbrev Label :=
  { text : String // text ≠ "" }

/-- The text for a value about which nothing better is known. -/
def Label.function : Label :=
  ⟨"function", by decide⟩

/-- A value of an expression.  An undefined value is quiet if it stands for a choice without an
alternative; a quiet one may be used where undefined values are refused.  A sequence that is made
while one goes through it has a label if its length is not known before its end. -/
inductive Value
  | undefined (quiet : Bool)
  | none
  | bool (b : Bool)
  | int (n : Int)
  | float (x : Binary64)
  | string (s : String)
  | list (items : List Value)
  | map (entries : List (Value × Value))
  | iterable (unsized : Option Label) (items : List Value)
  | callable (name : String) (label : Label)
  deriving Inhabited

namespace Value

/-- The place of a value's kind in the order of kinds. -/
def kind : Value → Nat
  | .undefined _ => 0
  | .none => 1
  | .bool _ => 2
  | .int _ | .float _ => 3
  | .string _ => 4
  | .list _ => 5
  | .map _ => 6
  | .iterable .. => 7
  | .callable .. => 8

/-- Is the value undefined? -/
def isUndefined : Value → Bool
  | .undefined _ => true
  | _ => false

/-- Does the value stand for something left out: undefined or none? -/
def isAbsent : Value → Bool
  | .undefined _ | .none => true
  | _ => false

/-- Every value counts as true except false, zeros, what is empty, and what is absent.  A sequence
whose length is not known does not count as empty. -/
def truthy : Value → Bool
  | .undefined _ | .none => false
  | .bool b => b
  | .int n => n != 0
  | .float x => !x.isZero
  | .string s => s != ""
  | .list items => !items.isEmpty
  | .map entries => !entries.isEmpty
  | .iterable Option.none items => !items.isEmpty
  | .iterable (some _) _ | .callable .. => true

/-- Compares a floating-point number with an integer.  An integer that is exactly a floating-point
number is compared as one. -/
def compareMixed (x : Binary64) (n : Int) : Ordering :=
  let y := Binary64.ofInt n
  if x.isFinite && y.toInt? != some n then x.compareInt n else compare x.rank y.rank

mutual

/-- The order of values. -/
def compare : Value → Value → Ordering
  | .bool a, .bool b => Ord.compare a.toNat b.toNat
  | .int m, .int n => Ord.compare m n
  | .float x, .float y => Ord.compare x.rank y.rank
  | .float x, .int n => compareMixed x n
  | .int n, .float x => (compareMixed x n).swap
  | .string s, .string t => Ord.compare s t
  | .list xs, .list ys => compareItems xs ys
  | .map xs, .map ys => compareEntries xs ys
  | .iterable _ xs, .iterable _ ys => compareItems xs ys
  | .callable _ s, .callable _ t => Ord.compare s.1 t.1
  | a, b => Ord.compare a.kind b.kind

/-- The order of lists: that of the first items that differ. -/
def compareItems : List Value → List Value → Ordering
  | [], [] => .eq
  | [], _ :: _ => .lt
  | _ :: _, [] => .gt
  | x :: xs, y :: ys => (compare x y).then (compareItems xs ys)

/-- The order of maps: that of the first entries that differ. -/
def compareEntries : List (Value × Value) → List (Value × Value) → Ordering
  | [], [] => .eq
  | [], _ :: _ => .lt
  | _ :: _, [] => .gt
  | (k, x) :: xs, (l, y) :: ys =>
    ((compare k l).then (compare x y)).then (compareEntries xs ys)

end

/-- The integer that a value counts as in arithmetic. -/
def count? : Value → Option Int
  | .bool b => some b.toNat
  | .int n => some n
  | _ => Option.none

/-- The floating-point number that a value counts as in arithmetic. -/
def float? : Value → Option Binary64
  | .float x => some x
  | v => v.count?.map Binary64.ofInt

mutual

/-- The equality of values: numbers and booleans are equal by value, and sequences of either make
item by item. -/
def same : Value → Value → Bool
  | .undefined _, .undefined _ => true
  | .none, .none => true
  | .string s, .string t => s == t
  | .list xs, .list ys | .list xs, .iterable _ ys | .iterable _ xs, .list ys
  | .iterable _ xs, .iterable _ ys => sameItems xs ys
  | .callable _ s, .callable _ t => s.1 == t.1
  | .map xs, .map ys => sameEntries xs ys
  | .float x, .float y => x.toFloat == y.toFloat
  | .float x, b => b.count?.any fun n => x.toInt? == some n
  | a, .float y => a.count?.any fun n => y.toInt? == some n
  | a, b => a.count?.isSome && a.count? == b.count?

/-- Equality of lists, item by item. -/
def sameItems : List Value → List Value → Bool
  | [], [] => true
  | x :: xs, y :: ys => same x y && sameItems xs ys
  | _, _ => false

/-- Equality of maps, entry by entry. -/
def sameEntries : List (Value × Value) → List (Value × Value) → Bool
  | [], [] => true
  | (k, x) :: xs, (l, y) :: ys => same k l && same x y && sameEntries xs ys
  | _, _ => false

end

/-- Puts an entry into a map; a key that the order takes for equal is replaced. -/
def insertEntry (key value : Value) : List (Value × Value) → List (Value × Value)
  | [] => [(key, value)]
  | (k, v) :: rest =>
    match compare key k with
    | .lt => (key, value) :: (k, v) :: rest
    | .eq => (k, value) :: rest
    | .gt => (k, v) :: insertEntry key value rest

/-- The map of a list of entries; of two entries under one key the later one counts. -/
def ofEntries (entries : List (Value × Value)) : Value :=
  .map (entries.foldl (fun found entry => insertEntry entry.1 entry.2 found) [])

/-- The entry of a map under a key. -/
def lookup? (key : Value) (entries : List (Value × Value)) : Option Value :=
  (entries.find? fun e => compare key e.1 == .eq).map (·.2)

mutual

/-- The value that a data value is. -/
def ofJson : Json → Value
  | .null => .none
  | .bool b => .bool b
  | .number (.int n) => .int n
  | .number (.float x) => .float x
  | .string s => .string s
  | .array items => .list (ofJsonItems items)
  | .object fields => .map (ofJsonFields fields)

/-- The values of the items of a list. -/
def ofJsonItems : List Json → List Value
  | [] => []
  | item :: rest => ofJson item :: ofJsonItems rest

/-- The entries of the fields of an object. -/
def ofJsonFields : List (String × Json) → List (Value × Value)
  | [] => []
  | (key, value) :: rest => (.string key, ofJson value) :: ofJsonFields rest

end

/-- The text of a key of an object: strings, numbers, booleans and functions have one. -/
def keyText : Value → Except Json.Problem String
  | .string s => .ok s
  | .bool b => .ok (if b then "true" else "false")
  | .int n => .ok (toString n)
  | .float x => if x.isFinite then .ok (Number.float x).text else .error .keyNotFinite
  | .callable _ label => .ok label.1
  | .undefined _ | .none | .list _ | .map _ | .iterable .. => .error .keyNotText

end Value

end Runsheet.Expression
