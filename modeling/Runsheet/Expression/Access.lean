import Runsheet.Expression.Arithmetic

/-!
# Parts of values

Attributes, items and slices.  What is not there is undefined; looking into something undefined is
a problem.
-/

namespace Runsheet.Expression.Value

/-- The entry of a map under a name; other values have no attributes. -/
def member (object : Value) (name : String) : Result :=
  match object with
  | .undefined _ => .error .undefinedValue
  | .map entries => .ok ((lookup? (.string name) entries).getD (.undefined false))
  | _ => .ok (.undefined false)

/-- The item at an index; a negative index counts from the end. -/
def itemAt {α : Type} (xs : List α) (n : Int) : Option α :=
  let i := if n < 0 then n + xs.length else n
  if i < 0 then Option.none else xs[i.toNat]?

/-- The item of a sequence or a string at an index, or the entry of a map under a key.  The items of
a sequence whose length is not known cannot be counted from the end. -/
def item (object key : Value) : Result :=
  match object with
  | .undefined _ => .error .undefinedValue
  | .map entries => .ok ((lookup? key entries).getD (.undefined false))
  | .list items => .ok ((key.integer?.bind (itemAt items)).getD (.undefined false))
  | .string s =>
    .ok ((key.integer?.bind (itemAt s.toList)).elim (.undefined false)
      fun c => .string (String.singleton c))
  | .iterable unsized items =>
    let index := key.integer?.filter fun n => unsized.isNone || 0 ≤ n
    .ok ((index.bind (itemAt items)).getD (.undefined false))
  | _ => .ok (.undefined false)

/-- Every so-and-so-many-th item, from the first on; `skip` items still are to be left out. -/
def everyFrom {α : Type} (step : Nat) : Nat → List α → List α
  | _, [] => []
  | 0, x :: xs => x :: everyFrom step (step - 1) xs
  | skip + 1, _ :: xs => everyFrom step skip xs

/-- The place that a bound of a slice means; a negative bound counts from the end. -/
def place (length : Nat) (bound : Int) : Nat :=
  (if bound < 0 then bound + length else bound).toNat

/-- The items from one bound up to but without another, in steps. -/
def sliceUp {α : Type} (xs : List α) (start stop : Option Int) (step : Nat) : List α :=
  let first := start.elim 0 (place xs.length)
  let last := stop.elim xs.length (place xs.length)
  everyFrom step 0 ((xs.take last).drop first)

/-- The items from one bound down to but without another, in steps.  A lower bound of zero counts
as left out. -/
def sliceDown {α : Type} (xs : List α) (start stop : Option Int) (step : Nat) : List α :=
  let first := min (start.elim xs.length (place xs.length)) (xs.length - 1)
  let last := stop.elim 0 (place xs.length)
  let upper := xs.take (first + 1)
  everyFrom step 0 ((if last = 0 then upper else upper.drop (last + 1)).reverse)

/-- The items between bounds, in steps of either direction. -/
def sliceItems {α : Type} (xs : List α) (start stop : Option Int) (step : Int) : List α :=
  if step < 0 then sliceDown xs start stop step.natAbs else sliceUp xs start stop step.toNat

/-- The bound of a slice that a value is; none stands for a bound that is left out. -/
def bound (v : Option Value) : Except Problem (Option Int) :=
  match v with
  | Option.none | some .none => .ok Option.none
  | some v =>
    match v.integer? with
    | some n =>
      if -(Int.pow 2 63) ≤ n && n < Int.pow 2 63 then .ok (some n) else .error .invalidOperation
    | Option.none => .error .invalidOperation

/-- A slice of a string or a sequence.  Out of a sequence it is made while one goes through it. -/
def slice (object : Value) (start stop step : Option Value) : Result := do
  let start ← bound start
  let stop ← bound stop
  let step ← bound step
  let step := step.getD 1
  if step = 0 then throw .invalidOperation
  match object with
  | .undefined _ | .none => pure (.list [])
  | .string s => pure (.string (String.ofList (sliceItems s.toList start stop step)))
  | .list items => pure (.iterable Option.none (sliceItems items start stop step))
  | .iterable unsized items => pure (.iterable unsized (sliceItems items start stop step))
  | _ => throw .invalidOperation

end Runsheet.Expression.Value
