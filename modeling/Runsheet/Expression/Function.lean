import Runsheet.Expression.Arguments

/-!
# Functions

The functions that expressions can call.  `functions` lists them by name.
-/

namespace Runsheet.Expression

/-- What a function gives for its arguments.  The seed is different at every place of a call. -/
abbrev Function :=
  Setting → Nat → Arguments → Value.Result

namespace Function

/-- The greatest integer of 32 bits without a sign. -/
def maxNatural32 : Int := Int.pow 2 32 - 1

/-- How many items a range may have. -/
def maxRange : Nat := 100000

/-- The integers from one up to but without another, in steps. -/
def rangeItems (low high step : Nat) : Value.Result :=
  let count := (high - low + step - 1) / step
  if count ≤ maxRange then
    .ok (.iterable none ((List.range count).map fun i => .int (low + i * step : Nat)))
  else .error .invalidOperation

/-- The integers below a bound, or between two bounds, in steps. -/
def range : Function := fun _ _ args =>
  (do
    let first ← Taking.integer 0 maxNatural32
    let second ← Taking.integer? 0 maxNatural32
    let step ← Taking.integer? 0 maxNatural32
    let (low, high) := match second with
      | some high => (first.toNat, high.toNat)
      | none => (0, first.toNat)
    if step = some 0 then throw .invalidOperation
    else (rangeItems low high ((step.map Int.toNat).getD 1) : Value.Result) : Taking Value).run
      args.all

/-- The digits of an identifier: thirty-two digits in base sixteen in five groups. -/
def identifierText (digits : List Char) : List Char :=
  digits.take 8 ++ '-' :: (digits.drop 8).take 4 ++ '-' :: (digits.drop 12).take 4 ++
    '-' :: (digits.drop 16).take 4 ++ '-' :: digits.drop 20

/-- The digits of a number in base sixteen. -/
def hexPadded (width n : Nat) : List Char :=
  let digits := (Nat.toDigits 16 n).drop ((Nat.toDigits 16 n).length - width)
  List.replicate (width - digits.length) '0' ++ digits

/-- An identifier made from a seed; its version and variant are those of random identifiers. -/
def identifierOf (seed : Nat) : String :=
  let mixed := (seed * 25214903917 + 11) * 6364136223846793005 + 1442695040888963407
  let digits := hexPadded 32 (mixed * mixed % Nat.pow 2 128)
  String.ofList (identifierText (digits.take 12 ++ '4' :: (digits.drop 13).take 3 ++
    'a' :: (digits.drop 17).take 3 ++ digits.drop 20))

/-- A new identifier. -/
def identifier : Function := fun _ seed args => do
  (pure () : Taking Unit).run args.all
  pure (.string (identifierOf seed))

/-- The time in a format. -/
def timestamp : Function := fun s _ args => do
  let format ← Taking.text?.run args.all
  match s.now.format? (format.getD Instant.dateAndTime) with
  | some text => pure (.string text)
  | none => throw .badClockFormat

/-- A variable of the environment, or a default. -/
def env : Function := fun s _ args =>
  (do
    let name ← Taking.text s
    let other ← Taking.text?
    pure (.string ((Table.get? name s.environment).getD (other.getD ""))) : Taking Value).run
      args.all

/-- The name of the machine. -/
def hostname : Function := fun s _ args => do
  (pure () : Taking Unit).run args.all
  pure (.string s.hostname)

end Function

/-- The functions by name. -/
def functions : List (String × Function) :=
  [("range", Function.range),
   ("uuid", Function.identifier),
   ("timestamp", Function.timestamp),
   ("env", Function.env),
   ("hostname", Function.hostname)]

end Runsheet.Expression
