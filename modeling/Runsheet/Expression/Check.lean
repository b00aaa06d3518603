import Runsheet.Expression.Filter

/-!
# Tests

The tests that expressions can put to a value with `is`.  A test takes the value as its first
argument.  `checks` lists them by name.
-/

namespace Runsheet.Expression

/-- What a test answers about its arguments, of which the first is the value before `is`. -/
abbrev Check :=
  Setting → Arguments → Except Problem Bool

namespace Check

/-- A test of a value alone. -/
def ofValue (p : Value → Bool) : Check := fun _ args => do
  let v ← Taking.value.run args.all
  pure (p v)

/-- A test of the integer that a value is. -/
def ofInteger (p : Int → Bool) : Check :=
  ofValue fun v => v.integer?.any p

/-- A test of two texts. -/
def ofTexts (p : List Char → List Char → Bool) : Check := fun s args =>
  (do
    let text ← Taking.text s
    let part ← Taking.text s
    pure (p part.toList text.toList) : Taking Bool).run args.all

/-- Is one number a multiple of another? -/
def isMultiple (a b : Value) : Bool :=
  match Value.operands? a b with
  | some (.ints m n) => n != 0 && m % n == 0
  | some (.floats x y) => (Binary64.remainder x y).isZero
  | none => false

/-- Is the first argument a multiple of the second? -/
def divisible : Check := fun _ args =>
  (do
    let v ← Taking.value
    let other ← Taking.value
    pure (isMultiple v other) : Taking Bool).run args.all

/-- Is the value a number? -/
def isNumber : Value → Bool
  | .int _ | .float _ => true
  | _ => false

/-- Can one go through the value? -/
def isIterable : Value → Bool
  | .undefined _ | .none | .string _ | .list _ | .map _ | .iterable .. => true
  | .bool _ | .int _ | .float _ | .callable .. => false

end Check

/-- The tests by name. -/
def checks : List (String × Check) :=
  [("defined", Check.ofValue fun v => !v.isUndefined),
   ("undefined", Check.ofValue fun v => v.isUndefined),
   ("none", Check.ofValue fun v => v matches .none),
   ("true", Check.ofValue fun v => v matches .bool true),
   ("false", Check.ofValue fun v => v matches .bool false),
   ("odd", Check.ofInteger fun n => n % 2 != 0),
   ("even", Check.ofInteger fun n => n % 2 == 0),
   ("divisibleby", Check.divisible),
   ("string", Check.ofValue fun v => v matches .string _),
   ("number", Check.ofValue Check.isNumber),
   ("integer", Check.ofValue fun v => v matches .int _),
   ("float", Check.ofValue fun v => v matches .float _),
   ("boolean", Check.ofValue fun v => v matches .bool _),
   ("sequence", Check.ofValue fun v => v matches .list _),
   ("mapping", Check.ofValue fun v => v matches .map _),
   ("iterable", Check.ofValue Check.isIterable),
   ("startingwith", Check.ofTexts List.isPrefixOf),
   ("endingwith", Check.ofTexts List.isSuffixOf)]

end Runsheet.Expression
