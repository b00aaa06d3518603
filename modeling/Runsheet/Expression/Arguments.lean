import Runsheet.Expression.Setting

/-!
# Arguments

The arguments of filters, tests and functions, which are taken one after the other and converted to
what is expected.  An optional argument that is absent counts as not given.
-/

namespace Runsheet.Expression

/-- The evaluated arguments of a call: those without and those with a name. -/
structure Arguments where
  positional : List Value
  named : List (String × Value)

namespace Arguments

/-- All arguments as positional ones: the named ones form a map at the end. -/
def all (a : Arguments) : List Value :=
  if a.named.isEmpty then a.positional
  else a.positional ++ [.ofEntries (a.named.map fun entry => (.string entry.1, entry.2))]

/-- Puts an argument in front. -/
def push (v : Value) (a : Arguments) : Arguments :=
  { a with positional := v :: a.positional }

end Arguments

/-- Takes arguments from the front of a list, or stops with a problem. -/
abbrev Taking :=
  StateT (List Value) (Except Problem)

namespace Taking

/-- The next argument, if there is one. -/
def given? : Taking (Option Value) := do
  match ← get with
  | [] => pure none
  | v :: rest =>
    set rest
    pure (some v)

/-- The next argument. -/
def value : Taking Value := do
  match ← given? with
  | some v => pure v
  | none => throw .missingArgument

/-- The next argument, unless it is absent. -/
def value? : Taking (Option Value) := do
  match ← given? with
  | some v => pure (if v.isAbsent then none else some v)
  | none => pure none

/-- The next argument as text. -/
def text (s : Setting) : Taking String := do
  let v ← value
  s.shown v

/-- The next argument as text, unless it is absent. -/
def text? : Taking (Option String) := do
  let v ← value?
  pure (v.map Value.display)

/-- The integer that a value is, within bounds. -/
def integerWithin (low high : Int) (v : Value) : Except Problem Int :=
  match v.integer? with
  | some n => if low ≤ n && n ≤ high then .ok n else .error .invalidOperation
  | none => .error .invalidOperation

/-- The next argument as an integer within bounds. -/
def integer (low high : Int) : Taking Int := do
  let v ← value
  integerWithin low high v

/-- The next argument as an integer within bounds, unless it is absent. -/
def integer? (low high : Int) : Taking (Option Int) := do
  match ← value? with
  | some v => some <$> (integerWithin low high v : Except Problem Int)
  | none => pure none

/-- The boolean that a value is. -/
def boolean (v : Value) : Except Problem Bool :=
  match v with
  | .bool b => .ok b
  | _ => .error .invalidOperation

/-- The next argument as a boolean, unless it is absent. -/
def boolean? : Taking (Option Bool) := do
  match ← value? with
  | some v => some <$> (boolean v : Except Problem Bool)
  | none => pure none

/-- Runs a reading of arguments, which must take them all. -/
def run {α : Type} (taking : Taking α) (args : List Value) : Except Problem α := do
  let (a, rest) ← StateT.run taking args
  if rest.isEmpty then pure a else throw .tooManyArguments

end Taking

end Runsheet.Expression
