import Runsheet.Calendar
import Runsheet.Expression.Arithmetic

/-!
# The setting of an evaluation

What an evaluation depends on besides its variables: how it treats undefined values, and what it
may learn about the machine it runs on.
-/

namespace Runsheet.Expression

/-- What an evaluation may know.  `label` gives the texts that the machine shows in place of functions
and of sequences without a known length, by name. -/
structure Setting where
  strict : Bool := false
  environment : Table String := []
  hostname : String := "localhost"
  now : Instant := ⟨0⟩
  label : String → Label := fun _ => .function

namespace Setting

/-- A value that is about to be used.  Where undefined values are refused this fails for one. -/
def use (s : Setting) (v : Value) : Value.Result :=
  match v with
  | .undefined false => if s.strict then .error .undefinedValue else .ok v
  | v => .ok v

/-- Does a value count as true? -/
def isTrue (s : Setting) (v : Value) : Except Problem Bool := do
  let v ← s.use v
  pure v.truthy

/-- The text of a value that is about to be used. -/
def shown (s : Setting) (v : Value) : Except Problem String := do
  let v ← s.use v
  pure v.display

/-- The values that one goes through: the characters of a string, the items of a sequence, the keys
of a map, nothing for what is absent. -/
def items (s : Setting) (v : Value) : Except Problem (List Value) := do
  match ← s.use v with
  | .undefined _ | .none => pure []
  | .string text => pure (text.toList.map fun c => .string (String.singleton c))
  | .list items | .iterable _ items => pure items
  | .map entries => pure (entries.map (·.1))
  | .bool _ | .int _ | .float _ | .callable .. => .error .invalidOperation

/-- The values that one goes through; what cannot be gone through is no list. -/
def asList (s : Setting) (v : Value) : Except Problem (List Value) :=
  match s.items v with
  | .ok items => .ok items
  | .error _ => .error .invalidOperation

end Setting

end Runsheet.Expression
