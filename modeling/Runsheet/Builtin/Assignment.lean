import Runsheet.Builtin.Message
import Runsheet.Decimal.Reader
import Runsheet.Text.Letter
import Runsheet.Text.Search

/-!
# Assigning a value

An assignment is a name, an equals sign and a value.  A value of letters and digits alone stands
for itself: a truth value, an integer that fits 64 bits with a sign, or a text.  Any other value is
an expression.
-/

namespace Runsheet.Builtin

/-- The right side of an assignment. -/
inductive Source
  | literal (value : Json)
  | expression (text : String)
  deriving DecidableEq

/-- The integer that digits write, if it fits 64 bits with a sign. -/
def integerOf? (cs : List Char) : Option Int :=
  match Decimal.natural? 10 cs with
  | some n => if n < Nat.pow 2 63 then some n else none
  | none => none

/-- The value of letters and digits. -/
def literalOf (text : String) : Json :=
  if text = "true" then .bool true
  else if text = "false" then .bool false
  else
    match integerOf? text.toList with
    | some n => .ofInt n
    | none => .string text

/-- The name and the right side of an assignment, if there is an equals sign with a name before
it. -/
def readAssignment? (data : String) : Option (String × Source) := do
  let (before, after) ← Text.cutAt '=' data.toList
  let property := Text.trim (String.ofList before)
  let value := Text.trim (String.ofList after)
  if property = "" then none
  else if value.toList.all Text.isAlphanumeric then some (property, .literal (literalOf value))
  else some (property, .expression value)

/-- The warning about a text that has no value. -/
def evaluationWarning (text : String) (error : ExpressionError) : String :=
  "Failed to evaluate '" ++ text ++ "': " ++ error.message

/-- Stores the value of an assignment in the context. -/
def assign (e : Evaluator) (b : Brief) (w : World) : Outcome × World :=
  match b.data with
  | none => (.ok (.failed "set task has no assignment"), w)
  | some data =>
    match readAssignment? data with
    | none =>
      warned w ("Invalid assignment '" ++ data ++ "', expected " ++ markedWord "name = value")
        ("invalid assignment: " ++ data)
    | some (property, .literal v) => stored property v
    | some (property, .expression text) =>
      match w.context.evaluate e text b.vars with
      | .error error => refused w (evaluationWarning text error) error
      | .ok v => stored property v
where
  stored (property : String) (v : Json) : Outcome × World :=
    (.ok .completed, (w.note .debug ("Setting field: " ++ property ++ "=" ++ v.render)).put property v)

/-- The task that assigns a value. -/
def set : Executable where
  name := "set"
  behave e b := .attempt (assign e b)

end Runsheet.Builtin
