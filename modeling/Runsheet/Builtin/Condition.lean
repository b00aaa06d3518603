import Runsheet.Builtin.Assignment

/-!
# Testing and evaluating

A condition that does not hold, or cannot be evaluated, is a failure.  The value of an expression
is stored under the name that the variable for the result gives, if there is one.
-/

namespace Runsheet.Builtin

/-- Tests a condition. -/
def test (e : Evaluator) (b : Brief) (w : World) : Outcome × World :=
  match b.data with
  | none => warned w "when task has no condition" "when task has no condition"
  | some condition =>
    match w.context.validate e condition b.vars with
    | .ok holds =>
      (.ok (.ofOutcome holds ("condition not met: " ++ condition)),
        w.note .debug ("Condition '" ++ condition ++ "' evaluated to " ++ toString holds))
    | .error error =>
      refused w ("Condition '" ++ condition ++ "' could not be evaluated: " ++ error.message) error

/-- Evaluates an expression, and stores its value if there is a name for it. -/
def calculate (e : Evaluator) (b : Brief) (w : World) : Outcome × World :=
  match b.data with
  | none => (.ok (.failed "evaluate task has no expression"), w)
  | some text =>
    match w.context.evaluate e text b.vars with
    | .error error => refused w (evaluationWarning text error) error
    | .ok v =>
      let w := w.note .debug ("Evaluated '" ++ text ++ "' to " ++ v.render)
      match textOfVar? b.vars "result" with
      | some key => (.ok .completed, w.put key v)
      | none => (.ok .completed, w)

/-- The task that tests a condition. -/
def when : Executable where
  name := "when"
  behave e b := .attempt (test e b)

/-- The task that evaluates an expression. -/
def evaluate : Executable where
  name := "evaluate"
  behave e b := .attempt (calculate e b)

/-- The task that does nothing. -/
def noop : Executable where
  name := "noop"
  behave _ _ := .instant fun w => (.completed, w)

/-- All tasks that are there from the beginning, each under its own name. -/
def all : List Executable :=
  [log, set, when, evaluate, noop]

end Runsheet.Builtin
