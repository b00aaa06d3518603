import Runsheet.Evaluator
import Runsheet.Playbook.Problem

/-!
# Faults

Why a playbook cannot be compiled or its run ends without a report.  A failed task is no fault: it
ends with a report that says so.
-/

namespace Runsheet

/-- Why a run ends without a report. -/
inductive Fault
  | emptyPlaybook (playbook : String)
  | emptyTaskList (task path : String)
  | unexpectedChildren (task path : String)
  | unresolvedTask (task path : String)
  | playbookNotFound (id : String)
  | taskFailed (task message : String)
  | branchFault (branch : Nat) (message : String)
  | poolShutdown
  | expression (error : ExpressionError)
  | loading (error : LoadError)
  | crash (text : Option String)
  deriving DecidableEq, Repr

namespace Fault

/-- What an error of an evaluator comes to: the program breaks off, or it reports the error. -/
def ofError (error : ExpressionError) : Fault :=
  match error.crash? with
  | some text => .crash (some text)
  | none => .expression error

/-- The text of a fault. -/
def message : Fault → String
  | .emptyPlaybook playbook => "Playbook '" ++ playbook ++ "' has no tasks"
  | .emptyTaskList task path =>
    "Task '" ++ task ++ "' at " ++ path ++ " requires a non-empty task list"
  | .unexpectedChildren task path =>
    "Task '" ++ task ++ "' at " ++ path ++ " cannot have nested tasks"
  | .unresolvedTask task path => "No task registered for id '" ++ task ++ "' at " ++ path
  | .playbookNotFound id => "Playbook not found: " ++ id
  | .taskFailed task message => "Task '" ++ task ++ "' failed: " ++ message
  | .branchFault branch message =>
    "Parallel branch " ++ toString branch ++ " faulted: " ++ message
  | .poolShutdown => "Worker pool has been shut down"
  | .expression error => "Expression error: " ++ error.message
  | .loading error => "Parser error: " ++ error.message
  | .crash none => "branch panicked"
  | .crash (some text) => "branch panicked: " ++ text

/-- Is the fault one of those that are found before anything runs? -/
def isCompileFault : Fault → Bool
  | .emptyPlaybook _ | .emptyTaskList .. | .unexpectedChildren .. | .unresolvedTask .. => true
  | _ => false

end Fault

end Runsheet
