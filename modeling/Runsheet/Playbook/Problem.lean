import Runsheet.Json.Problem

/-!
# What can be wrong with a playbook

The causes for which no playbook can be loaded, with their texts.
-/

namespace Runsheet

/-- Why a file cannot be read or written. -/
inductive FileProblem
  | absent
  | occupied
  | notFolder
  | isFolder
  | nameTooLong
  | notText
  | other (text : String)
  deriving DecidableEq, Repr

/-- The text of a problem with a file. -/
def FileProblem.describe : FileProblem → String
  | .absent => "No such file or directory (os error 2)"
  | .occupied => "File exists (os error 17)"
  | .notFolder => "Not a directory (os error 20)"
  | .isFolder => "Is a directory (os error 21)"
  | .nameTooLong => "File name too long (os error 36)"
  | .notText => "stream did not contain valid UTF-8"
  | .other text => text

/-- What does not have the form of a playbook, and where. -/
inductive FormatProblem
  | playbookNotMap
  | several (count : Nat)
  | notScalar (path : String)
  | notTaskList (path : String)
  | notTask (path : String)
  | keyNotText (path : String)
  | notNatural (path key : String)
  | childrenTwice (path : String)
  | varNameNotText (path : String)
  | varsNotMap (path : String)
  | noData (path : String) (problem : Json.Problem)
  deriving DecidableEq, Repr

/-- A word set off in a message. -/
def markedWord (word : String) : String :=
  let mark := String.singleton (Char.ofNat 96)
  mark ++ word ++ mark

/-- The text of a problem with the form. -/
def FormatProblem.describe : FormatProblem → String
  | .playbookNotMap => "a playbook must be a mapping"
  | .several count => "expected one playbook, found " ++ toString count
  | .notScalar path => path ++ ": expected a scalar value"
  | .notTaskList path => path ++ ": expected a list of tasks"
  | .notTask path => path ++ ": a task must be a name or a mapping"
  | .keyNotText path => path ++ ": task keys must be strings"
  | .notNatural path key => path ++ ": " ++ markedWord key ++ " must be a non-negative integer"
  | .childrenTwice path =>
    path ++ ": children given both inline and under " ++ markedWord "tasks"
  | .varNameNotText path => path ++ ": var names must be strings"
  | .varsNotMap path => path ++ ": vars must be a mapping"
  | .noData path problem => path ++ ": " ++ problem.describe

/-- A field that is needed and not there. -/
inductive MissingField
  | playbook
  | id
  | workflow (owner : String)
  | taskId (path : String)
  deriving DecidableEq, Repr

/-- The name of a missing field. -/
def MissingField.describe : MissingField → String
  | .playbook => "playbook"
  | .id => "id"
  | .workflow owner => "workflow in playbook '" ++ owner ++ "'"
  | .taskId path => "task id at " ++ path

/-- Why no playbook can be loaded. -/
inductive LoadError
  | unreadable (problem : FileProblem)
  | malformed
  | format (problem : FormatProblem)
  | missing (field : MissingField)
  deriving DecidableEq, Repr

namespace LoadError

/-- How every message about a malformed document begins. -/
def malformedText : String :=
  "Failed to parse YAML"

/-- The text of an error. -/
def message : LoadError → String
  | .unreadable problem => "Failed to read playbook file: " ++ problem.describe
  | .malformed => malformedText
  | .format problem => "Invalid playbook format: " ++ problem.describe
  | .missing field => "Missing required field: " ++ field.describe

end LoadError

end Runsheet
