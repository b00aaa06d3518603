import Runsheet.Json.Value

/-!
# Playbooks

A playbook is a tree of tasks with variables of its own.  A task does something itself or, if its
identifier is that of a container, holds other tasks; its settings say when, how often and after
what delay it runs.
-/

namespace Runsheet

/-- The identifier of tasks that hold other tasks and run them in order. -/
def blockId : String :=
  "block"

/-- The identifier of tasks that hold other tasks and run them side by side. -/
def parallelId : String :=
  "parallel"

/-- A task.  The delay is in milliseconds; the timeout is in seconds for each branch of a parallel
task, and zero means that there is none. -/
structure Task where
  id : String
  name : Option String := none
  data : Option String := none
  vars : Roster Json := []
  guard : Option String := none
  delay : Nat := 0
  repetitions : Nat := 0
  timeout : Nat := 10
  threads : Nat := 2
  children : List Task := []
  deriving Inhabited

/-- A playbook. -/
structure Playbook where
  id : String
  name : Option String := none
  vars : Roster Json := []
  tasks : List Task := []
  deriving Inhabited

namespace Task

/-- What a task is called: its name or, without one, its identifier. -/
def label (t : Task) : String :=
  t.name.getD t.id

/-- Does the identifier say that the task holds other tasks? -/
def isContainer (t : Task) : Bool :=
  t.id = blockId || t.id = parallelId

mutual

/-- The identifiers of a task and of all tasks within, each before those within it. -/
def ids : Task → List String
  | ⟨id, _, _, _, _, _, _, _, _, children⟩ => id :: idsOfAll children

/-- The identifiers of tasks and of all tasks within. -/
def idsOfAll : List Task → List String
  | [] => []
  | t :: rest => ids t ++ idsOfAll rest

end

end Task

namespace Playbook

/-- What a playbook is called: its name or, without one, its identifier. -/
def label (p : Playbook) : String :=
  p.name.getD p.id

/-- The identifiers of all tasks of the tree. -/
def taskIds (p : Playbook) : List String :=
  Task.idsOfAll p.tasks

/-- Are there no tasks? -/
def isEmpty (p : Playbook) : Bool :=
  p.tasks.isEmpty

end Playbook

end Runsheet
