import Runsheet.Engine.Registry
import Runsheet.Flow.Work
import Runsheet.Playbook.Model

/-!
# Plans

A plan is what a playbook means as steps.  The whole tree is looked at before anything runs: a
container needs tasks within, any other task needs a registered identifier and has none within, and
the first task that is wrong, in the order of the text, is named with its path.
-/

namespace Runsheet

/-- The steps of a playbook. -/
structure Plan where
  id : String
  steps : List Step

namespace Plan

/-- The flow of a plan. -/
def flow (p : Plan) : Flow :=
  .sequence p.id .playbook p.steps

/-- The work of a plan. -/
def work (p : Plan) (e : Evaluator) : Activity :=
  p.flow.work e patience [] { label := p.id }

/-- The settings that a task gives to its step. -/
def settingsOf (t : Task) : Settings :=
  { name := t.name, data := t.data, vars := Table.ofList t.vars, guard := t.guard,
    delay := t.delay }

/-- The path of a task in a list of tasks. -/
def itemPath (path : String) (index : Nat) : String :=
  path ++ "[" ++ toString index ++ "]"

/-- The step of a task that runs once, or is repeated. -/
def leaf (t : Task) (x : Executable) : Step :=
  let step := Step.mk (settingsOf t) (.task x)
  if t.repetitions = 0 then step
  else .mk { name := some t.label } (.repetition t.label (.times t.repetitions) step)

section

variable (r : Registry)

mutual

/-- The step of a task at a path. -/
def stepOf (path : String) : Task → Except Fault Step
  | ⟨id, name, data, vars, guard, delay, repetitions, timeout, threads, children⟩ =>
    let t : Task :=
      ⟨id, name, data, vars, guard, delay, repetitions, timeout, threads, children⟩
    if t.isContainer then
      match children with
      | [] => .error (.emptyTaskList id path)
      | _ :: _ => do
        let steps ← stepsOf (path ++ "." ++ id) 0 children
        let flow :=
          if id = blockId then Flow.sequence blockId .block steps
          else .parallel t.label threads (timeout * 1000) steps
        pure (.mk (settingsOf t) flow)
    else if !children.isEmpty then .error (.unexpectedChildren id path)
    else
      match r.resolve? id with
      | none => .error (.unresolvedTask id path)
      | some x => .ok (leaf t x)

/-- The steps of tasks from an index on. -/
def stepsOf (path : String) (index : Nat) : List Task → Except Fault (List Step)
  | [] => .ok []
  | t :: rest => do
    let step ← stepOf (itemPath path index) t
    let steps ← stepsOf path (index + 1) rest
    pure (step :: steps)

end

/-- The plan of a playbook. -/
def ofPlaybook (p : Playbook) : Except Fault Plan :=
  if p.isEmpty then .error (.emptyPlaybook p.id)
  else do
    let steps ← stepsOf r p.id 0 p.tasks
    pure ⟨p.id, steps⟩

end

end Plan

end Runsheet
