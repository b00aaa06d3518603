import Runsheet.Engine.Plan
import Runsheet.Proofs.Interleaving

/-!
# The meaning of a playbook

What a playbook does, read off its tasks one by one, without a plan, a log or pools that are closed.  A
list of tasks is executed from left to right.  Before a task its guard is looked at: at the top a guard
that fails skips the task, and within a block it ends the list.  A task whose guard passes waits for its
delay first.  A failure ends the list with its report, unless it is one that stays within its task, as
that of a block does.  A task that is repeated is executed whatever its guard says, and looks at it once
by itself.

The place of a task is that of its step in a plan; the meaning of a playbook does not depend on places.
-/

namespace Runsheet

namespace Activity

/-- Waits, and goes on. -/
def after (ms : Nat) (a : Activity) : Activity :=
  if ms = 0 then a else .sleep ms fun _ => a

/-- Does the same a number of times; the last report counts. -/
def times (a : Activity) (last : Report) : Nat → Activity
  | 0 => report last
  | n + 1 => a.onReport fun r => times a r n

/-- Fails if the work does not end within a limit, where zero means that there is none. -/
def inTime (limit : Nat) (label : String) (a : Activity) : Activity :=
  if limit = 0 then a
  else
    .within limit a fun
      | some o => .done o
      | none => report (.failed (label ++ " timed out after " ++ Duration.text limit))

/-- Does several things side by side, on a number of permits.  It comes to the reports, or to the fault
of the one that is known to have faulted first. -/
def sideBySide (place : Pool) (threads : Nat) (branches : List Activity) : Activity :=
  .fork (.opening place (threadsOf threads) branches.length) (branches.map .fresh) fun
    | .error (index, fault) => fail (.branchFault index fault.message)
    | .ok reports => .done ((gatherFrom 0 reports).map .parallel)

end Activity

open Activity

namespace Task

/-- Does the task do something itself, more than once or with a guard of its own? -/
def isRepeated (t : Task) : Bool :=
  !t.isContainer && t.repetitions != 0

/-- Is the task a block? -/
def isBlock (t : Task) : Bool :=
  t.id = blockId

/-- Does a failure of the task stay within it?  That of a block does, and a kind of task can say so of
itself. -/
def isolates (r : Registry) (t : Task) : Bool :=
  t.isBlock || !t.isContainer && ((r.resolve? t.id).map Executable.isolatesFailure).getD false

/-- What a task is called that does not end in time. -/
def title (r : Registry) (t : Task) : String :=
  if t.isContainer then t.label
  else t.name.getD (((r.resolve? t.id).map Executable.name).getD t.id)

/-- Goes on as the guard of the task says, over the context and the variables of the task. -/
def guarded (e : Evaluator) (t : Task) (next : Bool → Activity) : Activity :=
  match t.guard with
  | none => next true
  | some text =>
    look fun w =>
      match e.validate text (Table.override w.context.values (Table.ofList t.vars)) with
      | .ok b => next b
      | .error error => fail (.ofError error)

/-- Does the work of a task as often as the task says, if its guard passes. -/
def repeated (e : Evaluator) (t : Task) (once : Activity) : Activity :=
  t.guarded e fun
    | false => report (.failed ("condition not met: " ++ t.guard.getD ""))
    | true => times once .completed t.repetitions

section

variable (r : Registry) (e : Evaluator) (stays : Task → Bool)

/-- What a task does beside others.  It has completed if its guard fails, and is executed under a limit
otherwise. -/
def branch (limit : Nat) (t : Task) (once : Activity) : Activity :=
  if t.isRepeated then inTime limit t.label (t.repeated e once)
  else
    t.guarded e fun
      | false => report .completed
      | true => inTime limit (t.title r) once

mutual

/-- What a task does whose guard has passed, after its delay. -/
def execute (place : Pool) : Task → Activity
  | ⟨id, name, data, vars, _, _, _, timeout, threads, children⟩ =>
    if id = blockId then executeList .block .completed place 0 children
    else if id = parallelId then
      sideBySide place threads (executeBranches (timeout * 1000) place 0 children)
    else
      match r.resolve? id with
      | none => fail (.unresolvedTask id id)
      | some x => x.behave e { label := name.getD x.name, data, vars := Table.ofList vars }

/-- What a list of tasks does, from an index on; `last` is the report of the task that was executed
last, and `stays` says of which tasks a failure stays within. -/
def executeList (scope : SequenceScope) (last : Report) (place : Pool) (index : Nat) :
    List Task → Activity
  | [] => report last
  | t :: rest =>
    let once := after t.delay (execute (index :: place) t)
    if t.isRepeated then
      (t.repeated e once).onReport fun r =>
        if r.isFailed then report r else executeList scope r place (index + 1) rest
    else
      t.guarded e fun
        | false =>
          if scope = .block then report last
          else executeList scope last place (index + 1) rest
        | true =>
          once.onReport fun r =>
            if r.isFailed && !stays t then report r
            else executeList scope r place (index + 1) rest

/-- What tasks do side by side, from an index on. -/
def executeBranches (limit : Nat) (place : Pool) (index : Nat) : List Task → List Activity
  | [] => []
  | t :: rest =>
    t.branch r e limit (after t.delay (execute (index :: place) t)) ::
      executeBranches limit place (index + 1) rest

end

end

mutual

/-- Is the pool one of the task, which is at a place? -/
def HasPool (q place : Pool) : Task → Prop
  | ⟨id, _, _, _, _, _, _, _, _, children⟩ =>
    id = parallelId ∧ q = place ∨ SomeHasPool q place 0 children

/-- Is the pool one of the tasks, which are at the parts of a place from an index on? -/
def SomeHasPool (q place : Pool) (index : Nat) : List Task → Prop
  | [] => False
  | t :: rest => HasPool q (index :: place) t ∨ SomeHasPool q place (index + 1) rest

end

end Task

namespace Playbook

/-- What a playbook does, if it is said of which tasks a failure stays within. -/
def execute (p : Playbook) (r : Registry) (e : Evaluator) (stays : Task → Bool) : Activity :=
  Task.executeList r e stays .playbook .completed [] 0 p.tasks

/-- Is the pool that of one of the parallel tasks of the playbook? -/
def HasPool (p : Playbook) (q : Pool) : Prop :=
  Task.SomeHasPool q [] 0 p.tasks

end Playbook

end Runsheet
