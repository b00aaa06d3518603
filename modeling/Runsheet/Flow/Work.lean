import Runsheet.Flow.Step

/-!
# The work of a flow

The activity that a step is.  A guard is evaluated before the delay, on the context of that moment.
A sequence stops at the first failure that is not contained; parallel branches share the permits of
a pool that serves one batch and is closed after it; a repetition looks at its guard once.
-/

namespace Runsheet

open Activity

/-- Goes on as the guard of a step says; a guard that cannot be evaluated is a fault. -/
def Settings.check (s : Settings) (e : Evaluator) (next : Bool → Activity) : Activity :=
  look fun w =>
    match s.holds e w.context with
    | .ok b => next b
    | .error error => fail (.ofError error)

namespace Activity

/-- Adds an event and goes on. -/
def note (level : Level) (text : String) (a : Activity) : Activity :=
  change (fun w => w.note level text) a

/-- Ends with a report. -/
def report (r : Report) : Activity :=
  .done (.ok r)

/-- Waits for the delay of a step before its work. -/
def delayed (label : String) (ms : Nat) (a : Activity) : Activity :=
  let start := note .debug ("Executing " ++ label) a
  if ms = 0 then start
  else
    note .debug ("Delaying " ++ label ++ " by " ++ Duration.text ms) (.sleep ms fun _ => start)

/-- The threads of a pool: at least one, and at most as many as there can be permits. -/
def threadsOf (threads : Nat) : Nat :=
  min (max threads 1) (Nat.pow 2 61 - 1)

/-- The limit of a branch, where zero means that there is none. -/
def limitOf? (limit : Nat) : Option Nat :=
  if limit = 0 then none else some limit

/-- The report of a branch that did not end within its limit. -/
def lateReport (label : String) (limit : Nat) : Report :=
  .failed (label ++ " timed out after " ++ Duration.text limit)

/-- The work of a branch under a limit: it has failed if it does not end within the limit. -/
def limited (limit index : Nat) (label : String) (work : Activity) : Activity :=
  match limitOf? limit with
  | none => work
  | some limit =>
    .within limit work fun
      | some o => .done o
      | none =>
        note .warn ("Branch " ++ toString index ++ " (" ++ label ++ ") timed out after " ++
          Duration.text limit) (report (lateReport label limit))

/-- A step as a branch: without effect if its guard fails, and under the limit otherwise. -/
def branch (e : Evaluator) (limit index : Nat) (label : String) (s : Settings) (work : Activity) :
    Activity :=
  s.check e fun
    | false =>
      note .warn ("Skipping branch " ++ toString index ++ " (" ++ label ++
        "), condition not met: " ++ s.guardText) (report .completed)
    | true => limited limit index label work

/-- What follows the branches of a batch: the pool is closed, and the batch ends with their reports
or with the fault that was read first.  A report that is missing is a fault, too. -/
def conclude (name : String) (pool : Pool) (count : String) : Reading → Activity
  | .error (index, fault) =>
    let fault := Fault.branchFault index fault.message
    note .error fault.message <|
    change (fun w => (w.note .debug "Shutting down worker pool").close pool) (fail fault)
  | .ok reports =>
    change (fun w => (w.note .debug "Shutting down worker pool").close pool) <|
    match gatherFrom 0 reports with
    | .error fault => fail fault
    | .ok reports =>
      let ok := toString (reports.countP fun r => !r.isFailed)
      note .info (name ++ " finished: " ++ ok ++ " of " ++ count ++ " branches completed")
        (report (.parallel reports))

/-- Runs a batch of branches on the pool of a parallel flow, and closes the pool.  No branch has asked
for a permit when the batch splits. -/
def batch (name : String) (pool : Pool) (threads limit : Nat) (branches : List Activity) :
    Activity :=
  let threads := threadsOf threads
  let count := toString branches.length
  look fun w =>
    if w.isClosed pool then fail .poolShutdown
    else
      note .debug
        ("Executing " ++ count ++ " branches on " ++ toString threads ++ " workers, timeout " ++
          Duration.limitText (limitOf? limit)) <|
      .fork (.opening pool threads branches.length) (branches.map .fresh) (conclude name pool count)

/-- Repeats an activity at least once, and at most `left` times; beyond that it counts as work that goes
on for ever. -/
def rounds (mode : Repetition) (label : String) (body : Activity) (count : Nat) : Nat → Activity
  | 0 => .never
  | left + 1 =>
    body.onReport fun r =>
      look fun w =>
        if mode.again (count + 1) w r then rounds mode label body (count + 1) left
        else note .debug (label ++ " ran " ++ toString (count + 1) ++ " times") (report r)

/-- A bound on the repetitions of a mode: the number of times or, for a repetition that goes on
while a test holds, the patience of the run. -/
def roundsOf (patience : Nat) : Repetition → Nat
  | .times n => max n 1
  | .whileHolds _ => patience

end Activity

section

variable (e : Evaluator) (patience : Nat)

mutual

/-- The work of a flow at a place in the tree, for a step with a brief. -/
def Flow.work (place : Pool) (brief : Brief) : Flow → Activity
  | .task executable => executable.behave e brief
  | .sequence name scope steps => Flow.sequenceWork name scope none place 0 steps
  | .parallel name threads limit branches =>
    batch name place threads limit (Flow.branchWorks limit place 0 branches)
  | .repetition _ mode (.mk s flow) =>
    let step := Step.mk s flow
    s.check e fun
      | false =>
        note .warn ("Not repeating " ++ step.label ++ ", condition not met: " ++ s.guardText)
          (report (.failed ("condition not met: " ++ s.guardText)))
      | true =>
        rounds mode step.label
          (delayed step.label s.delay (Flow.work (0 :: place) step.brief flow)) 0
          (roundsOf patience mode)
  | .choice name initial predicate held otherwise =>
    (Step.work (0 :: place) initial).onReport fun r =>
      look fun w =>
        if predicate.passes w r then
          note .debug (name ++ ": predicate held, running " ++ held.label)
            (Step.work (1 :: place) held)
        else Flow.otherwiseWork name r (2 :: place) otherwise

/-- The work of the second part of a choice; without one, the first report stands. -/
def Flow.otherwiseWork (name : String) (r : Report) (place : Pool) : Option Step → Activity
  | none => report r
  | some step =>
    note .debug (name ++ ": predicate failed, running " ++ step.label) (Step.work place step)

/-- The work of the steps of a sequence from an index on; `last` is the report of the step that ran
last. -/
def Flow.sequenceWork (name : String) (scope : SequenceScope) (last : Option Report) (place : Pool)
    (index : Nat) : List Step → Activity
  | [] => report (last.getD .completed)
  | .mk s flow :: rest =>
    let step := Step.mk s flow
    s.check e fun
      | false =>
        match scope with
        | .block =>
          note .warn ("Ending " ++ name ++ ", condition not met for " ++ step.label ++ ": " ++
            s.guardText) (report (last.getD .completed))
        | .playbook =>
          note .warn ("Skipping " ++ step.label ++ ", condition not met: " ++ s.guardText)
            (Flow.sequenceWork name scope last place (index + 1) rest)
      | true =>
        (delayed step.label s.delay (Flow.work (index :: place) step.brief flow)).onReport fun r =>
          if r.isFailed && !step.isolatesFailure then
            note .warn ("Work unit '" ++ step.label ++
              "' has failed, skipping subsequent work units in " ++ name) (report r)
          else
            note .debug (step.label ++ " finished with " ++ r.status.text)
              (Flow.sequenceWork name scope (some r) place (index + 1) rest)

/-- The works of branches from an index on. -/
def Flow.branchWorks (limit : Nat) (place : Pool) (index : Nat) : List Step → List Activity
  | [] => []
  | .mk s flow :: rest =>
    let step := Step.mk s flow
    branch e limit index step.label s
        (delayed step.label s.delay (Flow.work (index :: place) step.brief flow)) ::
      Flow.branchWorks limit place (index + 1) rest

/-- The work of a step at a place in the tree, whatever its guard says. -/
def Step.work (place : Pool) : Step → Activity
  | .mk s flow =>
    let step := Step.mk s flow
    delayed step.label s.delay (Flow.work place step.brief flow)

end

end

/-- How many pauses and rounds a run may have before it counts as one without end. -/
def patience : Nat :=
  Nat.pow 10 9

/-- Runs an activity on a world from its beginning on; none if it has no end. -/
def World.run (w : World) (a : Activity) : Option (Outcome × World) :=
  a.run patience w.renew

/-- Runs a step, whatever its guard says. -/
def Step.run (s : Step) (e : Evaluator) (w : World) : Option (Outcome × World) :=
  w.run (s.work e patience [])

end Runsheet
