import Runsheet.Duration
import Runsheet.Flow.Predicate
import Runsheet.Flow.Activity

/-!
# Flows and their steps

A flow is a task, a sequence, a set of parallel branches, a repetition or a choice, and its parts
are steps: flows with settings of their own.
-/

namespace Runsheet

/-- The settings of a step.  The delay is in milliseconds. -/
structure Settings where
  name : Option String := none
  data : Option String := none
  vars : Vars := []
  guard : Option String := none
  delay : Nat := 0
  deriving Inhabited

namespace Settings

/-- The text of the guard. -/
def guardText (s : Settings) : String :=
  s.guard.getD ""

/-- Does the guard hold?  It is evaluated with the step's variables over the context, and a step
without a guard passes. -/
def holds (s : Settings) (e : Evaluator) (c : Context) : Except ExpressionError Bool :=
  match s.guard with
  | none => .ok true
  | some guard => c.validate e guard s.vars

end Settings

/-- What a task is told when it runs. -/
structure Brief where
  label : String
  data : Option String := none
  vars : Vars := []

/-- The text of a variable of a task; a null counts as absent. -/
def textOfVar? (vars : Vars) (key : String) : Option String :=
  match Table.get? key vars with
  | none | some .null => none
  | some v => some v.plainText

/-- A kind of task: its name, what it does, and whether a failure of it leaves the sequence around it
running. -/
structure Executable where
  name : String
  behave : Evaluator → Brief → Activity
  isolatesFailure : Bool := false

/-- Where a sequence stands: at the top, where a guard that fails skips its own step, or within,
where it ends the sequence and failures stay inside. -/
inductive SequenceScope
  | playbook
  | block
  deriving DecidableEq, Repr

/-- The name of a scope. -/
def SequenceScope.describe : SequenceScope → String
  | .playbook => "Playbook"
  | .block => "Block"

mutual

/-- What a step does.  The limit of the branches of a parallel flow is in milliseconds, and zero
means that there is none. -/
inductive Flow
  | task (executable : Executable)
  | sequence (name : String) (scope : SequenceScope) (steps : List Step)
  | parallel (name : String) (threads limit : Nat) (branches : List Step)
  | repetition (name : String) (mode : Repetition) (step : Step)
  | choice (name : String) (initial : Step) (predicate : Predicate) (held : Step)
      (otherwise : Option Step)

/-- A flow with settings. -/
inductive Step
  | mk (settings : Settings) (flow : Flow)

end

instance : Inhabited Flow :=
  ⟨.sequence "" .block []⟩

instance : Inhabited Step :=
  ⟨.mk {} default⟩

namespace Flow

/-- The name of a flow. -/
def name : Flow → String
  | .task executable => executable.name
  | .sequence name .. | .parallel name .. | .repetition name .. | .choice name .. => name

/-- Does a failure of the flow leave the sequence around it running?  A kind of task says so itself. -/
def isolatesFailure : Flow → Bool
  | .task executable => executable.isolatesFailure
  | .sequence _ scope _ => scope = .block
  | _ => false

end Flow

namespace Step

/-- The settings of a step. -/
def settings : Step → Settings
  | .mk s _ => s

/-- The flow of a step. -/
def flow : Step → Flow
  | .mk _ f => f

/-- What a step is called: its own name or, without one, that of its flow. -/
def label (s : Step) : String :=
  s.settings.name.getD s.flow.name

/-- What the task of a step is told. -/
def brief (s : Step) : Brief :=
  { label := s.label, data := s.settings.data, vars := s.settings.vars }

/-- Does a failure of the step leave the sequence around it running? -/
def isolatesFailure (s : Step) : Bool :=
  s.flow.isolatesFailure

/-- A step in full, for the log. -/
def describe (s : Step) : String :=
  "TaskContext \x7b executable: " ++ Text.quote s.flow.name ++
    ", data: " ++ describeOption s.settings.data ++
    ", vars: " ++ Json.describeVars s.settings.vars ++
    ", when: " ++ describeOption s.settings.guard ++
    ", delay: " ++ Duration.text s.settings.delay ++ " \x7d"
where
  /-- A text that may be absent. -/
  describeOption : Option String → String
    | none => "None"
    | some text => "Some(" ++ Text.quote text ++ ")"

end Step

end Runsheet
