import Runsheet.Engine.Plan

/-!
# Engines

An engine holds the kinds of tasks, playbooks and an evaluator, and runs playbooks on a context.
Nothing happens before the plan is there.  The variables of a playbook are then put into the
context, each evaluated over the context as it was given and none over a value that is there.
-/

namespace Runsheet

/-- Tasks, playbooks and an evaluator. -/
structure Engine where
  registry : Registry := Registry.standard
  playbooks : Table Playbook := []
  evaluator : Evaluator := Evaluator.standard {}

namespace Engine

variable (g : Engine)

/-- Stores a playbook under its identifier, in place of the one that was there. -/
def add (p : Playbook) : Engine :=
  { g with playbooks := Table.insert p.id p g.playbooks }

/-- Stores playbooks, one after the other. -/
def addAll (ps : List Playbook) : Engine :=
  ps.foldl add g

/-- The playbook with an identifier. -/
def playbook? (id : String) : Option Playbook :=
  Table.get? id g.playbooks

/-- The identifiers of the playbooks, in order. -/
def ids : List String :=
  Table.keys g.playbooks

/-- The plan of a playbook. -/
def plan (p : Playbook) : Except Fault Plan :=
  Plan.ofPlaybook g.registry p

/-- The value of a playbook's variable over the values of a context. -/
def varValue (initial : Vars) : Json → Except ExpressionError Json
  | .string text =>
    if Evaluator.hasTemplates text then g.evaluator.evaluate text initial else .ok (.string text)
  | v => .ok v

/-- The text of a variable that cannot be evaluated. -/
def varText : Json → String
  | .string text => text
  | v => v.render

/-- Puts one variable of a playbook into the context if it can be evaluated and its name is not
taken. -/
def seedVar (initial : Vars) (w : World) (var : String × Json) : World :=
  match g.varValue initial var.2 with
  | .ok v => { w with context := w.context.putAbsent var.1 v }
  | .error error =>
    w.note .warn ("Skipping var " ++ var.1 ++ ", '" ++ varText var.2 ++
      "' could not be evaluated: " ++ error.message)

/-- Does the program break off when it evaluates a variable of a playbook? -/
def breaksOff (initial : Vars) (vars : Roster Json) : Bool :=
  vars.any fun var =>
    match g.varValue initial var.2 with
    | .ok _ => false
    | .error error => error.crash?.isSome

/-- Puts the variables of a playbook into the context. -/
def seed (vars : Roster Json) (w : World) : World :=
  vars.foldl (g.seedVar w.context.values) w

/-- The world in which the work of a plan begins. -/
def prepare (p : Playbook) (plan : Plan) (w : World) : World :=
  let compiled := "Compiled playbook " ++ p.id ++ " into " ++ toString plan.steps.length ++ " steps"
  (g.seed p.vars (w.note .debug compiled)).note .info ("Running playbook " ++ p.label)

/-- Runs a playbook on a context; none if the run has no end, or if the program breaks off before it
begins. -/
def run (p : Playbook) (c : Context) : Option (Outcome × World) :=
  let w : World := { context := c }
  match g.plan p with
  | .error fault => some (.error fault, w)
  | .ok plan =>
    if g.breaksOff c.values p.vars then none
    else
      match (plan.work g.evaluator).run patience (g.prepare p plan w) with
      | some (.ok r, w) => some (.ok r, w.note .info ("Playbook " ++ p.label ++ " finished"))
      | ending => ending

/-- Runs the playbook with an identifier. -/
def runNamed (id : String) (c : Context) : Option (Outcome × World) :=
  match g.playbook? id with
  | none => some (.error (.playbookNotFound id), { context := c })
  | some p => g.run p c

end Engine

end Runsheet
