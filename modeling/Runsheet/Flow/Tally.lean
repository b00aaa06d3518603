import Runsheet.Fault
import Runsheet.Flow.World
import Runsheet.Report

/-!
# Tallies

The branches of a split, and what is kept about them while they are under way: the permits of their
pool and the line of those that wait for one, the branches that have ended and that nobody has taken
note of yet, and the reports so far.  A branch asks for a permit, waits for it in the line if none is
free, and gives it back when it ends; a closed pool refuses it.  Those that have ended are read one
after the other, in the order in which they ended, and the first fault among them is the last one that
is read.
-/

namespace Runsheet

/-- How work ends: with a report or a fault. -/
abbrev Outcome := Except Fault Report

/-- What comes of a branch: its number and its outcome, or the fault by which it was lost. -/
abbrev Arrival := Except Fault (Nat × Outcome)

/-- What those that ended amount to: their reports so far, by their numbers, or the fault that was read
first, with its branch. -/
abbrev Reading := Except (Nat × Fault) (List (Option Report))

/-- A branch, before and while it works and after. -/
inductive Slot (α : Type)
  /-- It has not asked for a permit. -/
  | fresh (body : α)
  /-- It waits for a permit. -/
  | queued (body : α)
  /-- It has its permit. -/
  | running (body : α)
  /-- It has ended and has no permit any more. -/
  | ended (outcome : Outcome)

namespace Slot

variable {α β : Type}

/-- Has the branch ended? -/
def isEnded : Slot α → Bool
  | .ended _ => true
  | _ => false

/-- A branch with another body. -/
def map (f : α → β) : Slot α → Slot β
  | .fresh body => .fresh (f body)
  | .queued body => .queued (f body)
  | .running body => .running (f body)
  | .ended o => .ended o

end Slot

/-- What is kept about the branches of a split.  `line` holds the numbers of those that wait for a
permit, the one that asked first at its head. -/
structure Tally where
  pool : Pool
  free : Nat
  line : List Nat := []
  arrivals : List Arrival := []
  reports : List (Option Report)

namespace Tally

variable {α : Type}

/-- The tally of a number of branches that have not asked yet. -/
def opening (pool : Pool) (permits count : Nat) : Tally where
  pool := pool
  free := permits
  reports := List.replicate count none

/-- A branch has ended. -/
def arrive (t : Tally) (i : Nat) (o : Outcome) : Tally :=
  { t with arrivals := t.arrivals ++ [.ok (i, o)] }

/-- A branch has ended and gives its permit back. -/
def finish (t : Tally) (i : Nat) (o : Outcome) : Tally :=
  { t.arrive i o with free := t.free + 1 }

/-- What happens to a branch that asks for a permit or waits for one.  Of those that wait the first one
in the line gets the next permit, and one that asks only gets it at once if nobody waits.  A closed pool
refuses them all. -/
def deal (closed : Bool) (i : Nat) (t : Tally) : Slot α → Option (Tally × Slot α)
  | .fresh body =>
    if closed then some (t.arrive i (.error .poolShutdown), .ended (.error .poolShutdown))
    else if t.line = [] ∧ t.free ≠ 0 then some ({ t with free := t.free - 1 }, .running body)
    else some ({ t with line := t.line ++ [i] }, .queued body)
  | .queued body =>
    if closed then
      some ({ t with line := t.line.erase i }.arrive i (.error .poolShutdown),
        .ended (.error .poolShutdown))
    else if t.line.head? = some i ∧ t.free ≠ 0 then
      some ({ t with free := t.free - 1, line := t.line.tail }, .running body)
    else none
  | .running _ | .ended _ => none

/-- The first branch without a report, which counts as the one that was lost. -/
def firstPending (reports : List (Option Report)) : Nat :=
  (reports.findIdx? Option.isNone).getD 0

/-- Takes note of what came of a branch: a report is put in its place, and a fault ends it all. -/
def verdict (reports : List (Option Report)) : Arrival → Reading
  | .ok (i, .ok r) => .ok (reports.set i (some r))
  | .ok (i, .error fault) => .error (i, fault)
  | .error fault => .error (firstPending reports, fault)

/-- Takes note of what came of several branches, up to the first fault. -/
def readFrom (reports : List (Option Report)) : List Arrival → Reading
  | [] => .ok reports
  | arrival :: rest => do
    let reports ← verdict reports arrival
    readFrom reports rest

/-- Takes note of what came of all branches that have ended, up to the first fault. -/
def readAll (t : Tally) : Reading :=
  readFrom t.reports t.arrivals

end Tally

/-- The reports of all branches from a number on; one that is missing is a fault. -/
def gatherFrom (index : Nat) : List (Option Report) → Except Fault (List Report)
  | [] => .ok []
  | none :: _ => .error (.branchFault index "branch produced no report")
  | some r :: rest => do
    let reports ← gatherFrom (index + 1) rest
    pure (r :: reports)

end Runsheet
