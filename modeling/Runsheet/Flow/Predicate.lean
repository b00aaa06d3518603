import Runsheet.Flow.World
import Runsheet.Report

/-!
# Predicates

Tests on reports, by which a flow chooses how to go on, and the ways of repeating a step.  A test of
one's own sees the state of the run as well, with the context that a report stands in.
-/

namespace Runsheet

/-- A test on reports. -/
inductive Predicate
  | alwaysTrue
  | alwaysFalse
  | completed
  | failed
  | looking (test : World → Report → Bool)

namespace Predicate

/-- A test that looks at the report alone. -/
def custom (test : Report → Bool) : Predicate :=
  .looking fun _ => test

/-- Does a report pass, in the state in which it is looked at? -/
def passes : Predicate → World → Report → Bool
  | .alwaysTrue, _, _ => true
  | .alwaysFalse, _, _ => false
  | .completed, _, r => !r.isFailed
  | .failed, _, r => r.isFailed
  | .looking test, w, r => test w r

/-- Does a report pass outside of a run? -/
def holds (p : Predicate) (r : Report) : Bool :=
  p.passes {} r

/-- The name of a predicate. -/
def describe : Predicate → String
  | .alwaysTrue => "AlwaysTrue"
  | .alwaysFalse => "AlwaysFalse"
  | .completed => "Completed"
  | .failed => "Failed"
  | .looking _ => "Custom"

end Predicate

/-- A way of repeating a step: a number of times, or for as long as its reports pass a test.  The
step runs at least once. -/
inductive Repetition
  | times (count : Nat)
  | whileHolds (predicate : Predicate)

namespace Repetition

/-- Does the step run again after its `count`-th report? -/
def again (count : Nat) (w : World) (r : Report) : Repetition → Bool
  | .times n => count < n
  | .whileHolds predicate => predicate.passes w r

/-- The name of a way of repeating. -/
def describe : Repetition → String
  | .times n => "Times(" ++ toString n ++ ")"
  | .whileHolds predicate => "While(" ++ predicate.describe ++ ")"

end Repetition

end Runsheet
