/-!
# Reports

What a piece of work says when it ends: that it is completed, that it has failed and why, or what
each branch of a parallel step says.  The status of a parallel report is not stored but read off
its branches, so the two never disagree.
-/

namespace Runsheet

/-- How work ended. -/
inductive Status
  | completed
  | failed
  deriving DecidableEq, Repr

/-- The text of a status. -/
def Status.text : Status → String
  | .completed => "COMPLETED"
  | .failed => "FAILED"

/-- What a piece of work says when it ends. -/
inductive Report
  | completed
  | failed (error : String)
  | parallel (branches : List Report)
  deriving Inhabited

namespace Report

/-- The report of work that either succeeded or failed with an error. -/
def ofOutcome (succeeded : Bool) (error : String) : Report :=
  if succeeded then .completed else .failed error

mutual

/-- Has the work failed?  A parallel step has as soon as one of its branches has. -/
def isFailed : Report → Bool
  | .completed => false
  | .failed _ => true
  | .parallel branches => anyFailed branches

/-- Has one of the branches failed? -/
def anyFailed : List Report → Bool
  | [] => false
  | r :: rest => isFailed r || anyFailed rest

end

/-- The status of a report. -/
def status (r : Report) : Status :=
  if r.isFailed then .failed else .completed

mutual

/-- The error text of a failed unit or, for a parallel step, of its first failed branch that has
one. -/
def error? : Report → Option String
  | .completed => none
  | .failed error => some error
  | .parallel branches => firstError? branches

/-- The error text of the first failed branch that has one. -/
def firstError? : List Report → Option String
  | [] => none
  | r :: rest =>
    if isFailed r then
      match error? r with
      | some error => some error
      | none => firstError? rest
    else firstError? rest

end

/-- The branches of a parallel report. -/
def branches? : Report → Option (List Report)
  | .parallel branches => some branches
  | _ => none

/-- The branches that have failed. -/
def failedBranches (branches : List Report) : List Report :=
  branches.filter isFailed

/-- Have all branches succeeded? -/
def allSucceeded (branches : List Report) : Bool :=
  branches.all fun r => !r.isFailed

theorem anyFailed_eq_any (branches : List Report) : anyFailed branches = branches.any isFailed := by
  induction branches with
  | nil => rfl
  | cons r rest ih => simp [anyFailed, ih]

theorem anyFailed_eq_not_allSucceeded (branches : List Report) :
    anyFailed branches = !allSucceeded branches := by
  rw [anyFailed_eq_any, allSucceeded, List.all_eq_not_any_not]
  simp

/-- The error of a parallel step is the first one among those of its failed branches. -/
theorem firstError?_eq_findSome? (branches : List Report) :
    firstError? branches = (failedBranches branches).findSome? error? := by
  induction branches with
  | nil => rfl
  | cons r rest ih =>
    rw [firstError?, ih, failedBranches, failedBranches, List.filter_cons]
    cases r.isFailed with
    | false => rfl
    | true =>
      simp only [if_true, List.findSome?_cons]
      cases r.error? <;> rfl

theorem status_eq_failed {r : Report} : r.status = .failed ↔ r.isFailed = true := by
  simp [status]

theorem status_eq_completed {r : Report} : r.status = .completed ↔ r.isFailed = false := by
  simp [status]

end Report

end Runsheet
