import Runsheet.Proofs.Schedule
import Runsheet.Flow.Work

/-!
# What a report says about its units

A report is a tree: the branches of a parallel step have reports of their own, and at the ends are the
reports of units.  The status and the error of a parallel step are not stored.  One scan over the branches
asks whether one of them has failed, and another one looks for an error text among those that have; both
come to the same unit, the leftmost one that has failed.

* `Report.units` — the reports of units, in the order of the branches;
* `Report.isFailed_eq_any`, `Report.error?_eq_find?` — what each of the two scans finds among them;
* `status_and_error_agree` — the result.
-/

namespace Runsheet

namespace Report

mutual

/-- The reports of the units of a report, in the order of the branches, each branch to its end before the
next one. -/
def units : Report → List Report
  | .completed => [.completed]
  | .failed error => [.failed error]
  | .parallel branches => unitsOf branches

/-- The reports of the units of branches. -/
def unitsOf : List Report → List Report
  | [] => []
  | r :: rest => units r ++ unitsOf rest

end

mutual

/-- Units have no branches. -/
theorem branches?_of_mem_units (r : Report) : ∀ u ∈ r.units, u.branches? = none := by
  match r with
  | .completed => simp [units, branches?]
  | .failed error => simp [units, branches?]
  | .parallel branches => exact branches?_of_mem_unitsOf branches

theorem branches?_of_mem_unitsOf (branches : List Report) :
    ∀ u ∈ unitsOf branches, u.branches? = none := by
  match branches with
  | [] => nofun
  | r :: rest =>
      intro u hu
      rcases List.mem_append.mp hu with hfirst | hlater
      · exact branches?_of_mem_units r u hfirst
      · exact branches?_of_mem_unitsOf rest u hlater

end

/-- A unit that has failed says why. -/
theorem exists_error_of_unit {u : Report} (hunit : u.branches? = none) (hfailed : u.isFailed = true) :
    ∃ text, u = .failed text := by
  cases u with
  | completed => cases hfailed
  | failed text => exact ⟨text, rfl⟩
  | parallel branches => cases hunit

mutual

/-- **The scan for failures** finds one if one of the units has failed. -/
theorem isFailed_eq_any (r : Report) : r.isFailed = r.units.any isFailed := by
  match r with
  | .completed => rfl
  | .failed error => rfl
  | .parallel branches =>
      rw [isFailed, units]
      exact anyFailed_eq_any_units branches

theorem anyFailed_eq_any_units (branches : List Report) :
    anyFailed branches = (unitsOf branches).any isFailed := by
  match branches with
  | [] => rfl
  | r :: rest =>
      rw [anyFailed, unitsOf, List.any_append, isFailed_eq_any r, anyFailed_eq_any_units rest]

end

/-- Nothing is found among the units of a report that has not failed. -/
theorem find?_units_of_sound {r : Report} (hsound : r.isFailed = false) :
    r.units.find? isFailed = none := by
  rw [isFailed_eq_any, List.any_eq_false] at hsound
  exact List.find?_eq_none.mpr hsound

/-- The first failure among the units of a report that has failed is a text. -/
theorem find?_units_of_failed {r : Report} (hfailed : r.isFailed = true) :
    ∃ text, r.units.find? isFailed = some (.failed text) := by
  rw [isFailed_eq_any, List.any_eq_true] at hfailed
  obtain ⟨u, hu⟩ := Option.isSome_iff_exists.mp (List.find?_isSome.mpr hfailed)
  have hunit := branches?_of_mem_units r u (List.mem_of_find?_eq_some hu)
  obtain ⟨text, rfl⟩ := exists_error_of_unit hunit (List.find?_some hu)
  exact ⟨text, hu⟩

mutual

/-- **The scan for an error** finds that of the first unit that has failed. -/
theorem error?_eq_find? (r : Report) : r.error? = (r.units.find? isFailed).bind error? := by
  match r with
  | .completed => rfl
  | .failed error => rfl
  | .parallel branches =>
      rw [error?, units]
      exact firstError?_eq_find? branches

theorem firstError?_eq_find? (branches : List Report) :
    firstError? branches = ((unitsOf branches).find? isFailed).bind error? := by
  match branches with
  | [] => rfl
  | r :: rest =>
      rw [firstError?, unitsOf, List.find?_append, firstError?_eq_find? rest]
      cases hfailed : r.isFailed with
      | false =>
          rw [find?_units_of_sound hfailed]
          rfl
      | true =>
          obtain ⟨text, hfirst⟩ := find?_units_of_failed hfailed
          rw [error?_eq_find? r, hfirst]
          rfl

end

variable {r : Report}

theorem isFailed_iff_exists_unit : r.isFailed = true ↔ ∃ u ∈ r.units, u.isFailed = true := by
  rw [isFailed_eq_any, List.any_eq_true]

/-- **The error of a report** is that of the leftmost unit that has failed. -/
theorem error?_eq_some_iff {text : String} : r.error? = some text ↔
    ∃ before after, r.units = before ++ .failed text :: after ∧ ∀ u ∈ before, u.isFailed = false := by
  rw [error?_eq_find?]
  constructor
  · intro herror
    obtain ⟨u, hfind, htext⟩ := Option.bind_eq_some_iff.mp herror
    obtain ⟨hfailed, before, after, hunits, hbefore⟩ := List.find?_eq_some_iff_append.mp hfind
    have hmem : u ∈ r.units := by
      rw [hunits]
      exact List.mem_append_right _ (List.mem_cons_self ..)
    obtain ⟨_, rfl⟩ := exists_error_of_unit (branches?_of_mem_units r u hmem) hfailed
    cases htext
    exact ⟨before, after, hunits, by simpa using hbefore⟩
  · rintro ⟨before, after, hunits, hbefore⟩
    have hfind : r.units.find? isFailed = some (.failed text) :=
      List.find?_eq_some_iff_append.mpr ⟨rfl, before, after, hunits, by simpa using hbefore⟩
    rw [hfind]
    rfl

/-- A report has an error if and only if it has failed. -/
theorem exists_error_iff : (∃ text, r.error? = some text) ↔ r.isFailed = true := by
  rw [error?_eq_find?]
  cases hfailed : r.isFailed with
  | false =>
      rw [find?_units_of_sound hfailed]
      simp
  | true =>
      obtain ⟨text, hfirst⟩ := find?_units_of_failed hfailed
      rw [hfirst]
      exact iff_of_true ⟨text, rfl⟩ rfl

end Report

open Report

/-- **The status and the error of a report agree.**  For every report, however deep its branches are nested and
however many there are:

* it has failed if and only if it has an error, and if and only if one of its units has failed; and a parallel
  step has failed if and only if not all of its branches have succeeded;
* its error is that of the leftmost unit that has failed.

So it is with the report of every step, whatever its tasks do and whatever turns its branches take. -/
theorem status_and_error_agree :
    (∀ r : Report,
      (r.status = .failed ↔ ∃ text, r.error? = some text) ∧
      (r.status = .failed ↔ ∃ u ∈ r.units, u.branches? = none ∧ u.status = .failed) ∧
      (∀ branches, r = .parallel branches →
        (r.status = .failed ↔ allSucceeded branches = false) ∧
        r.error? = (failedBranches branches).findSome? error?) ∧
      ∀ text, r.error? = some text ↔ ∃ before after, r.units = before ++ .failed text :: after ∧
        ∀ u ∈ before, u.status = .completed) ∧
    ∀ {ordered : Prop} {e : Evaluator} {patience : Nat} {step : Step} {place : Pool} {w v : World}
      {h : List Activity.Turn} {r : Report},
      Activity.Run ordered (step.work e patience place) w h (.done (.ok r)) v →
      (r.status = .failed ↔ ∃ text, r.error? = some text) := by
  have hagree (r : Report) : r.status = .failed ↔ ∃ text, r.error? = some text := by
    rw [status_eq_failed, exists_error_iff]
  refine ⟨fun r => ⟨hagree r, ?_, ?_, fun text => ?_⟩, fun {_ _ _ _ _ _ _ _ r} _ => hagree r⟩
  · rw [status_eq_failed, isFailed_iff_exists_unit]
    simp only [status_eq_failed]
    constructor
    · rintro ⟨u, hu, hfailed⟩
      exact ⟨u, hu, branches?_of_mem_units r u hu, hfailed⟩
    · rintro ⟨u, hu, -, hfailed⟩
      exact ⟨u, hu, hfailed⟩
  · rintro branches rfl
    refine ⟨?_, firstError?_eq_findSome? branches⟩
    rw [status_eq_failed, isFailed, anyFailed_eq_not_allSucceeded, Bool.not_eq_true']
  · simp only [status_eq_completed]
    exact error?_eq_some_iff

/-- The unit within the second branch stands before the third one. -/
example : (Report.parallel [.completed, .parallel [.completed, .failed "late"], .failed "no"]).error? =
    some "late" :=
  rfl

end Runsheet
