import Runsheet.Engine.Plan
import Runsheet.Proofs.Marks
import Runsheet.Proofs.Schedule
import Runsheet.Proofs.Throughout

/-!
# The work of a flow with marks

The activity that a flow is, with a mark on each piece of it: the place of the step that it belongs to,
and whether it looks at a guard, begins an invocation of a task, is part of what the task does, or takes
note of how a step ended.

* `Flow.plain_marked`, `Plan.plain_marked` — without its marks it is the work of the flow;
* `Marked.Run.of_run` — what `run` computes is the end of a run with marks;
* `Flow.marked_only` — all marks of a flow are at its place or below it.
-/

namespace Runsheet

open Activity (threadsOf limitOf? lateReport)

namespace Marked

/-- Goes on as the world says. -/
def look (m : Mark) (next : World → Marked) : Marked :=
  .act m id next

/-- Goes on as the guard of a step says. -/
def check (place : Pool) (s : Settings) (e : Evaluator) (next : Bool → Marked) : Marked :=
  .act ⟨place, .guard s⟩ id fun w =>
    match s.holds e w.context with
    | .ok b => next b
    | .error error => .done (.error (.ofError error))

/-- Adds an event and goes on. -/
def note (m : Mark) (level : Level) (text : String) (s : Marked) : Marked :=
  .act m (fun w => w.note level text) fun _ => s

/-- Ends with a report. -/
def report (r : Report) : Marked :=
  .done (.ok r)

/-- Waits for the delay of a step before its work. -/
def delayed (place : Pool) (first : Purpose) (label : String) (ms : Nat) (s : Marked) : Marked :=
  let start := note ⟨place, first⟩ .debug ("Executing " ++ label) s
  if ms = 0 then start
  else
    note ⟨place, .upkeep⟩ .debug ("Delaying " ++ label ++ " by " ++ Duration.text ms)
      (.sleep ⟨place, .upkeep⟩ ms fun _ => start)

/-- The work of a branch under a limit. -/
def limited (place : Pool) (limit index : Nat) (label : String) (work : Marked) : Marked :=
  match limitOf? limit with
  | none => work
  | some limit =>
    .within ⟨place, .upkeep⟩ limit work fun
      | some o => .done o
      | none =>
        note ⟨place, .late⟩ .warn ("Branch " ++ toString index ++ " (" ++ label ++
          ") timed out after " ++ Duration.text limit) (report (lateReport label limit))

/-- A step as a branch. -/
def branch (place : Pool) (e : Evaluator) (limit index : Nat) (label : String) (s : Settings)
    (work : Marked) : Marked :=
  check place s e fun
    | false =>
      note ⟨place, .upkeep⟩ .warn ("Skipping branch " ++ toString index ++ " (" ++ label ++
        "), condition not met: " ++ s.guardText) (report .completed)
    | true => limited place limit index label work

/-- What follows the branches of a batch. -/
def conclude (name : String) (pool : Pool) (count : String) : Reading → Marked
  | .error (index, fault) =>
    let fault := Fault.branchFault index fault.message
    note ⟨pool, .upkeep⟩ .error fault.message <|
    .act ⟨pool, .upkeep⟩ (fun w => (w.note .debug "Shutting down worker pool").close pool)
      fun _ => .done (.error fault)
  | .ok reports =>
    .act ⟨pool, .upkeep⟩ (fun w => (w.note .debug "Shutting down worker pool").close pool) fun _ =>
    match gatherFrom 0 reports with
    | .error fault => .done (.error fault)
    | .ok reports =>
      let ok := toString (reports.countP fun r => !r.isFailed)
      note ⟨pool, .upkeep⟩ .info
        (name ++ " finished: " ++ ok ++ " of " ++ count ++ " branches completed")
        (report (.parallel reports))

/-- Runs a batch of branches on the pool of a parallel flow, and closes the pool. -/
def batch (name : String) (pool : Pool) (threads limit : Nat) (branches : List Marked) : Marked :=
  let threads := threadsOf threads
  let count := toString branches.length
  .act ⟨pool, .upkeep⟩ id fun w =>
    if w.isClosed pool then .done (.error .poolShutdown)
    else
      note ⟨pool, .upkeep⟩ .debug
        ("Executing " ++ count ++ " branches on " ++ toString threads ++ " workers, timeout " ++
          Duration.limitText (limitOf? limit)) <|
      .fork ⟨pool, .upkeep⟩ (.opening pool threads branches.length) (branches.map .fresh)
        (conclude name pool count)

/-- Repeats an activity at least once, and at most a number of times.  To see whether there is another
round belongs to the step that is repeated. -/
def rounds (place : Pool) (mode : Repetition) (label : String) (body : Marked) (count : Nat) :
    Nat → Marked
  | 0 => .never ⟨place, .upkeep⟩
  | left + 1 =>
    body.onReport fun r =>
      look ⟨0 :: place, .upkeep⟩ fun w =>
        if mode.again (count + 1) w r then rounds place mode label body (count + 1) left
        else
          note ⟨place, .upkeep⟩ .debug (label ++ " ran " ++ toString (count + 1) ++ " times")
            (report r)

end Marked

open Marked

/-- What the first turn of a flow is for: that of a task begins an invocation. -/
def Flow.first : Flow → Purpose
  | .task _ => .invocation
  | _ => .upkeep

section

variable (e : Evaluator) (patience : Nat)

mutual

/-- The work of a flow, with marks. -/
def Flow.marked (place : Pool) (brief : Brief) : Flow → Marked
  | .task executable => (executable.behave e brief).marked ⟨place, .behavior⟩
  | .sequence name scope steps => Flow.markedSequence name scope none place 0 steps
  | .parallel name threads limit branches =>
    batch name place threads limit (Flow.markedBranches limit place 0 branches)
  | .repetition _ mode (.mk s flow) =>
    let step := Step.mk s flow
    check (0 :: place) s e fun
      | false =>
        note ⟨0 :: place, .upkeep⟩ .warn
          ("Not repeating " ++ step.label ++ ", condition not met: " ++ s.guardText)
          (report (.failed ("condition not met: " ++ s.guardText)))
      | true =>
        rounds place mode step.label
          (delayed (0 :: place) flow.first step.label s.delay
            (Flow.marked (0 :: place) step.brief flow)) 0
          (Activity.roundsOf patience mode)
  | .choice name initial predicate held otherwise =>
    (Step.marked (0 :: place) initial).onReport fun r =>
      look ⟨place, .upkeep⟩ fun w =>
        if predicate.passes w r then
          note ⟨place, .upkeep⟩ .debug (name ++ ": predicate held, running " ++ held.label)
            (Step.marked (1 :: place) held)
        else Flow.markedOtherwise name r (2 :: place) otherwise

/-- The work of the second part of a choice, with marks. -/
def Flow.markedOtherwise (name : String) (r : Report) (place : Pool) : Option Step → Marked
  | none => report r
  | some step =>
    note ⟨place, .upkeep⟩ .debug (name ++ ": predicate failed, running " ++ step.label)
      (Step.marked place step)

/-- The work of the steps of a sequence from an index on, with marks. -/
def Flow.markedSequence (name : String) (scope : SequenceScope) (last : Option Report)
    (place : Pool) (index : Nat) : List Step → Marked
  | [] => report (last.getD .completed)
  | .mk s flow :: rest =>
    let step := Step.mk s flow
    check (index :: place) s e fun
      | false =>
        match scope with
        | .block =>
          note ⟨index :: place, .upkeep⟩ .warn ("Ending " ++ name ++ ", condition not met for " ++
            step.label ++ ": " ++ s.guardText) (report (last.getD .completed))
        | .playbook =>
          note ⟨index :: place, .upkeep⟩ .warn
            ("Skipping " ++ step.label ++ ", condition not met: " ++ s.guardText)
            (Flow.markedSequence name scope last place (index + 1) rest)
      | true =>
        (delayed (index :: place) flow.first step.label s.delay
            (Flow.marked (index :: place) step.brief flow)).onReport fun r =>
          if r.isFailed && !step.isolatesFailure then
            note ⟨index :: place, .reported r⟩ .warn ("Work unit '" ++ step.label ++
              "' has failed, skipping subsequent work units in " ++ name) (report r)
          else
            note ⟨index :: place, .reported r⟩ .debug
              (step.label ++ " finished with " ++ r.status.text)
              (Flow.markedSequence name scope (some r) place (index + 1) rest)

/-- The works of branches from an index on, with marks. -/
def Flow.markedBranches (limit : Nat) (place : Pool) (index : Nat) : List Step → List Marked
  | [] => []
  | .mk s flow :: rest =>
    let step := Step.mk s flow
    branch (index :: place) e limit index step.label s
        (delayed (index :: place) flow.first step.label s.delay
          (Flow.marked (index :: place) step.brief flow)) ::
      Flow.markedBranches limit place (index + 1) rest

/-- The work of a step, with marks. -/
def Step.marked (place : Pool) : Step → Marked
  | .mk s flow =>
    let step := Step.mk s flow
    delayed place flow.first step.label s.delay (Flow.marked place step.brief flow)

end

end

/-- The work of a plan, with marks. -/
def Plan.marked (p : Plan) (e : Evaluator) : Marked :=
  p.flow.marked e patience [] { label := p.id }

/-! ### Without marks -/

namespace Marked

variable {place pool : Pool} {e : Evaluator} {s : Settings} {label name : String} {m : Mark}

@[simp] theorem plain_check (next : Bool → Marked) :
    (check place s e next).plain = s.check e fun b => (next b).plain := by
  rw [check, plain, Settings.check, Activity.look]
  congr
  funext w
  cases s.holds e w.context <;> rfl

@[simp] theorem plain_look (next : World → Marked) :
    (look m next).plain = Activity.look fun w => (next w).plain :=
  rfl

@[simp] theorem plain_note (level : Level) (text : String) (s : Marked) :
    (note m level text s).plain = Activity.note level text s.plain :=
  rfl

@[simp] theorem plain_report (r : Report) : (report r).plain = Activity.report r :=
  rfl

@[simp] theorem plain_delayed (first : Purpose) (ms : Nat) (s : Marked) :
    (delayed place first label ms s).plain = Activity.delayed label ms s.plain := by
  unfold delayed Activity.delayed
  split <;> rfl

@[simp] theorem plain_limited (limit index : Nat) (work : Marked) :
    (limited place limit index label work).plain =
      Activity.limited limit index label work.plain := by
  unfold limited Activity.limited
  cases limitOf? limit with
  | none => rfl
  | some limit =>
      simp only [plain]
      congr
      funext o
      cases o <;> rfl

@[simp] theorem plain_branch (limit index : Nat) (work : Marked) :
    (branch place e limit index label s work).plain =
      Activity.branch e limit index label s work.plain := by
  rw [branch, plain_check, Activity.branch]
  congr
  funext b
  cases b <;> simp

theorem plain_conclude (count : String) (reading : Reading) :
    (conclude name pool count reading).plain = Activity.conclude name pool count reading := by
  rcases reading with ⟨index, fault⟩ | reports
  · rfl
  · simp only [conclude, Activity.conclude, plain, Activity.change]
    cases gatherFrom 0 reports <;> rfl

@[simp] theorem plain_batch (threads limit : Nat) (branches : List Marked) :
    (batch name pool threads limit branches).plain =
      Activity.batch name pool threads limit (branches.map plain) := by
  have hslots : plainSlots (branches.map .fresh) = (branches.map plain).map .fresh := by
    rw [plainSlots_eq_map, List.map_map, List.map_map]
    rfl
  rw [batch, Activity.batch, plain, Activity.look, List.length_map]
  congr
  funext w
  split
  · rfl
  · simp only [plain_note, plain, hslots, plain_conclude]

@[simp] theorem plain_rounds (mode : Repetition) (body : Marked) (count left : Nat) :
    (rounds place mode label body count left).plain =
      Activity.rounds mode label body.plain count left := by
  induction left generalizing count with
  | zero => rfl
  | succ left ih =>
      rw [rounds, Activity.rounds, plain_onReport]
      congr
      funext r
      rw [plain_look]
      congr
      funext w
      split
      · exact ih (count + 1)
      · rfl

end Marked

section

variable (e : Evaluator) (patience : Nat)

mutual

/-- **The marks of a flow change nothing.** -/
theorem Flow.plain_marked (place : Pool) (brief : Brief) (f : Flow) :
    (f.marked e patience place brief).plain = f.work e patience place brief := by
  match f with
  | .task x => rw [Flow.marked, Marked.plain_marked, Flow.work]
  | .sequence name scope steps =>
      rw [Flow.marked, Flow.plain_markedSequence name scope none place 0 steps, Flow.work]
  | .parallel name threads limit branches =>
      rw [Flow.marked, plain_batch, Flow.plain_markedBranches limit place 0 branches, Flow.work]
  | .repetition name mode (.mk s flow) =>
      rw [Flow.marked, plain_check, Flow.work]
      congr
      funext b
      cases b with
      | false => rfl
      | true => simp only [plain_rounds, plain_delayed, Flow.plain_marked (0 :: place) _ flow]
  | .choice name initial predicate held otherwise =>
      rw [Flow.marked, plain_onReport, Flow.work, Step.plain_marked (0 :: place) initial]
      congr
      funext r
      rw [plain_look]
      congr
      funext w
      split
      · rw [plain_note, Step.plain_marked (1 :: place) held]
      · exact Flow.plain_markedOtherwise name r (2 :: place) otherwise

theorem Flow.plain_markedOtherwise (name : String) (r : Report) (place : Pool)
    (otherwise : Option Step) : (Flow.markedOtherwise e patience name r place otherwise).plain =
      Flow.otherwiseWork e patience name r place otherwise := by
  match otherwise with
  | none => rw [Flow.markedOtherwise, plain_report, Flow.otherwiseWork]
  | some step =>
      rw [Flow.markedOtherwise, plain_note, Step.plain_marked place step, Flow.otherwiseWork]

theorem Flow.plain_markedSequence (name : String) (scope : SequenceScope) (last : Option Report)
    (place : Pool) (index : Nat) (steps : List Step) :
    (Flow.markedSequence e patience name scope last place index steps).plain =
      Flow.sequenceWork e patience name scope last place index steps := by
  match steps with
  | [] => rw [Flow.markedSequence, plain_report, Flow.sequenceWork]
  | .mk s flow :: rest =>
      have hrest (last : Option Report) :=
        Flow.plain_markedSequence name scope last place (index + 1) rest
      rw [Flow.markedSequence.eq_def, plain_check, Flow.sequenceWork.eq_def]
      congr
      funext b
      cases b with
      | false =>
          cases scope with
          | block => rfl
          | playbook => simp only [plain_note, hrest]
      | true =>
          simp only [plain_onReport, plain_delayed, Flow.plain_marked (index :: place) _ flow]
          congr
          funext r
          split
          · rfl
          · rw [plain_note, hrest]

theorem Flow.plain_markedBranches (limit : Nat) (place : Pool) (index : Nat) (steps : List Step) :
    (Flow.markedBranches e patience limit place index steps).map plain =
      Flow.branchWorks e patience limit place index steps := by
  match steps with
  | [] => rw [Flow.markedBranches, List.map_nil, Flow.branchWorks]
  | .mk s flow :: rest =>
      rw [Flow.markedBranches, List.map_cons, plain_branch, plain_delayed,
        Flow.plain_marked (index :: place) _ flow,
        Flow.plain_markedBranches limit place (index + 1) rest, Flow.branchWorks]

theorem Step.plain_marked (place : Pool) (step : Step) :
    (step.marked e patience place).plain = step.work e patience place := by
  match step with
  | .mk s flow =>
      rw [Step.marked, plain_delayed, Flow.plain_marked place _ flow, Step.work]

end

end

/-- The marks of a plan change nothing. -/
theorem Plan.plain_marked (p : Plan) (e : Evaluator) : (p.marked e).plain = p.work e :=
  Flow.plain_marked e patience [] _ p.flow

/-- **What `run` computes is the end of a run** with marks, in which nobody else has a turn. -/
theorem Marked.Run.of_run {s : Marked} {fuel : Nat} {o : Outcome} {w v : World}
    (hrun : Activity.run fuel s.plain w = some (o, v)) :
    ∃ h, (∀ x y, Turn.other x y ∉ h) ∧ Run True s w h (.done o) v := by
  obtain ⟨k, halone, hplain⟩ := Activity.run_reaches hrun
  obtain ⟨h, t, hmarked, rfl, ht⟩ := Run.marked hplain
  obtain rfl := plain_eq_done.mp ht
  refine ⟨h, fun x y hmem => ?_, hmarked⟩
  exact halone x y (List.mem_map.mpr ⟨_, hmem, rfl⟩)

section

variable (e : Evaluator) (patience : Nat)

/-- The work of a branch with marks, by its number. -/
theorem Flow.markedBranches_getElem? (limit : Nat) (place : Pool) (index : Nat) (steps : List Step)
    (i : Nat) :
    (Flow.markedBranches e patience limit place index steps)[i]? =
      steps[i]?.map fun step => branch ((index + i) :: place) e limit (index + i) step.label
        step.settings (step.marked e patience ((index + i) :: place)) := by
  induction steps generalizing index i with
  | nil => simp [Flow.markedBranches]
  | cons step rest ih =>
      obtain ⟨s, flow⟩ := step
      cases i with
      | zero => simp [Flow.markedBranches, Step.marked, Step.settings]
      | succ i =>
          have hindex : index + 1 + i = index + (i + 1) := by omega
          simp [Flow.markedBranches, ih, hindex]

theorem Flow.markedBranches_length (limit : Nat) (place : Pool) (index : Nat) (steps : List Step) :
    (Flow.markedBranches e patience limit place index steps).length = steps.length := by
  induction steps generalizing index with
  | nil => simp [Flow.markedBranches]
  | cons step rest ih =>
      obtain ⟨s, flow⟩ := step
      simp [Flow.markedBranches, ih]

end

/-! ### The places of the marks -/

namespace Marked

variable {P : Mark → Prop} {place pool : Pool} {e : Evaluator} {s : Settings} {label name : String}
variable {m : Mark} {r t : Marked}

theorem Only.check (hm : P ⟨place, .guard s⟩) {next : Bool → Marked} (hnext : ∀ b, Only P (next b)) :
    Only P (check place s e next) := by
  refine .act hm fun w => ?_
  cases s.holds e w.context with
  | ok b => exact hnext b
  | error error => exact .done

theorem Only.look (hm : P m) {next : World → Marked} (hnext : ∀ w, Only P (next w)) :
    Only P (look m next) :=
  .act hm hnext

theorem Only.note (hm : P m) {level : Level} {text : String} (ht : Only P t) :
    Only P (note m level text t) :=
  .act hm fun _ => ht

theorem Only.delayed {first : Purpose} (hfirst : P ⟨place, first⟩) (hupkeep : P ⟨place, .upkeep⟩)
    {ms : Nat} (ht : Only P t) : Only P (delayed place first label ms t) := by
  unfold Marked.delayed
  split
  · exact .note hfirst ht
  · exact .note hupkeep (.sleep hupkeep fun _ => .note hfirst ht)

theorem Only.limited (hupkeep : P ⟨place, .upkeep⟩) (hlate : P ⟨place, .late⟩) {limit index : Nat}
    (ht : Only P t) : Only P (limited place limit index label t) := by
  unfold Marked.limited
  split
  · exact ht
  · refine .within hupkeep ht fun o => ?_
    cases o with
    | some o => exact .done
    | none => exact .note hlate .done

theorem Only.branch (hplace : ∀ purpose, P ⟨place, purpose⟩) {limit index : Nat}
    (ht : Only P t) : Only P (branch place e limit index label s t) := by
  refine .check (hplace _) fun b => ?_
  cases b with
  | false => exact .note (hplace _) .done
  | true => exact ht.limited (hplace _) (hplace _)

theorem Only.conclude (hpool : P ⟨pool, .upkeep⟩) {count : String}
    (reading : Reading) : Only P (conclude name pool count reading) := by
  rcases reading with ⟨index, fault⟩ | reports
  · exact .note hpool (.act hpool fun _ => .done)
  · refine .act hpool fun w => ?_
    cases gatherFrom 0 reports with
    | error fault => exact .done
    | ok reports => exact .note hpool .done

theorem Only.batch (hpool : P ⟨pool, .upkeep⟩) {threads limit : Nat} {branches : List Marked}
    (hbranches : ∀ t ∈ branches, Only P t) : Only P (batch name pool threads limit branches) := by
  refine .act hpool fun w => ?_
  split
  · exact .done
  · refine .note hpool (.fork hpool (forall_ongoing fun i t ht => ?_) (.conclude hpool))
    exact hbranches t (List.mem_of_getElem? (ongoing_fresh.mp ht))

theorem Only.rounds (hplace : P ⟨place, .upkeep⟩) (hstep : P ⟨0 :: place, .upkeep⟩) {mode : Repetition} {count : Nat}
    (ht : Only P t) (left : Nat) : Only P (rounds place mode label t count left) := by
  induction left generalizing count with
  | zero => exact .never hplace
  | succ left ih =>
      refine ht.onReport fun r => .look hstep fun w => ?_
      split
      · exact ih
      · exact .note hplace .done

end Marked

section

variable {pools : Pool → Prop} {e : Evaluator} {patience : Nat}

mutual

/-- **The marks of a flow** are at its place or below it. -/
theorem Flow.marked_only (f : Flow) {place : Pool} (hplace : Below pools place) (brief : Brief) :
    Only (fun m => pools m.place) (f.marked e patience place brief) := by
  match f with
  | .task x => exact only_marked hplace.at _
  | .sequence name scope steps => exact Flow.markedSequence_only steps (hplace.parts 0) name scope none
  | .parallel name threads limit branches =>
      exact .batch hplace.at (Flow.markedBranches_only branches (hplace.parts 0) limit)
  | .repetition name mode (.mk s flow) =>
      have hinner := (hplace.parts 0).part
      refine .check hinner.at fun b => ?_
      cases b with
      | false => exact .note hinner.at .done
      | true =>
          exact .rounds hplace.at hinner.at
            (.delayed hinner.at hinner.at (Flow.marked_only flow hinner _)) _
  | .choice name initial predicate held otherwise =>
      refine (Step.marked_only initial (hplace.parts 0).part).onReport fun r =>
        .look hplace.at fun w => ?_
      split
      · exact .note hplace.at (Step.marked_only held (hplace.parts 1).part)
      · exact Flow.markedOtherwise_only otherwise (hplace.parts 2).part name r

theorem Flow.markedOtherwise_only (otherwise : Option Step) {place : Pool}
    (hplace : Below pools place) (name : String) (r : Report) :
    Only (fun m => pools m.place) (Flow.markedOtherwise e patience name r place otherwise) := by
  match otherwise with
  | none => exact .done
  | some step => exact .note hplace.at (Step.marked_only step hplace)

theorem Flow.markedSequence_only (steps : List Step) {place : Pool} {index : Nat}
    (hplace : BelowFrom pools place index) (name : String) (scope : SequenceScope)
    (last : Option Report) : Only (fun m => pools m.place)
      (Flow.markedSequence e patience name scope last place index steps) := by
  match steps with
  | [] => exact .done
  | .mk s flow :: rest =>
      have hrest (last : Option Report) :=
        Flow.markedSequence_only rest hplace.rest name scope last
      rw [Flow.markedSequence.eq_def]
      refine .check hplace.part.at fun b => ?_
      cases b with
      | false =>
          cases scope with
          | block => exact .note hplace.part.at .done
          | playbook => exact .note hplace.part.at (hrest last)
      | true =>
          refine (Only.delayed hplace.part.at hplace.part.at
            (Flow.marked_only flow hplace.part _)).onReport fun r => ?_
          split
          · exact .note hplace.part.at .done
          · exact .note hplace.part.at (hrest (some r))

theorem Flow.markedBranches_only (steps : List Step) {place : Pool} {index : Nat}
    (hplace : BelowFrom pools place index) (limit : Nat) :
    ∀ t ∈ Flow.markedBranches e patience limit place index steps,
      Only (fun m => pools m.place) t := by
  match steps with
  | [] => nofun
  | .mk s flow :: rest =>
      intro t ht
      rcases List.mem_cons.mp ht with rfl | ht
      · exact .branch (fun _ => hplace.part.at)
          (.delayed hplace.part.at hplace.part.at (Flow.marked_only flow hplace.part _))
      · exact Flow.markedBranches_only rest hplace.rest limit t ht

theorem Step.marked_only (step : Step) {place : Pool} (hplace : Below pools place) :
    Only (fun m => pools m.place) (step.marked e patience place) := by
  match step with
  | .mk s flow => exact .delayed hplace.at hplace.at (Flow.marked_only flow hplace _)

end

end

end Runsheet
