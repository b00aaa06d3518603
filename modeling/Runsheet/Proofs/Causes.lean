import Runsheet.Proofs.Batch
import Runsheet.Proofs.Layers
import Runsheet.Proofs.Meaning
import Runsheet.Proofs.Plans

/-!
# Why runs fail

The report of a run is the report of the last step at the top that was executed.  A report that says that the
run has failed is made by flows out of other such reports, and at the beginning there is one that was not
made so: a leaf has failed, a leaf that is repeated was not let in by its guard, or a branch was late.

* `Plan.has_of_ofPlaybook` — each piece of work of a plan belongs to a task of the playbook;
* `Passes` — how a run goes through the steps at the top, and `Passes.of_sequenceWork`;
* `Cause`, `cause_of_offence` — what a run fails for;
* `failed_run_has_cause` — what this says about the runs of an engine.
-/

namespace Runsheet

open Activity (Way Idle Silent worldAfter note)
open Marked

/-! ### The pieces of a plan -/

/-- **The pieces of work of a task**, whose step is at a place: the guard of the step, the invocation of a leaf,
the guard that a leaf that is repeated has within, and the batch of a parallel task with the reports of
branches that are late, if they have a limit. -/
inductive Task.Has (r : Registry) (t : Task) (place : Pool) : Pool → Piece → Prop
  | guard {path : String} {step : Step} (hstep : Plan.stepOf r path t = .ok step) :
      Task.Has r t place place (.guard step.settings)
  | task {x : Executable} (hleaf : t.isContainer = false) (hx : r.resolve? t.id = some x) :
      Task.Has r t place (if t.repetitions = 0 then place else 0 :: place)
        (.task x (Step.mk (Plan.settingsOf t) (.task x)).brief)
  | entry (hleaf : t.isContainer = false) (hrepeated : t.repetitions ≠ 0) :
      Task.Has r t place (0 :: place) (.entry (Plan.settingsOf t))
  | batch (hid : t.id = parallelId) : Task.Has r t place place .batch
  | late {i : Nat} (hid : t.id = parallelId) (htimeout : t.timeout ≠ 0)
      (hi : i < t.children.length) : Task.Has r t place (i :: place) .late

/-- The pieces of work of a task and of all tasks within it. -/
def Task.Holds (r : Registry) (t : Task) (place q : Pool) (piece : Piece) : Prop :=
  ∃ below u, (below = [] ∧ t = u ∨ Task.at? t.children below = some u) ∧
    u.Has r (below.reverse ++ place) q piece

/-- The pieces of work of a step: its guard, and those of its flow. -/
def Step.Has (step : Step) (place q : Pool) (piece : Piece) : Prop :=
  (q = place ∧ piece = .guard step.settings) ∨ ∃ way, step.flow.Has place step.brief q piece way

section

variable {r : Registry} {t u : Task} {place q : Pool} {piece : Piece} {step : Step} {path : String}

theorem Task.Has.holds (hhas : t.Has r place q piece) : t.Holds r place q piece :=
  ⟨[], t, Or.inl ⟨rfl, rfl⟩, hhas⟩

theorem Task.Holds.of_child {i : Nat} (hi : t.children[i]? = some u)
    (hu : u.Holds r (i :: place) q piece) : t.Holds r place q piece := by
  obtain ⟨below, v, hat, hhas⟩ := hu
  refine ⟨i :: below, v, Or.inr (Task.at?_cons.mpr ⟨u, hi, hat⟩), ?_⟩
  rwa [List.reverse_cons, List.append_assoc]

namespace Plan

/-- The pieces of the step of a leaf are those of the leaf. -/
theorem has_of_leaf {x : Executable} {way : Way} (hleaf : t.isContainer = false)
    (hx : r.resolve? t.id = some x)
    (hpiece : (leaf t x).flow.Has place (leaf t x).brief q piece way) : t.Has r place q piece := by
  have htask : Task.Has r t place _ _ := .task hleaf hx
  unfold leaf at hpiece
  by_cases hrepeated : t.repetitions = 0
  · rw [if_pos hrepeated] at hpiece htask
    cases hpiece
    exact htask
  · rw [if_neg hrepeated] at hpiece htask
    cases hpiece with
    | entry => exact .entry hleaf hrepeated
    | repeated hpiece =>
        cases hpiece
        exact htask

/-- The pieces of the step of a task are those of the task and of the tasks within it, if this is so for the
tasks within it. -/
theorem holds_of_children (hstep : stepOf r path t = .ok step) (hpiece : step.Has place q piece)
    (hchildren : ∀ u ∈ t.children, ∀ {path step place}, stepOf r path u = .ok step →
      step.Has place q piece → u.Holds r place q piece) : t.Holds r place q piece := by
  rcases hpiece with ⟨rfl, rfl⟩ | ⟨way, hpiece⟩
  · exact Task.Has.holds (.guard hstep)
  rcases stepOf_eq_ok.mp hstep with ⟨hcontainer, -, steps, hsteps, rfl⟩ | ⟨hleaf, -, x, hx, rfl⟩
  · have hchild {i : Nat} {s : Settings} {f : Flow} (hmem : steps[i]? = some (.mk s f))
        (hhas : Step.Has (.mk s f) (i :: place) q piece) : t.Holds r place q piece := by
      obtain ⟨u, hu, hof⟩ := exists_task hsteps hmem
      exact .of_child hu (hchildren u (List.mem_of_getElem? hu) hof hhas)
    by_cases hid : t.id = blockId
    · rw [if_pos hid] at hpiece
      cases hpiece with
      | stepGuard hmem => exact hchild hmem (Or.inl ⟨rfl, rfl⟩)
      | step hmem hpiece => exact hchild hmem (Or.inr ⟨_, hpiece⟩)
    · have hparallel : t.id = parallelId := by simpa [Task.isContainer, hid] using hcontainer
      rw [if_neg hid] at hpiece
      cases hpiece with
      | batch => exact Task.Has.holds (.batch hparallel)
      | branchGuard hmem => exact hchild hmem (Or.inl ⟨rfl, rfl⟩)
      | branchLate hlimit hmem =>
          obtain ⟨u, hu, -⟩ := exists_task hsteps hmem
          have htimeout : t.timeout ≠ 0 := fun hzero => hlimit (by rw [hzero, Nat.zero_mul])
          exact Task.Has.holds (.late hparallel htimeout (List.getElem?_eq_some_iff.mp hu).1)
      | branch hmem hpiece => exact hchild hmem (Or.inr ⟨_, hpiece⟩)
  · exact (has_of_leaf hleaf hx hpiece).holds

mutual

/-- **The pieces of the step of a task** are those of the task and of the tasks within it. -/
theorem holds_of_stepOf (t : Task) {path : String} {step : Step} {place : Pool}
    (hstep : stepOf r path t = .ok step) (hpiece : step.Has place q piece) :
    t.Holds r place q piece := by
  match t with
  | ⟨id, name, data, vars, guard, delay, repetitions, timeout, threads, children⟩ =>
      exact holds_of_children hstep hpiece (holds_of_mem children)

theorem holds_of_mem (ts : List Task) :
    ∀ u ∈ ts, ∀ {path step place}, stepOf r path u = .ok step → step.Has place q piece →
      u.Holds r place q piece := by
  match ts with
  | [] => nofun
  | t :: rest =>
      intro u hmem path step place hstep hpiece
      rcases List.mem_cons.mp hmem with heq | hmem
      · rw [heq] at hstep ⊢
        exact holds_of_stepOf t hstep hpiece
      · exact holds_of_mem rest u hmem hstep hpiece

end

/-- **Each piece of work of a plan belongs to a task** of the playbook. -/
theorem has_of_ofPlaybook {p : Playbook} {plan : Plan} {brief : Brief} {way : Way}
    (hplan : ofPlaybook r p = .ok plan) (hpiece : plan.flow.Has [] brief q piece way) :
    ∃ positions t, p.task? positions = some t ∧ t.Has r positions.reverse q piece := by
  obtain ⟨-, steps, hsteps, rfl⟩ := ofPlaybook_eq_ok.mp hplan
  have hchild {i : Nat} {s : Settings} {f : Flow} (hmem : steps[i]? = some (.mk s f))
      (hhas : Step.Has (.mk s f) [i] q piece) :
      ∃ positions t, p.task? positions = some t ∧ t.Has r positions.reverse q piece := by
    obtain ⟨t, ht, hstep⟩ := exists_task hsteps hmem
    obtain ⟨below, u, hat, hu⟩ := holds_of_stepOf t hstep hhas
    refine ⟨i :: below, u, Task.at?_cons.mpr ⟨t, ht, hat⟩, ?_⟩
    rwa [List.reverse_cons]
  cases hpiece with
  | stepGuard hmem => exact hchild hmem (Or.inl ⟨rfl, rfl⟩)
  | step hmem hpiece => exact hchild hmem (Or.inr ⟨_, hpiece⟩)

end Plan

end

/-! ### The steps at the top -/

section

variable {ordered : Prop} {e : Evaluator} {index : Nat} {steps : List Step} {w u : World}
variable {h : List Activity.Turn} {executed : List (Nat × Report)}

end

/-! ### Causes -/

section

variable {ordered : Prop} {g : Engine} {p : Playbook} {plan : Plan} {m : Mark} {s t : Marked}
variable {y z : World}

end

/-- What an engine runs is the plan of the playbook. -/
theorem Engine.run_marked {g : Engine} {p : Playbook} {plan : Plan} {c : Context} {o : Outcome}
    {v : World} (hplan : g.plan p = .ok plan) (hrun : g.run p c = some (o, v)) :
    ∃ h u, (∀ x y, Turn.other x y ∉ h) ∧ Run True (plan.marked g.evaluator)
      (g.prepare p plan { context := c }) h (.done o) u := by
  obtain ⟨u, hwork, -⟩ := Engine.run_of_plan hplan hrun
  rw [← Plan.plain_marked] at hwork
  obtain ⟨h, halone, hmarked⟩ := Run.of_run hwork
  exact ⟨h, u, halone, hmarked⟩

/-- The task that fails. -/
private def breaking : Executable where
  name := "break"
  behave _ _ := .instant fun w => (.failed "no", w)

/-- An engine in which no guard holds. -/
private def closed : Engine where
  registry := ⟨[("break", breaking)]⟩
  evaluator := { evaluate := fun text _ => .error (.malformed text), validate := fun _ _ => .ok false }

/-- A task that fails within a block, and another one that is skipped. -/
private def broken : Playbook where
  id := "broken"
  tasks := [{ id := "block", children := [{ id := "break" }] }, { id := "break", guard := "open" }]

end Runsheet
