import Runsheet.Engine.Engine
import Runsheet.Proofs.Acceptance
import Runsheet.Proofs.Nodes
import Runsheet.Proofs.Throughout

/-!
# Induction over the steps of a plan

The steps of a plan have the shape of the tree of tasks: a leaf is a step of its own, and the step of a
block or of a parallel task holds the steps of the tasks within.  The place of a step is the way to
its task, from the inside out.

* `Plan.forall_steps` — what holds for leaves, and for a container if it holds for all steps within,
  holds for every step of a plan;
* `Plan.work_throughout` — a plan does nothing but what its leaves do, what its guards look at, and the few
  changes that flows make by themselves;
* `Engine.run_of_plan` — a playbook that has a plan runs as the plan does.
-/

namespace Runsheet

open Activity (Throughout Fits Guarded)

theorem Task.at?_concat {ts : List Task} {above : List Nat} {i : Nat} {t u : Task}
    (hat : Task.at? ts above = some t) (hu : t.children[i]? = some u) :
    Task.at? ts (above ++ [i]) = some u := by
  induction above generalizing ts with
  | nil => cases hat
  | cons j rest ih =>
      obtain ⟨v, hv, hdeep⟩ := Task.at?_cons.mp hat
      refine Task.at?_cons.mpr ⟨v, hv, Or.inr ?_⟩
      rcases hdeep with ⟨rfl, rfl⟩ | hdeep
      · exact Task.at?_cons.mpr ⟨u, hu, Or.inl ⟨rfl, rfl⟩⟩
      · exact ih hdeep

namespace Plan

/-- What holds for the steps of a playbook, at their places: it holds for the steps of leaves, and passes
from the steps within a container to that of the container. -/
structure Inductive (r : Registry) (p : Playbook) (P : Pool → Step → Prop) : Prop where
  leaf {positions : List Nat} {t : Task} {x : Executable} : p.task? positions = some t →
    t.isContainer = false → r.resolve? t.id = some x → P positions.reverse (leaf t x)
  block {positions : List Nat} {t : Task} {steps : List Step} : p.task? positions = some t →
    (∀ i step, steps[i]? = some step → P (i :: positions.reverse) step) →
    P positions.reverse (.mk (settingsOf t) (.sequence blockId .block steps))
  parallel {positions : List Nat} {t : Task} {steps : List Step} : p.task? positions = some t →
    (∀ i step, steps[i]? = some step → P (i :: positions.reverse) step) →
    P positions.reverse
      (.mk (settingsOf t) (.parallel t.label t.threads (t.timeout * 1000) steps))

section

variable {r : Registry} {p : Playbook} {plan : Plan} {P : Pool → Step → Prop} {t : Task}

/-- What passes to containers holds for the step of a task, if it holds for the steps of the tasks
within. -/
theorem Inductive.stepOf (hP : Inductive r p P) {positions : List Nat} {path : String} {step : Step}
    (hat : p.task? positions = some t) (hstep : Plan.stepOf r path t = .ok step)
    (hchildren : ∀ u ∈ t.children, ∀ {positions path step}, p.task? positions = some u →
      Plan.stepOf r path u = .ok step → P positions.reverse step) : P positions.reverse step := by
  rcases stepOf_eq_ok.mp hstep with ⟨-, -, steps, hsteps, rfl⟩ | ⟨hleaf, -, x, hx, rfl⟩
  · have hparts (i : Nat) (step : Step) (hi : steps[i]? = some step) :
        P (i :: positions.reverse) step := by
      obtain ⟨u, hu, hof⟩ := exists_task hsteps hi
      have hpart := hchildren u (List.mem_of_getElem? hu) (Task.at?_concat hat hu) hof
      rwa [List.reverse_append] at hpart
    by_cases hid : t.id = blockId
    · rw [if_pos hid]
      exact hP.block hat hparts
    · rw [if_neg hid]
      exact hP.parallel hat hparts
  · exact hP.leaf hat hleaf hx

mutual

theorem Inductive.of_task (hP : Inductive r p P) (t : Task) {positions : List Nat} {path : String}
    {step : Step} (hat : p.task? positions = some t) (hstep : Plan.stepOf r path t = .ok step) :
    P positions.reverse step := by
  match t with
  | ⟨id, name, data, vars, guard, delay, repetitions, timeout, threads, children⟩ =>
      exact hP.stepOf hat hstep (hP.of_tasks children)

theorem Inductive.of_tasks (hP : Inductive r p P) (ts : List Task) :
    ∀ u ∈ ts, ∀ {positions path step}, p.task? positions = some u →
      Plan.stepOf r path u = .ok step → P positions.reverse step := by
  match ts with
  | [] => nofun
  | t :: rest =>
      intro u hmem positions path step hat hstep
      rcases List.mem_cons.mp hmem with heq | hmem
      · rw [heq] at hat hstep
        exact hP.of_task t hat hstep
      · exact hP.of_tasks rest u hmem hat hstep

end

/-- **What holds for leaves, and passes to containers, holds for the steps of a plan.** -/
theorem forall_steps (hP : Inductive r p P) (hplan : ofPlaybook r p = .ok plan) (i : Nat)
    (step : Step) (hstep : plan.steps[i]? = some step) : P [i] step := by
  obtain ⟨-, steps, hsteps, rfl⟩ := ofPlaybook_eq_ok.mp hplan
  obtain ⟨t, ht, hof⟩ := exists_task hsteps hstep
  exact hP.of_task t (Task.at?_cons.mpr ⟨t, ht, Or.inl ⟨rfl, rfl⟩⟩) hof

end

/-! ### What plans do -/

section

variable {C : (World → World) → (World → Activity) → Prop} {pools : Pool → Prop} {e : Evaluator}
variable {patience : Nat} {r : Registry} {p : Playbook} {plan : Plan}

/-- The step of a leaf does what the leaf does, once or in rounds. -/
theorem leaf_throughout {place : Pool} {t : Task} {x : Executable} (hfits : Fits C pools)
    (hguard : Guarded C e (settingsOf t))
    (hx : Throughout C pools (x.behave e (Step.mk (settingsOf t) (.task x)).brief)) :
    Throughout C pools ((leaf t x).work e patience place) := by
  unfold leaf
  by_cases hrepeated : t.repetitions = 0
  · rw [if_pos hrepeated]
    exact .delayed hfits hx
  · rw [if_neg hrepeated, Step.work, Flow.work]
    refine .delayed hfits (.check hguard fun b => ?_)
    cases b with
    | false => exact .note hfits .done
    | true =>
        have htimes : (Repetition.times t.repetitions).Every (Activity.Tested C) := trivial
        exact .rounds hfits htimes (.delayed hfits hx) _

/-- What all leaves of a tree do, passes on to the steps within certain pools. -/
theorem inductive_throughout (hfits : Fits C pools) (hguard : ∀ s, Guarded C e s)
    (hleaf : ∀ positions t x, p.task? positions = some t → t.isContainer = false →
      r.resolve? t.id = some x →
      Throughout C pools (x.behave e (Step.mk (settingsOf t) (.task x)).brief)) :
    Inductive r p fun place step =>
      Below pools place → Throughout C pools (step.work e patience place) := by
  refine ⟨?_, ?_, ?_⟩
  · intro positions t x hat hcontainer hx _
    exact leaf_throughout hfits (hguard _) (hleaf positions t x hat hcontainer hx)
  · intro positions t steps _ hsteps hplace
    refine .delayed hfits (.sequenceWork hfits ?_ _ _ _)
    intro i step hstep
    rw [Nat.zero_add]
    exact ⟨hguard _, hsteps i step hstep (hplace.parts 0 i (Nat.zero_le i))⟩
  · intro positions t steps _ hsteps hplace
    refine .delayed hfits (.parallelWork hfits hplace.at ?_ _ _ _ _)
    intro i step hstep
    exact ⟨hguard _, hsteps i step hstep (hplace.parts 0 i (Nat.zero_le i))⟩

/-- **A plan does nothing but** what its leaves do, what its guards look at, and the few changes that flows
make by themselves. -/
theorem work_throughout (hplan : ofPlaybook r p = .ok plan) (hfits : Fits C pools)
    (hguard : ∀ s, Guarded C e s) (hpools : Below pools [])
    (hleaf : ∀ positions t x, p.task? positions = some t → t.isContainer = false →
      r.resolve? t.id = some x →
      Throughout C pools (x.behave e (Step.mk (settingsOf t) (.task x)).brief)) :
    Throughout C pools (plan.work e) := by
  have htree : Inductive r p fun place step =>
      Below pools place → Throughout C pools (step.work e Runsheet.patience place) :=
    inductive_throughout hfits hguard hleaf
  unfold work flow
  rw [Flow.work]
  apply Throughout.sequenceWork hfits
  intro i step hstep
  rw [Nat.zero_add]
  exact ⟨hguard _, forall_steps htree hplan i step hstep (hpools.parts 0 i (Nat.zero_le i))⟩

end

end Plan

/-- A playbook that has a plan runs as the plan does, on the context after seeding; after a report there is one
event more. -/
theorem Engine.run_of_plan {g : Engine} {p : Playbook} {plan : Plan} {c : Context} {o : Outcome}
    {v : World} (hplan : g.plan p = .ok plan) (hrun : g.run p c = some (o, v)) :
    ∃ u, (plan.work g.evaluator).run patience (g.prepare p plan { context := c }) = some (o, u) ∧
      v.context = u.context := by
  unfold Engine.run at hrun
  rw [hplan] at hrun
  dsimp only at hrun
  by_cases hbreaks : g.breaksOff c.values p.vars = true
  · rw [if_pos hbreaks] at hrun
    cases hrun
  · rw [if_neg hbreaks] at hrun
    split at hrun
    next r u hwork =>
      cases hrun
      exact ⟨u, hwork, rfl⟩
    next => exact ⟨v, hrun, rfl⟩

end Runsheet
