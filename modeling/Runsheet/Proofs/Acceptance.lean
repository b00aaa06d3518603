import Runsheet.Engine.Plan

/-!
# What has a plan

A playbook has a plan if it has tasks and each task of the tree has a step: one that holds other tasks
has some, and any other task is known to the registry and has none within.  The step of a task is then
read off the task.  Whether there is a plan does not depend on what the kinds of tasks do, so that they
can be watched: a `traced` one puts an entry into the journal whenever it is invoked.

* `Plan.stepOf_eq_ok` and `Plan.ofPlaybook_eq_ok` — what has a step, and what has a plan;
* `Plan.ofPlaybook_traced` — the plan of a playbook with traced tasks.
-/

namespace Runsheet

namespace Plan

variable {r : Registry} {p : Playbook} {plan : Plan} {t : Task} {ts : List Task} {step : Step}
variable {steps : List Step} {path : String} {index : Nat}

/-- **A task has a step** if it holds tasks that have steps, or does something itself and is known. -/
theorem stepOf_eq_ok : stepOf r path t = .ok step ↔
    (t.isContainer = true ∧ t.children ≠ [] ∧ ∃ steps,
      stepsOf r (path ++ "." ++ t.id) 0 t.children = .ok steps ∧
      step = .mk (settingsOf t) (if t.id = blockId then .sequence blockId .block steps
        else .parallel t.label t.threads (t.timeout * 1000) steps)) ∨
    (t.isContainer = false ∧ t.children = [] ∧ ∃ x, r.resolve? t.id = some x ∧
      step = leaf t x) := by
  obtain ⟨id, name, data, vars, guard, delay, repetitions, timeout, threads, children⟩ := t
  rw [stepOf.eq_def]
  by_cases hcontainer : Task.isContainer
    ⟨id, name, data, vars, guard, delay, repetitions, timeout, threads, children⟩ = true
  · simp only [hcontainer, if_true, true_and, Bool.true_eq_false, false_and, or_false]
    cases children with
    | nil => simp
    | cons first rest =>
        cases stepsOf r (path ++ "." ++ id) 0 (first :: rest) with
        | error fault => simp [bind, Except.bind]
        | ok steps => simp [bind, Except.bind, pure, Except.pure, eq_comm]
  · simp only [hcontainer, true_and]
    cases children with
    | cons first rest => simp
    | nil =>
        cases r.resolve? id with
        | none => simp
        | some x => simp [eq_comm]

/-- Tasks have steps if each of them has one. -/
theorem stepsOf_cons_eq_ok : stepsOf r path index (t :: ts) = .ok steps ↔
    ∃ step more, stepOf r (itemPath path index) t = .ok step ∧
      stepsOf r path (index + 1) ts = .ok more ∧ steps = step :: more := by
  rw [stepsOf]
  cases stepOf r (itemPath path index) t with
  | error fault => simp [bind, Except.bind]
  | ok step =>
      cases stepsOf r path (index + 1) ts with
      | error fault => simp [bind, Except.bind]
      | ok more => simp [bind, Except.bind, pure, Except.pure, eq_comm]

/-- The step of one of the tasks. -/
theorem exists_step (h : stepsOf r path index ts = .ok steps) {k : Nat} (ht : ts[k]? = some t) :
    ∃ step, steps[k]? = some step ∧ stepOf r (itemPath path (index + k)) t = .ok step := by
  induction ts generalizing index steps k with
  | nil => cases ht
  | cons first rest ih =>
      obtain ⟨step, more, hstep, hmore, rfl⟩ := stepsOf_cons_eq_ok.mp h
      cases k with
      | zero =>
          cases ht
          exact ⟨step, rfl, hstep⟩
      | succ k =>
          obtain ⟨next, hnext, hof⟩ := ih hmore ht
          refine ⟨next, hnext, ?_⟩
          rwa [show index + (k + 1) = index + 1 + k by omega]

/-- The task of one of the steps. -/
theorem exists_task (h : stepsOf r path index ts = .ok steps) {k : Nat} (hstep : steps[k]? = some step) :
    ∃ t, ts[k]? = some t ∧ stepOf r (itemPath path (index + k)) t = .ok step := by
  induction ts generalizing index steps k with
  | nil =>
      cases h
      cases hstep
  | cons first rest ih =>
      obtain ⟨step', more, hfirst, hmore, rfl⟩ := stepsOf_cons_eq_ok.mp h
      cases k with
      | zero =>
          cases hstep
          exact ⟨first, rfl, hfirst⟩
      | succ k =>
          obtain ⟨t, ht, hof⟩ := ih hmore hstep
          refine ⟨t, ht, ?_⟩
          rwa [show index + (k + 1) = index + 1 + k by omega]

/-- **A playbook has a plan** if it has tasks and each of them has a step. -/
theorem ofPlaybook_eq_ok : ofPlaybook r p = .ok plan ↔
    p.tasks ≠ [] ∧ ∃ steps, stepsOf r p.id 0 p.tasks = .ok steps ∧ plan = ⟨p.id, steps⟩ := by
  rw [ofPlaybook.eq_def]
  unfold Playbook.isEmpty
  cases p.tasks with
  | nil => simp
  | cons first rest =>
      cases stepsOf r p.id 0 (first :: rest) with
      | error fault => simp [bind, Except.bind]
      | ok steps => simp [bind, Except.bind, pure, Except.pure, eq_comm]

end Plan

/-! ### Traced tasks -/

/-- What a task is told, for the journal. -/
def Brief.describe (b : Brief) : String :=
  "data: " ++ (b.data.map Text.quote).getD "none" ++ ", vars: " ++ Json.describeVars b.vars

/-- The kind of task with an entry in the journal for each time it is invoked. -/
def Executable.traced (x : Executable) : Executable where
  name := x.name
  behave e b := .change (fun w => w.record x.name b.label b.describe) (x.behave e b)
  isolatesFailure := x.isolatesFailure

/-- The registry with an entry in the journal for each time one of its kinds of tasks is invoked. -/
def Registry.traced (r : Registry) : Registry :=
  ⟨Table.mapValues Executable.traced r.tasks⟩

theorem Registry.resolve?_traced (r : Registry) (id : String) :
    r.traced.resolve? id = (r.resolve? id).map Executable.traced :=
  Table.get?_mapValues Executable.traced id r.tasks

namespace Plan

variable {r : Registry} {p : Playbook} {plan : Plan}

mutual

theorem stepOf_traced (t : Task) {path : String} {step : Step} (h : stepOf r path t = .ok step) :
    ∃ step', stepOf r.traced path t = .ok step' := by
  match t with
  | ⟨id, name, data, vars, guard, delay, repetitions, timeout, threads, children⟩ =>
      rcases stepOf_eq_ok.mp h with
        ⟨hcontainer, hne, steps, hsteps, _⟩ | ⟨hcontainer, hnil, x, hx, _⟩
      · obtain ⟨steps', hsteps'⟩ := stepsOf_traced children hsteps
        exact ⟨_, stepOf_eq_ok.mpr (Or.inl ⟨hcontainer, hne, steps', hsteps', rfl⟩)⟩
      · refine ⟨_, stepOf_eq_ok.mpr (Or.inr ⟨hcontainer, hnil, x.traced, ?_, rfl⟩)⟩
        rw [Registry.resolve?_traced, hx]
        rfl

theorem stepsOf_traced (ts : List Task) {path : String} {index : Nat} {steps : List Step}
    (h : stepsOf r path index ts = .ok steps) :
    ∃ steps', stepsOf r.traced path index ts = .ok steps' := by
  match ts with
  | [] => exact ⟨[], rfl⟩
  | t :: rest =>
      obtain ⟨step, more, hstep, hmore, _⟩ := stepsOf_cons_eq_ok.mp h
      obtain ⟨step', hstep'⟩ := stepOf_traced t hstep
      obtain ⟨more', hmore'⟩ := stepsOf_traced rest hmore
      exact ⟨_, stepsOf_cons_eq_ok.mpr ⟨step', more', hstep', hmore', rfl⟩⟩

end

end Plan

end Runsheet
