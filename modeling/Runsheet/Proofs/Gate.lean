import Runsheet.CommandLine.Commands
import Runsheet.Proofs.Refusal
import Runsheet.Proofs.Sources

/-!
# The plan is a gate

Whether a playbook has a plan is decided before anything runs.  If it has none, nothing does: a run ends
with the fault that says why, and leaves the context as it was.  If it has one, a fault of this kind never
comes later.  So it is one decision for which `run` asks, the run that only compiles, and the validation of
a file.

* `Plan.isCompileFault_of_error`, `Plan.error_of_known` — why there is no plan, and on what it depends;
* `Plan.not_isCompileFault` — no run of a plan ends with such a fault;
* `Engine.plan_eq_error_iff` — an engine rejects the playbooks that have no plan;
* `compilation_is_gate` — the three ways to ask.
-/

namespace Runsheet

/-- **A run rejects** a playbook on a context if it ends with a fault that is found by compilation. -/
def Engine.Rejects (g : Engine) (p : Playbook) (c : Context) : Prop :=
  ∃ fault v, g.run p c = some (.error fault, v) ∧ fault.isCompileFault = true

/-! ### Without a plan -/

theorem Task.offence_isCompileFault (t : Task) (path : String) :
    (t.offence path).isCompileFault = true := by
  unfold offence
  by_cases hcontainer : t.isContainer = true
  · rw [if_pos hcontainer]
    rfl
  · rw [if_neg hcontainer]
    by_cases hchildren : t.children ≠ []
    · rw [if_pos hchildren]
      rfl
    · rw [if_neg hchildren]
      rfl

namespace Plan

variable {r : Registry} {p : Playbook} {plan : Plan} {fault : Fault}

/-- A playbook without tasks has no plan, and is blamed itself. -/
theorem ofPlaybook_empty (r : Registry) (hempty : p.tasks = []) :
    ofPlaybook r p = .error (.emptyPlaybook p.id) := by
  have hnone : p.isEmpty = true := by
    unfold Playbook.isEmpty
    rw [hempty]
    rfl
  unfold ofPlaybook
  rw [if_pos hnone]

/-- **The fault that says why there is no plan** is one that is found by compilation. -/
theorem isCompileFault_of_error (hplan : ofPlaybook r p = .error fault) :
    fault.isCompileFault = true := by
  by_cases hempty : p.tasks = []
  · rw [ofPlaybook_empty r hempty] at hplan
    cases hplan
    rfl
  · have hjudged := ofPlaybook_judged (r := r) p hempty
    rw [hplan] at hjudged
    cases hjudged with
    | bad => exact Task.offence_isCompileFault _ _

/-- It depends on which identifiers are known, and on nothing else about the kinds of tasks. -/
theorem error_of_known {r' : Registry} (hknown : ∀ id, r'.contains id = r.contains id)
    (hplan : ofPlaybook r p = .error fault) : ofPlaybook r' p = .error fault := by
  by_cases hempty : p.tasks = []
  · rw [ofPlaybook_empty r hempty] at hplan
    rw [ofPlaybook_empty r' hempty, hplan]
  · have hwell (t : Task) : t.WellFormed r' ↔ t.WellFormed r := by
      unfold Task.WellFormed
      rw [hknown t.id]
    have hjudged := ofPlaybook_judged (r := r) p hempty
    rw [hplan] at hjudged
    cases hjudged with
    | bad hnodes hbefore hn =>
        apply (ofPlaybook_judged (r := r') p hempty).error_of_first hnodes
        · intro m hm
          exact (hwell m.task).mpr (hbefore m hm)
        · intro hn'
          exact hn ((hwell _).mp hn')

end Plan

section

variable {g : Engine} {p : Playbook} {plan : Plan} {c : Context} {fault : Fault}

/-- Without a plan nothing runs. -/
theorem Engine.run_of_error (hplan : g.plan p = .error fault) (c : Context) :
    g.run p c = some (.error fault, { context := c }) := by
  unfold Engine.run
  rw [hplan]

/-! ### With a plan -/

/-- **No run of a plan ends with a fault that is found by compilation**, if none of the kinds of tasks makes one
up. -/
theorem Plan.not_isCompileFault {ordered : Prop} {w v : World} {h : List Activity.Turn}
    (hkinds : ∀ id x, g.registry.resolve? id = some x →
      x.NeverFaults g.evaluator (·.isCompileFault = true))
    (hplan : g.plan p = .ok plan)
    (hrun : Activity.Run ordered (plan.work g.evaluator) w h (.done (.error fault)) v) :
    fault.isCompileFault = false := by
  rw [← Plan.plain_marked] at hrun
  obtain ⟨k, t, hmarked, -, ht⟩ := Marked.Run.marked hrun
  obtain rfl := Marked.plain_eq_done.mp ht
  obtain ⟨origin, is, rfl, harisen⟩ := Flow.fault_arises (f := plan.flow) hmarked nofun
  cases is with
  | cons i rest => rfl
  | nil =>
      rw [← Bool.not_eq_true]
      intro hcompile
      obtain ⟨heq, -⟩ := Plan.refused_of_arisen hplan hkinds nofun harisen hcompile
      have horigin : origin.isCompileFault = true := hcompile
      rw [heq] at horigin
      cases horigin

/-- **A playbook has no plan** if and only if its runs end with such a fault, and it is the same one. -/
theorem Engine.plan_eq_error_iff
    (hkinds : ∀ id x, g.registry.resolve? id = some x →
      x.NeverFaults g.evaluator (·.isCompileFault = true)) (c : Context) (fault : Fault) :
    g.plan p = .error fault ↔
      fault.isCompileFault = true ∧ ∃ v, g.run p c = some (.error fault, v) := by
  constructor
  · intro hplan
    exact ⟨Plan.isCompileFault_of_error hplan, _, Engine.run_of_error hplan c⟩
  · rintro ⟨hfault, v, hrun⟩
    cases hplan : g.plan p with
    | error fault' =>
        rw [Engine.run_of_error hplan c] at hrun
        cases hrun
        rfl
    | ok plan =>
        obtain ⟨u, hwork, -⟩ := Engine.run_of_plan hplan hrun
        obtain ⟨h, -, hreached⟩ := Activity.run_reaches hwork
        rw [Plan.not_isCompileFault hkinds hplan hreached] at hfault
        cases hfault

/-- An engine with the tasks that are there from the beginning rejects the playbooks that have no plan. -/
theorem Engine.not_rejects_standard (e : Evaluator) (p : Playbook) (c : Context) :
    ¬ Engine.Rejects { evaluator := e } p c ↔ ∃ plan, Engine.plan {} p = .ok plan := by
  let g : Engine := { evaluator := e }
  have hplan : g.plan p = Engine.plan {} p := rfl
  have hkinds (id : String) (x : Executable) (hx : g.registry.resolve? id = some x) :
      x.NeverFaults g.evaluator (·.isCompileFault = true) := by
    apply Builtin.neverFaults (Registry.mem_all_of_standard hx)
    rintro fault ⟨_, _, _, rfl, _⟩ hcompile
    cases hcompile
  constructor
  · intro haccepts
    cases hfault : Engine.plan {} p with
    | ok plan => exact ⟨plan, rfl⟩
    | error fault =>
        rw [← hplan, Engine.plan_eq_error_iff hkinds c fault] at hfault
        obtain ⟨hcompile, v, hrun⟩ := hfault
        exact (haccepts ⟨fault, v, hrun, hcompile⟩).elim
  · rintro ⟨plan, hplanned⟩ ⟨fault, v, hrun, hcompile⟩
    have hfault := (Engine.plan_eq_error_iff hkinds c fault).mpr ⟨hcompile, v, hrun⟩
    rw [hplan, hplanned] at hfault
    cases hfault

end

/-! ### Commands that only compile -/

namespace CommandLine

theorem verdict_eq_true {g : Engine} {p : Playbook} :
    (verdict g p).2 = true ↔ ∃ plan, g.plan p = .ok plan := by
  unfold verdict
  cases g.plan p with
  | ok plan => exact iff_of_true rfl ⟨plan, rfl⟩
  | error fault =>
      apply iff_of_false Bool.false_ne_true
      rintro ⟨plan, heq⟩
      cases heq

variable {d : Desk} {ps : List Playbook}

/-- **To compile a playbook of a file** succeeds if it has a plan. -/
theorem runPlaybook_dry {s : Surroundings} {conf : Configuration} {o : RunOptions} {p : Playbook}
    (hload : (loadPlaybooks Shell.onDisk o.file).run d = (.ok ps, d))
    (hselect : selectPlaybook ps o.playbook = .ok p) :
    ((runPlaybook Shell.onDisk s conf { o with dryRun := true }).run d).1 = .ok () ↔
      ∃ plan, Engine.plan {} p = .ok plan := by
  have hselected : (orFail id (selectPlaybook ps o.playbook) :
      ExceptT String (StateM Desk) Playbook).run d = (.ok p, d) := by
    rw [hselect]
    rfl
  have hplan : Engine.plan { evaluator := .standard s.setting } p = Engine.plan {} p := rfl
  unfold runPlaybook
  rw [run_bind_ok hload, run_bind_ok hselected]
  dsimp only
  rw [if_pos rfl, hplan]
  cases Engine.plan {} p with
  | ok plan => exact iff_of_true rfl ⟨plan, rfl⟩
  | error fault =>
      apply iff_of_false
      · intro heq
        cases heq
      · rintro ⟨plan, heq⟩
        cases heq

/-- **To validate a file** succeeds if each of its playbooks has a plan. -/
theorem validatePlaybooks_eq_ok {path : String}
    (hload : (loadPlaybooks Shell.onDisk path).run d = (.ok ps, d)) :
    ((validatePlaybooks Shell.onDisk path).run d).1 = .ok () ↔
      ∀ p ∈ ps, ∃ plan, Engine.plan {} p = .ok plan := by
  unfold validatePlaybooks
  rw [run_bind_ok hload, run_bind_ok (sayAll_onDisk _ d)]
  dsimp only
  by_cases hinvalid : 0 < (ps.map (verdict {})).countP fun v => !v.2
  · rw [if_pos hinvalid]
    obtain ⟨line, hmem, hbad⟩ := List.countP_pos_iff.mp hinvalid
    obtain ⟨p, hp, rfl⟩ := List.mem_map.mp hmem
    apply iff_of_false
    · intro heq
      cases heq
    · intro hall
      rw [verdict_eq_true.mpr (hall p hp)] at hbad
      cases hbad
  · rw [if_neg hinvalid]
    apply iff_of_true rfl
    intro p hp
    apply verdict_eq_true.mp
    by_cases hvalid : (verdict {} p).2 = true
    · exact hvalid
    · have hbad : (!(verdict {} p).2) = true := by simpa using hvalid
      exact (hinvalid (List.countP_pos_iff.mpr ⟨_, List.mem_map.mpr ⟨p, hp, rfl⟩, hbad⟩)).elim

end CommandLine

open CommandLine

/-- **Compilation is a gate**, complete and without effect.  The kinds of tasks of an engine never end with a
fault that compilation finds.

* A playbook has no plan if and only if its runs end with such a fault, on any context, and it is the same
  one.
* Then nothing else happens: the context is as it was, no time has passed, there is no entry and no event.
  So it is with every engine that knows the same identifiers, whatever its kinds of tasks do and however it
  evaluates expressions.
* If there is a plan, none of its runs ends with such a fault, whatever turns parallel branches take and
  whatever else goes on beside it.
* With the tasks that are there from the beginning, the run that only compiles accepts a playbook, and
  validation counts it valid, exactly if a run on any context does not reject it; a file is valid if none
  of its playbooks is rejected. -/
theorem compilation_is_gate {g : Engine} (hkinds : ∀ id x, g.registry.resolve? id = some x →
    x.NeverFaults g.evaluator (·.isCompileFault = true)) (p : Playbook) :
    (∀ c fault, g.plan p = .error fault ↔
      fault.isCompileFault = true ∧ ∃ v, g.run p c = some (.error fault, v)) ∧
    (∀ {fault}, g.plan p = .error fault → ∀ other : Engine,
      (∀ id, other.registry.contains id = g.registry.contains id) →
      ∀ c, other.run p c = some (.error fault, { context := c })) ∧
    (∀ {plan ordered w h fault v}, g.plan p = .ok plan →
      Activity.Run ordered (plan.work g.evaluator) w h (.done (.error fault)) v →
      fault.isCompileFault = false) ∧
    ∀ (s : Surroundings) (c : Context),
      ((verdict {} p).2 = true ↔ ¬ Engine.Rejects { evaluator := .standard s.setting } p c) ∧
      (∀ {conf : Configuration} {o : RunOptions} {d : Desk} {ps : List Playbook},
        (loadPlaybooks Shell.onDisk o.file).run d = (.ok ps, d) →
        selectPlaybook ps o.playbook = .ok p →
        (((runPlaybook Shell.onDisk s conf { o with dryRun := true }).run d).1 = .ok () ↔
          ¬ Engine.Rejects { evaluator := .standard s.setting } p c)) ∧
      ∀ {path : String} {d : Desk} {ps : List Playbook},
        (loadPlaybooks Shell.onDisk path).run d = (.ok ps, d) →
        (((validatePlaybooks Shell.onDisk path).run d).1 = .ok () ↔
          ∀ q ∈ ps, ¬ Engine.Rejects { evaluator := .standard s.setting } q c) := by
  refine ⟨Engine.plan_eq_error_iff hkinds, ?_, ?_, ?_⟩
  · intro fault hplan other hknown c
    have hsame : other.plan p = .error fault := Plan.error_of_known hknown hplan
    exact Engine.run_of_error hsame c
  · intro plan ordered w h fault v hplan hrun
    exact Plan.not_isCompileFault hkinds hplan hrun
  · intro s c
    refine ⟨?_, ?_, ?_⟩
    · rw [Engine.not_rejects_standard]
      exact verdict_eq_true
    · intro conf o d ps hload hselect
      rw [Engine.not_rejects_standard]
      exact runPlaybook_dry hload hselect
    · intro path d ps hload
      simp only [Engine.not_rejects_standard]
      exact validatePlaybooks_eq_ok hload

/-- The task that writes the context. -/
private def touching : Executable where
  name := "touch"
  behave _ _ := .instant fun w => (.completed, w.put "touched" (.bool true))

/-- An engine that knows it, and for which every guard holds. -/
private def eager : Engine where
  registry := ({} : Registry).registerAll [touching]
  evaluator := { evaluate := fun text _ => .ok (.string text), validate := fun _ _ => .ok true }

/-- A task that would write the context after a pause, before a block with one that is not known. -/
private def misspelt : Playbook where
  id := "misspelt"
  vars := [("greeting", .string "\x7b\x7b name \x7d\x7d")]
  tasks := [{ id := "touch", delay := 5 }, { id := "block", children := [{ id := "tuch" }] }]

/-- The run ends before the first task, with a context that is not even seeded; and it is rejected by every
engine that knows the standard tasks alone, as its validation says. -/
theorem compilation_is_gate_misspelt :
    (∃ v, eager.run misspelt (({} : Context).put "name" (.string "x")) =
      some (.error (.unresolvedTask "tuch" "misspelt[1].block[0]"), v)) ∧
    { eager with evaluator := .standard {} }.run misspelt (({} : Context).put "name" (.string "x")) =
      some (.error (.unresolvedTask "tuch" "misspelt[1].block[0]"),
        { context := ({} : Context).put "name" (.string "x") }) ∧
    Engine.Rejects {} misspelt {} := by
  have hkinds (id : String) (x : Executable) (hx : eager.registry.resolve? id = some x) :
      x.NeverFaults eager.evaluator (·.isCompileFault = true) := by
    obtain rfl := List.mem_singleton.mp (Registry.mem_of_resolve? hx)
    intro brief w h fault v hrun
    exact (Activity.Run.not_instant_fault hrun).elim
  obtain ⟨hsame, hnothing, -, hcommands⟩ := compilation_is_gate hkinds misspelt
  have hplan : eager.plan misspelt =
      .error (.unresolvedTask "tuch" "misspelt[1].block[0]") := rfl
  refine ⟨((hsame _ _).mp hplan).2, hnothing hplan _ (fun _ => rfl) _, ?_⟩
  have hinvalid : ¬ (verdict {} misspelt).2 = true := by decide
  have hverdict := (hcommands {} {}).1
  by_cases hrejects : Engine.Rejects {} misspelt {}
  · exact hrejects
  · exact (hinvalid (hverdict.mpr hrejects)).elim

end Runsheet
