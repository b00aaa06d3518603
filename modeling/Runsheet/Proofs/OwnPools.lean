import Runsheet.Proofs.Cancellation
import Runsheet.Proofs.Compilation
import Runsheet.Proofs.Gate
import Runsheet.Proofs.OpenPools
import Runsheet.Proofs.Seeding
import Runsheet.Proofs.Sources

/-!
# The pools of a playbook

Each parallel task of a playbook has a pool of its own, named by its place, and each place is come to once in
a run.  So no batch of a playbook is refused by its pool, and no branch of it is refused a permit, whatever
faults in the branches of any batch and while others still wait: the faults that come out are those of
guards and tasks.

* `Plan.work_looksOnce` — of a plan, one batch looks at each of its pools;
* `Plan.never_refused` — neither the batches nor their branches find a pool closed;
* `own_pools_never_refuse` — what this says about the runs of an engine.
-/

namespace Runsheet

open Activity (Way LooksOnce Ignores Looks Reliable Throughout fits_spares guarded_spares)
open Marked

/-- The kind of task knows nothing of a pool: it neither looks whether it is closed, nor closes it, nor splits on
it. -/
def Executable.Ignores (x : Executable) (e : Evaluator) (q : Pool) : Prop :=
  ∀ brief, Activity.Ignores q (x.behave e brief)

section

variable {e : Evaluator} {patience : Nat} {q place : Pool}

/-! ### Along the steps of a plan -/

/-- A step has one batch at most that looks at the pool, and knows nothing of the pool if it is elsewhere. -/
def Step.Visits (e : Evaluator) (patience : Nat) (q place : Pool) (step : Step) : Prop :=
  LooksOnce q (step.work e patience place) ∧
    (Below (· ≠ q) place → Ignores q (step.work e patience place))

/-- **Steps one after the other**: at most one of them looks at the pool. -/
theorem Activity.LooksOnce.sequenceWork {steps : List Step} {index : Nat}
    (hsteps : ∀ (i : Nat) (step : Step), steps[i]? = some step →
      step.Visits e patience q ((index + i) :: place)) (name : String) (scope : SequenceScope)
    (last : Option Report) :
    LooksOnce q (Flow.sequenceWork e patience name scope last place index steps) := by
  have hfits := fits_spares q
  induction steps generalizing index last with
  | nil => exact .ignores .done
  | cons step rest ih =>
      obtain ⟨s, flow⟩ := step
      have hfirst : Step.Visits e patience q (index :: place) (.mk s flow) := hsteps 0 _ rfl
      have hlater (i : Nat) (step : Step) (hstep : rest[i]? = some step) :
          step.Visits e patience q ((index + 1 + i) :: place) := by
        have hnext := hsteps (i + 1) step hstep
        rwa [show index + (i + 1) = index + 1 + i by omega] at hnext
      have hrest (last : Option Report) : LooksOnce q
          (Flow.sequenceWork e patience name scope last place (index + 1) rest) :=
        ih hlater last
      unfold Step.Visits at hfirst
      rw [Step.work] at hfirst
      rw [Flow.sequenceWork.eq_def]
      refine .check fun b => ?_
      cases b with
      | false =>
          cases scope with
          | block => exact .ignores (.note hfits .done)
          | playbook => exact (hrest last).note
      | true =>
          rcases below_or_belowFrom q place index with hbelow | hbelow
          · refine Activity.Ignores.onReport (hfirst.2 hbelow) fun r => ?_
            split
            · exact .ignores (.note hfits .done)
            · exact (hrest (some r)).note
          · refine .onReport hfirst.1 fun r => ?_
            split
            · exact .note hfits .done
            · refine .note hfits (.sequenceWork hfits ?_ name scope (some r))
              intro i step hstep
              refine ⟨guarded_spares q _, (hlater i step hstep).2 (hbelow _ ?_)⟩
              omega

/-- **Steps side by side**: at most one branch looks at the pool, and none does if it is that of the flow. -/
theorem Activity.LooksOnce.parallelWork {steps : List Step}
    (hsteps : ∀ (i : Nat) (step : Step), steps[i]? = some step →
      step.Visits e patience q (i :: place)) (name : String) (threads limit : Nat) (brief : Brief) :
    LooksOnce q ((Flow.parallel name threads limit steps).work e patience place brief) := by
  have hfits := fits_spares q
  rw [Flow.work]
  by_cases hplace : place = q
  · subst hplace
    apply LooksOnce.batch_own
    apply Throughout.branchWorks hfits
    intro i step hstep
    rw [Nat.zero_add]
    refine ⟨guarded_spares place _, (hsteps i step hstep).2 ?_⟩
    rintro p hbelow rfl
    have hlength : (i :: p).length ≤ p.length := hbelow.length_le
    rw [List.length_cons] at hlength
    omega
  · have hbranch (i : Nat) (a : Activity)
        (ha : (Flow.branchWorks e patience limit place 0 steps)[i]? = some a) :
        LooksOnce q a ∧ (Below (· ≠ q) (i :: place) → Ignores q a) := by
      obtain ⟨step, hstep, rfl⟩ := Flow.step_of_branchWorks e patience ha
      obtain ⟨hlooks, hignores⟩ := hsteps i step hstep
      exact ⟨hlooks.branch, fun hbelow => .branch hfits (guarded_spares q _) (hignores hbelow)⟩
    apply LooksOnce.batch_other hplace
    · intro i a ha
      exact (hbranch i a ha).1
    · intro i j a b hij ha hb
      exact (below_or_below q place hij).imp (hbranch i a ha).2 (hbranch j b hb).2

variable {r : Registry} {p : Playbook} {plan : Plan}

/-- **Of a plan one batch looks at each pool**, if its tasks know nothing of it. -/
theorem Plan.work_looksOnce (hplan : Plan.ofPlaybook r p = .ok plan)
    (hkinds : ∀ id x, r.resolve? id = some x → x.Ignores e q) : LooksOnce q (plan.work e) := by
  have hignores : Plan.Inductive r p fun place step =>
      Below (· ≠ q) place → Ignores q (step.work e Runsheet.patience place) :=
    inductive_throughout (fits_spares q) (guarded_spares q) fun _ _ x _ _ hx => hkinds _ x hx _
  have htree : Plan.Inductive r p (Step.Visits e Runsheet.patience q) := by
    refine ⟨?_, ?_, ?_⟩
    · intro positions t x hat hleaf hx
      have hstep : Ignores q ((leaf t x).work e Runsheet.patience positions.reverse) :=
        leaf_throughout (fits_spares q) (guarded_spares q _) (hkinds _ x hx _)
      exact ⟨.ignores hstep, fun _ => hstep⟩
    · intro positions t steps hat hsteps
      refine ⟨.delayed (.sequenceWork ?_ _ _ _), ?_⟩
      · intro i step hstep
        rw [Nat.zero_add]
        exact hsteps i step hstep
      · exact hignores.block hat fun i step hstep => (hsteps i step hstep).2
    · intro positions t steps hat hsteps
      refine ⟨.delayed (.parallelWork hsteps _ _ _ _), ?_⟩
      exact hignores.parallel hat fun i step hstep => (hsteps i step hstep).2
  unfold work flow
  rw [Flow.work]
  apply LooksOnce.sequenceWork
  intro i step hstep
  rw [Nat.zero_add]
  exact forall_steps htree hplan i step hstep

/-! ### Batches that look at their pool -/

/-- A batch is about to look at its pool. -/
theorem Activity.looks_batch (name : String) (threads limit : Nat) (branches : List Activity) :
    Looks q (batch name q threads limit branches) := by
  refine .here {} ?_ ?_
  · have hclosed : (World.close {} q).isClosed q = true := by simp [World.isClosed, World.close]
    rw [if_pos hclosed]
  · intro o
    have hopen : ¬ World.isClosed {} q = true := by simp [World.isClosed]
    rw [if_neg hopen]
    intro hends
    cases hends

theorem Marked.Left.looks {ordered : Prop} {a : Marked} (hleft : Left ordered e q .batch a) :
    Looks q a.plain := by
  cases hleft with
  | guard hpiece => cases hpiece
  | batch =>
      rw [plain_batch]
      exact Activity.looks_batch _ _ _ _

theorem Marked.Refusal.looks {a b : Marked} (hrefusal : Refusal q a b) : Looks q a.plain := by
  cases hrefusal with
  | refuse hpool => exact .asking hpool

/-- Around a part that looks at the pool there is an activity that does. -/
theorem Marked.Works.looks {ordered : Prop} {m : Mark} {inner path : Way} {a b s t : Marked}
    {w v : World} (hworks : Works ordered m inner a w b v path s t) (hlooks : Looks q a.plain) :
    Looks q s.plain := by
  induction hworks with
  | here => exact hlooks
  | onReport _ ih =>
      rw [plain_onReport]
      exact ih.onReport
  | within _ _ _ ih => exact .inside ih
  | branch _ _ hslot _ ih => exact .branch (plainSlots_getElem?_running.mpr ⟨_, hslot, rfl⟩) ih

end

/-! ### The pools of a playbook -/

theorem Task.someHasPool_of_getElem? {q place : Pool} {ts : List Task} {t : Task} {index i : Nat}
    (ht : ts[i]? = some t) (hpool : t.HasPool q ((index + i) :: place)) :
    Task.SomeHasPool q place index ts := by
  induction ts generalizing index i with
  | nil => cases ht
  | cons first rest ih =>
      cases i with
      | zero =>
          cases ht
          exact Or.inl hpool
      | succ i =>
          rw [show index + (i + 1) = index + 1 + i by omega] at hpool
          exact Or.inr (ih ht hpool)

theorem Task.hasPool_iff {q place : Pool} {t : Task} : t.HasPool q place ↔
    t.id = parallelId ∧ q = place ∨ Task.SomeHasPool q place 0 t.children := by
  cases t
  rfl

/-- A parallel task has the pool at its place. -/
theorem Task.someHasPool_of_at? {ts : List Task} {t : Task} {positions : List Nat} {place : Pool}
    (hat : Task.at? ts positions = some t) (hid : t.id = parallelId) :
    Task.SomeHasPool (positions.reverse ++ place) place 0 ts := by
  induction positions generalizing ts place with
  | nil => cases hat
  | cons i rest ih =>
      obtain ⟨u, hu, hdeep⟩ := Task.at?_cons.mp hat
      apply Task.someHasPool_of_getElem? hu
      rw [Nat.zero_add, Task.hasPool_iff]
      rcases hdeep with ⟨rfl, rfl⟩ | hdeep
      · exact Or.inl ⟨hid, rfl⟩
      · right
        rw [List.reverse_cons, List.append_assoc]
        exact ih hdeep

theorem Playbook.hasPool_of_task? {p : Playbook} {t : Task} {positions : List Nat}
    (hat : p.task? positions = some t) (hid : t.id = parallelId) : p.HasPool positions.reverse := by
  have hpool : Task.SomeHasPool (positions.reverse ++ []) [] 0 p.tasks :=
    Task.someHasPool_of_at? hat hid
  rwa [List.append_nil] at hpool

section

variable {g : Engine} {p : Playbook} {plan : Plan} {ordered : Prop} {s : Marked} {w v : World}
variable {h : List Marked.Turn}

/-- The pools of the playbook are open, and nobody else closes them. -/
structure Undisturbed (p : Playbook) (w : World) (h : List Marked.Turn) : Prop where
  opened {q : Pool} : p.HasPool q → w.isClosed q = false
  others {q : Pool} {x y : World} : p.HasPool q → .other x y ∈ h → x.isClosed q = false →
    y.isClosed q = false

theorem Undisturbed.kept {q : Pool} (hcalm : Undisturbed p w h) (hpool : p.HasPool q) :
    Activity.Kept (fun w => w.isClosed q = false) (h.map Turn.plain) := by
  intro x y hmem
  obtain ⟨turn, hturn, hplain⟩ := List.mem_map.mp hmem
  cases turn with
  | other w v =>
      cases hplain
      exact hcalm.others hpool hturn
  | own => cases hplain
  | tick => cases hplain

theorem Undisturbed.before {h₂ : List Marked.Turn} (hcalm : Undisturbed p w (h ++ h₂)) :
    Undisturbed p w h :=
  ⟨hcalm.opened, fun hpool hmem => hcalm.others hpool (List.mem_append_left _ hmem)⟩

/-- **No fault of a run is a refusal.**  Whatever turns the branches of a plan take, no batch is refused at its
beginning, and none of its branches is refused a permit. -/
theorem Plan.never_refused (hplan : g.plan p = .ok plan)
    (hignores : ∀ id x q, g.registry.resolve? id = some x → p.HasPool q → x.Ignores g.evaluator q)
    (hkinds : ∀ id x, g.registry.resolve? id = some x →
      x.NeverFaults g.evaluator (· = .poolShutdown))
    (hcalm : Undisturbed p w h) :
    ¬ Arisen ordered g.evaluator (plan.flow.Has [] { label := plan.id }) (plan.marked g.evaluator)
      w h s v .poolShutdown := by
  intro harisen
  obtain ⟨-, h₁, m, way, x, y, h₂, r, t, pool, path, rfl, hbefore, hpiece, hclosed, inner, a, b, hrefused,
    hworks⟩ := Plan.refused_of_arisen hplan hkinds nofun harisen rfl
  obtain ⟨positions, u, hat, hhas⟩ := Plan.has_of_ofPlaybook hplan hpiece
  have hpool : p.HasPool pool := by
    cases hhas with
    | batch hid => exact Playbook.hasPool_of_task? hat hid
  have hlooksOnce : LooksOnce pool (plan.work g.evaluator) :=
    Plan.work_looksOnce hplan fun id x hx => hignores id x pool hx hpool
  have hreached := hbefore.plain
  rw [Plan.plain_marked] at hreached
  have hreliable := hlooksOnce.run (hcalm.opened hpool) hreached (hcalm.before.kept hpool)
  have hlooks : Looks pool a.plain := by
    rcases hrefused with hleft | hrefusal
    · exact hleft.looks
    · exact hrefusal.looks
  have hopen := hreliable.finds_open (hworks.looks hlooks)
  rw [hclosed] at hopen
  cases hopen

/-- **A run of a plan explains a fault**: under the numbers of branches, it is a fault that has arisen in the run
from a guard or a task, and not from a pool that is closed. -/
def Plan.Explains (plan : Plan) (ordered : Prop) (e : Evaluator) (w : World) (h : List Marked.Turn)
    (s : Marked) (v : World) (fault : Fault) : Prop :=
  ∃ origin is, fault = Fault.under origin is ∧ origin ≠ .poolShutdown ∧
    Arisen ordered e (plan.flow.Has [] { label := plan.id }) (plan.marked e) w h s v origin

theorem Plan.Explains.ne_poolShutdown {e : Evaluator} {fault : Fault}
    (hexplains : plan.Explains ordered e w h s v fault) : fault ≠ .poolShutdown := by
  obtain ⟨origin, is, rfl, hne, -⟩ := hexplains
  cases is with
  | nil => exact hne
  | cons i rest => nofun

/-- **Whatever fault ends a run, the run explains it.** -/
theorem Plan.explains (hplan : g.plan p = .ok plan)
    (hignores : ∀ id x q, g.registry.resolve? id = some x → p.HasPool q → x.Ignores g.evaluator q)
    (hkinds : ∀ id x, g.registry.resolve? id = some x →
      x.NeverFaults g.evaluator (· = .poolShutdown))
    (hcalm : Undisturbed p w h) {fault : Fault}
    (hrun : Run ordered (plan.marked g.evaluator) w h (.done (.error fault)) v) :
    plan.Explains ordered g.evaluator w h (.done (.error fault)) v fault := by
  obtain ⟨origin, is, heq, harisen⟩ := Flow.fault_arises (f := plan.flow) hrun nofun
  refine ⟨origin, is, heq, ?_, harisen⟩
  rintro rfl
  exact Plan.never_refused hplan hignores hkinds hcalm harisen

/-- All pools of a playbook are new when an engine runs it. -/
theorem Engine.prepare_undisturbed (g : Engine) (p : Playbook) (plan : Plan) (c : Context)
    (halone : ∀ x y, Turn.other x y ∉ h) :
    Undisturbed p (g.prepare p plan { context := c }) h := by
  refine ⟨?_, ?_⟩
  · intro q hpool
    rw [Engine.prepare_isClosed]
    rfl
  · intro q x y hpool hmem
    exact (halone x y hmem).elim

end

/-- **A playbook never trips over its own pools.**  The kinds of tasks of an engine know nothing of the pools of a
playbook, and never end with the fault of a pool that is closed.

* In any run of the plan that begins with the pools open, while nobody else closes them and whatever turns the
  branches take, this fault does not arise: no batch finds its pool closed at its beginning, and no branch that
  asks for a permit or waits for one is refused it, also when a fault has closed the pool of another batch, or a
  branch of the same batch has faulted while others wait.
* So it is not the fault that the run ends with, nor is it within the message of one, at any depth: the
  run explains its fault by a guard or a task.
* The same goes for what an engine returns, on any context, be it the first run or a later one. -/
theorem own_pools_never_refuse {g : Engine} {p : Playbook}
    (hignores : ∀ id x q, g.registry.resolve? id = some x → p.HasPool q → x.Ignores g.evaluator q)
    (hkinds : ∀ id x, g.registry.resolve? id = some x →
      x.NeverFaults g.evaluator (· = .poolShutdown)) :
    (∀ {plan ordered w h s v}, g.plan p = .ok plan → Undisturbed p w h →
      ¬ Arisen ordered g.evaluator (plan.flow.Has [] { label := plan.id })
          (plan.marked g.evaluator) w h s v .poolShutdown ∧
        ∀ fault, s = .done (.error fault) → Run ordered (plan.marked g.evaluator) w h s v →
          fault ≠ .poolShutdown ∧ plan.Explains ordered g.evaluator w h s v fault) ∧
    ∀ {c fault v}, g.run p c = some (.error fault, v) → fault ≠ .poolShutdown ∧
      (g.plan p = .error fault ∨ ∃ plan h u, g.plan p = .ok plan ∧
        plan.Explains True g.evaluator (g.prepare p plan { context := c }) h
          (.done (.error fault)) u fault) := by
  refine ⟨?_, ?_⟩
  · intro plan ordered w h s v hplan hcalm
    refine ⟨Plan.never_refused hplan hignores hkinds hcalm, ?_⟩
    rintro fault rfl hrun
    have hexplains := Plan.explains hplan hignores hkinds hcalm hrun
    exact ⟨hexplains.ne_poolShutdown, hexplains⟩
  · intro c fault v hrun
    cases hplan : g.plan p with
    | error fault' =>
        rw [Engine.run_of_error hplan c] at hrun
        cases hrun
        refine ⟨?_, Or.inl rfl⟩
        rintro rfl
        cases Plan.isCompileFault_of_error hplan
    | ok plan =>
        obtain ⟨h, u, halone, hmarked⟩ := Engine.run_marked hplan hrun
        have hexplains := Plan.explains hplan hignores hkinds
          (g.prepare_undisturbed p plan c halone) hmarked
        exact ⟨hexplains.ne_poolShutdown, Or.inr ⟨plan, h, u, rfl, hexplains⟩⟩

/-- The task that faults. -/
private def stumbling : Executable where
  name := "stumble"
  behave _ _ := .fail (.taskFailed "stumble" "no")

private def narrow : Engine where
  registry := ({} : Registry).registerAll [stumbling]
  evaluator := { evaluate := fun text _ => .ok (.string text), validate := fun _ _ => .ok true }

/-- A batch in the first branch of another one, each with a single permit and a branch that waits for it. -/
private def crowded : Playbook where
  id := "crowded"
  tasks := [{ id := "parallel", threads := 1, children := [
    { id := "parallel", threads := 1, children := [{ id := "stumble" }, { id := "stumble" }] },
    { id := "stumble" }] }]

/-- The fault of the innermost task comes out, in the second run as in the first one. -/
theorem own_pools_never_refuse_crowded : ∃ v u,
    narrow.run crowded {} = some (.error ((Fault.taskFailed "stumble" "no").under [0, 0]), v) ∧
    narrow.run crowded v.context =
      some (.error ((Fault.taskFailed "stumble" "no").under [0, 0]), u) ∧
    ∃ plan h u, narrow.plan crowded = .ok plan ∧
      plan.Explains True narrow.evaluator (narrow.prepare crowded plan { context := v.context }) h
        (.done (.error ((Fault.taskFailed "stumble" "no").under [0, 0]))) u
        ((Fault.taskFailed "stumble" "no").under [0, 0]) := by
  have hkind {id : String} {x : Executable} (hx : narrow.registry.resolve? id = some x) :
      x = stumbling :=
    List.mem_singleton.mp (Registry.mem_of_resolve? hx)
  have hignores (id : String) (x : Executable) (q : Pool)
      (hx : narrow.registry.resolve? id = some x) (_ : crowded.HasPool q) :
      x.Ignores narrow.evaluator q := by
    rw [hkind hx]
    intro brief
    exact .done
  have hnever (id : String) (x : Executable) (hx : narrow.registry.resolve? id = some x) :
      x.NeverFaults narrow.evaluator (· = .poolShutdown) := by
    rw [hkind hx]
    intro brief w h fault v hrun
    obtain ⟨heq, -⟩ := Activity.Run.of_done hrun
    cases heq
    nofun
  obtain ⟨-, hengine⟩ := own_pools_never_refuse hignores hnever
  obtain ⟨v, hfirst⟩ : ∃ v, narrow.run crowded {} =
      some (.error ((Fault.taskFailed "stumble" "no").under [0, 0]), v) := ⟨_, rfl⟩
  obtain ⟨u, hsecond⟩ : ∃ u, narrow.run crowded v.context =
      some (.error ((Fault.taskFailed "stumble" "no").under [0, 0]), u) := by
    cases hfirst
    exact ⟨_, rfl⟩
  obtain ⟨-, hfault | hexplains⟩ := hengine hsecond
  · cases hfault
  · exact ⟨v, u, hfirst, hsecond, hexplains⟩

end Runsheet
