import Runsheet.Flow.Work
import Runsheet.Proofs.Branches

/-!
# Batches

The run of a parallel flow from its first look at the pool to its end, and the run of one of its
branches from its permit to its report.

* `Run.of_batch` — a batch finds its pool closed, or splits into its branches on all the permits;
* `Run.of_open_batch` — a batch that ends on an open pool has split, and its branches have ended it;
* `Run.of_conclude` — after the branches the pool is closed, and the batch ends with the reports or
  with the fault that was read first;
* `Run.of_branch` — a branch is skipped, ends with what its work ends with, or is cut off at its
  limit.
-/

namespace Runsheet

namespace Activity

variable {ordered : Prop} {way : Way} {a b c : Activity} {w v u x : World} {h g : List Turn}
variable {name : String} {pool : Pool} {threads limit : Nat} {branches : List Activity}

theorem threadsOf_pos (threads : Nat) : 0 < threadsOf threads := by
  unfold threadsOf
  have hmany : 1 < Nat.pow 2 61 := by decide
  omega

/-- What a batch ends with. -/
def concluded : Reading → Outcome
  | .error (index, fault) => .error (.branchFault index fault.message)
  | .ok reports => (gatherFrom 0 reports).map .parallel

/-- The reports of all branches are what the batch ends with. -/
theorem concluded_reports (rs : List Report) :
    concluded (.ok (rs.map some)) = .ok (.parallel rs) := by
  rw [concluded, gatherFrom_eq_ok.mpr rfl]
  rfl

/-- What is made of the reports of the branches, when the pool has been closed. -/
private theorem Run.of_gathered {count : String} {reports : List (Option Report)} (pool : Pool)
    (hrun : Run ordered (match gatherFrom 0 reports with
      | .error fault => fail fault
      | .ok reports =>
        let ok := toString (reports.countP fun r => !r.isFailed)
        note .info (name ++ " finished: " ++ ok ++ " of " ++ count ++ " branches completed")
          (report (.parallel reports))) w h c u) :
    (∃ f next, c = .act f next) ∨
      (c = .done (concluded (.ok reports)) ∧ ticks h = 0 ∧ Unsplit h ∧
        (Kept (fun w => w.isClosed pool = true) h → w.isClosed pool = true →
          u.isClosed pool = true)) := by
  cases hgather : gatherFrom 0 reports with
  | error fault =>
      rw [hgather] at hrun
      have hconcluded : concluded (.ok reports) = .error fault := by
        rw [concluded, hgather]
        rfl
      rw [hconcluded]
      obtain ⟨rfl, hidle⟩ := hrun.of_done
      exact Or.inr ⟨rfl, hidle.ticks, hidle.unsplit, fun hkept hclosed =>
        hrun.kept_idle hidle hkept hclosed⟩
  | ok rs =>
      rw [hgather] at hrun
      have hconcluded : concluded (.ok reports) = .ok (.parallel rs) := by
        rw [concluded, hgather]
        rfl
      rw [hconcluded]
      rcases Run.of_change hrun with ⟨rfl, _⟩ | ⟨h₁, h₂, y, z, rfl, hz, hidle₁, hbefore, hend⟩
      · exact Or.inl ⟨_, _, rfl⟩
      obtain ⟨rfl, hidle₂⟩ := hend.of_done
      refine Or.inr ⟨rfl, by simp [hidle₁.ticks, hidle₂.ticks], ?_, fun hkept hclosed => ?_⟩
      · simp [unsplit_append, unsplit_own, hidle₁.unsplit, hidle₂.unsplit]
      · have hkept' := kept_append.mp hkept
        have hstill : y.isClosed pool = true := hbefore.kept_idle hidle₁ hkept'.1 hclosed
        exact hend.kept_idle hidle₂ hkept'.2.tail (by rw [hz]; exact hstill)

/-- **After the branches** no time passes, and the batch ends with its pool closed. -/
theorem Run.of_conclude {count : String} {reading : Reading}
    (hrun : Run ordered (conclude name pool count reading) w h c u) :
    (∃ f next, c = .act f next) ∨
      (c = .done (concluded reading) ∧ ticks h = 0 ∧ Unsplit h ∧
        (Kept (fun w => w.isClosed pool = true) h → u.isClosed pool = true)) := by
  rcases reading with ⟨index, fault⟩ | reports
  · rcases Run.of_change hrun with ⟨rfl, _⟩ | ⟨h₁, g, v, x, rfl, _, hidle₁, _, hrun⟩
    · exact Or.inl ⟨_, _, rfl⟩
    rcases Run.of_change hrun with ⟨rfl, _⟩ | ⟨h₂, h₃, y, z, rfl, hz, hidle₂, _, hend⟩
    · exact Or.inl ⟨_, _, rfl⟩
    obtain ⟨rfl, hidle₃⟩ := hend.of_done
    have hunsplit : Unsplit (h₁ ++ .own [] v x :: (h₂ ++ .own [] y z :: h₃)) := by
      simp [unsplit_append, unsplit_own, hidle₁.unsplit, hidle₂.unsplit, hidle₃.unsplit]
    refine Or.inr ⟨rfl, by simp [hidle₁.ticks, hidle₂.ticks, hidle₃.ticks], hunsplit,
      fun hkept => ?_⟩
    have hkept₃ := (kept_append.mp (kept_append.mp hkept).2.tail).2.tail
    exact hend.kept_idle hidle₃ hkept₃ (by simp [hz, World.isClosed, World.close])
  · rcases Run.of_change hrun with ⟨rfl, _⟩ | ⟨h₁, g, v, x, rfl, hx, hidle₁, _, hrun⟩
    · exact Or.inl ⟨_, _, rfl⟩
    rcases hrun.of_gathered pool with hact | ⟨hc, hticks, hunsplit, hclosed⟩
    · exact Or.inl hact
    refine Or.inr ⟨hc, by simp [hidle₁.ticks, hticks], ?_, fun hkept => ?_⟩
    · simp [unsplit_append, unsplit_own, hidle₁.unsplit, hunsplit]
    · exact hclosed (kept_append.mp hkept).2.tail (by simp [hx, World.isClosed, World.close])

/-- The branches of a batch before they ask for their permits. -/
def splitting (name : String) (pool : Pool) (threads : Nat) (branches : List Activity) : Activity :=
  .fork (.opening pool (threadsOf threads) branches.length) (branches.map .fresh)
    (conclude name pool (toString branches.length))

/-- **The run of a batch.**  It looks at the pool; a closed one is a fault, and on an open one it
splits into its branches with all the permits. -/
theorem Run.of_batch (hrun : Run ordered (batch name pool threads limit branches) w h c u) :
    ((∃ f next, c = .act f next) ∧ ticks h = 0 ∧ Unsplit h) ∨
    (∃ h₁ v h₂, h = h₁ ++ .own [] v v :: h₂ ∧ Idle h₁ ∧
      Run ordered (batch name pool threads limit branches) w h₁
        (batch name pool threads limit branches) v ∧
      v.isClosed pool = true ∧ Run ordered (fail .poolShutdown) v h₂ c u) ∨
    ∃ h₁ v h₂ x h₃, h = (h₁ ++ .own [] v v :: h₂) ++ h₃ ∧ Idle h₁ ∧
      Run ordered (batch name pool threads limit branches) w h₁
        (batch name pool threads limit branches) v ∧
      v.isClosed pool = false ∧ ticks (h₁ ++ .own [] v v :: h₂) = 0 ∧
      Unsplit (h₁ ++ .own [] v v :: h₂) ∧ Silent (h₁ ++ .own [] v v :: h₂) ∧
      Run ordered (batch name pool threads limit branches) w (h₁ ++ .own [] v v :: h₂)
        (splitting name pool threads branches) x ∧
      Run ordered (splitting name pool threads branches) x h₃ c u := by
  rcases Run.of_act hrun with ⟨rfl, hidle₁⟩ | ⟨h₁, g, v, rfl, hidle₁, hbefore, hrun⟩
  · exact Or.inl ⟨⟨_, _, rfl⟩, hidle₁.ticks, hidle₁.unsplit⟩
  have hlook : Run ordered (batch name pool threads limit branches) v [.own [] v v] _ v :=
    .own .act .stop
  cases hclosed : v.isClosed pool with
  | true =>
      simp only [hclosed, if_true] at hrun
      exact Or.inr (Or.inl ⟨h₁, v, g, rfl, hidle₁, hbefore, hclosed, hrun⟩)
  | false =>
      simp only [hclosed, Bool.false_eq_true, if_false] at hrun hlook
      rcases Run.of_change hrun with ⟨rfl, hidle₂⟩ | ⟨h₂, h₃, x, y, rfl, rfl, hidle₂, hnote, hfork⟩
      · refine Or.inl ⟨⟨_, _, rfl⟩, ?_, ?_⟩
        · simp [hidle₁.ticks, hidle₂.ticks]
        · simp [unsplit_append, unsplit_own, hidle₁.unsplit, hidle₂.unsplit]
      have hsplit := hbefore.append (hlook.append (hnote.append (.own .act .stop)))
      refine Or.inr (Or.inr ⟨h₁, v, _, _, h₃, ?_, hidle₁, hbefore, hclosed, ?_, ?_, ?_, hsplit, hfork⟩)
      · simp
      · simp [hidle₁.ticks, hidle₂.ticks]
      · simp [unsplit_append, unsplit_own, hidle₁.unsplit, hidle₂.unsplit, Idle.unsplit idle_nil]
      · simp [silent_append, silent_own, hidle₁.silent, hidle₂.silent, Idle.silent idle_nil,
          World.note]

/-- A batch that has come to an end on an open pool, which nobody else closed, has split into its branches,
and they have ended the split. -/
theorem Run.of_open_batch {o : Outcome}
    (hrun : Run ordered (batch name pool threads limit branches) w h (.done o) u)
    (hopen : w.isClosed pool = false) (hkept : Kept (fun w => w.isClosed pool = false) h) :
    ∃ before x h₁ z reading t slots h₂,
      h = before ++ (h₁ ++ .own [] z z :: h₂) ∧ Unsplit before ∧ Silent before ∧
      Run ordered (batch name pool threads limit branches) w before
        (splitting name pool threads branches) x ∧
      Lasting ordered (.opening pool (threadsOf threads) branches.length) (branches.map .fresh) x h₁
        t slots z ∧
      Ending ordered t slots reading ∧ o = concluded reading ∧
      Run ordered (conclude name pool (toString branches.length) reading) z h₂ (.done o) u ∧
      Unsplit h₂ := by
  rcases hrun.of_batch with ⟨⟨_, _, hc⟩, _⟩ | ⟨h₁, v, h₂, rfl, hidle, hbefore, hclosed, _⟩ |
    ⟨h₁, v, h₂, x, h₃, rfl, _, _, _, _, hunsplit, hsilent, hsplit, hfork⟩
  · cases hc
  · have hstill := hbefore.kept_idle hidle (kept_append.mp hkept).1 hopen
    rw [hclosed] at hstill
    cases hstill
  · rcases hfork.of_fork with ⟨_, _, hc, _⟩ |
      ⟨g₁, g₂, z, reading, t, slots, rfl, hlast, hend, hrest⟩
    · cases hc
    rcases hrest.of_conclude with ⟨_, _, hc⟩ | ⟨hc, _, hunsplit₂, _⟩
    · cases hc
    cases hc
    exact ⟨_, x, g₁, z, reading, t, slots, g₂, rfl, hunsplit, hsilent, hsplit, hlast, hend, rfl,
      hrest, hunsplit₂⟩

/-! ### One branch -/

variable {e : Evaluator} {s : Settings} {label : String} {index : Nat} {work : Activity}

/-- A guard is evaluated once, on the context of that moment. -/
theorem Run.of_check {next : Bool → Activity} (hrun : Run ordered (s.check e next) w h c u) :
    (c = s.check e next ∧ Idle h) ∨
      ∃ h₁ v h₂, h = h₁ ++ .own [] v v :: h₂ ∧ Idle h₁ ∧
        Run ordered (s.check e next) w h₁ (s.check e next) v ∧
        ((∃ b, s.holds e v.context = .ok b ∧ Run ordered (next b) v h₂ c u) ∨
          ∃ error, s.holds e v.context = .error error ∧ c = fail (.ofError error) ∧
            Idle h₂) := by
  rcases Run.of_act hrun with hfirst | ⟨h₁, h₂, v, rfl, hidle, hbefore, hafter⟩
  · exact Or.inl hfirst
  refine Or.inr ⟨h₁, v, h₂, rfl, hidle, hbefore, ?_⟩
  cases hguard : s.holds e v.context with
  | ok b =>
      rw [hguard] at hafter
      exact Or.inl ⟨b, rfl, hafter⟩
  | error error =>
      rw [hguard] at hafter
      obtain ⟨rfl, hidle₂⟩ := hafter.of_done
      exact Or.inr ⟨error, rfl, rfl, hidle₂⟩

theorem limited_zero : limited 0 index label work = work := by
  simp [limited, limitOf?]

/-- The work of a branch under a limit is the work itself for as long as there is time; then it ends
with the outcome, or after exactly the limit with the report of a branch that is late. -/
theorem Run.of_limited (hlimit : limit ≠ 0)
    (hrun : Run ordered (limited limit index label work) w h c u) :
    (∃ b next, Run ordered work w h b u ∧ ticks h ≤ limit ∧ c = .within (limit - ticks h) b next) ∨
    (∃ h₁ h₂ o v next, h = h₁ ++ .own [] v v :: h₂ ∧ Run ordered work w h₁ (.done o) v ∧
      ticks h₁ ≤ limit ∧ Run ordered (limited limit index label work) w h₁
        (.within (limit - ticks h₁) (.done o) next) v ∧ c = .done o ∧ Idle h₂) ∨
    ∃ h₁ h₂ b v next text, h = h₁ ++ .own [] v v :: h₂ ∧ Run ordered work w h₁ b v ∧ AtRest b ∧
      ticks h₁ = limit ∧ Run ordered (limited limit index label work) w h₁ (.within 0 b next) v ∧
      Run ordered (note .warn text (report (lateReport label limit))) v h₂ c u := by
  simp only [limited, limitOf?, hlimit, if_false] at hrun ⊢
  rcases hrun.of_within with ⟨b, hbody, hle, rfl⟩ | ⟨h₁, h₂, o, v, rfl, hbody, hle, hwhole, hnext⟩ |
    ⟨h₁, h₂, b, v, rfl, hbody, hrest, heq, hwhole, hnext⟩
  · exact Or.inl ⟨b, _, hbody, hle, rfl⟩
  · obtain ⟨rfl, hidle⟩ := hnext.of_done
    exact Or.inr (Or.inl ⟨h₁, h₂, o, v, _, rfl, hbody, hle, hwhole, rfl, hidle⟩)
  · exact Or.inr (Or.inr ⟨h₁, h₂, b, v, _, _, rfl, hbody, hrest, heq, hwhole, hnext⟩)

/-- **How a branch ends**, from the moment of its guard on: with an error of the guard, without
effect if the guard fails, with the outcome of its work within the limit, or late, when the work still
waited after exactly the limit. -/
inductive BranchEnds (ordered : Prop) (e : Evaluator) (limit : Nat) (label : String) (s : Settings)
    (work : Activity) (w : World) : List Turn → Outcome → Prop
  | guardFault {error : ExpressionError} (hguard : s.holds e w.context = .error error) :
      BranchEnds ordered e limit label s work w [] (.error (.ofError error))
  | skipped (hguard : s.holds e w.context = .ok false) :
      BranchEnds ordered e limit label s work w [] (.ok .completed)
  | finished {h : List Turn} {o : Outcome} {v : World} (hguard : s.holds e w.context = .ok true)
      (hrun : Run ordered work w h (.done o) v) (hinTime : limit ≠ 0 → ticks h ≤ limit) :
      BranchEnds ordered e limit label s work w h o
  | late {h : List Turn} {b : Activity} {v : World} (hguard : s.holds e w.context = .ok true)
      (hlimit : limit ≠ 0) (hrun : Run ordered work w h b v) (hrest : AtRest b)
      (hlate : ticks h = limit) :
      BranchEnds ordered e limit label s work w h (.ok (lateReport label limit))

theorem Run.of_report {level : Level} {text : String} {r : Report} {o : Outcome}
    (hrun : Run ordered (note level text (report r)) w h (.done o) u) :
    o = .ok r ∧ ticks h = 0 ∧ Silent h := by
  rcases Run.of_change hrun with ⟨hc, _⟩ | ⟨h₁, h₂, v, x, rfl, rfl, hidle₁, _, hend⟩
  · cases hc
  obtain ⟨hc, hidle₂⟩ := hend.of_done
  cases hc
  refine ⟨rfl, by simp [hidle₁.ticks, hidle₂.ticks], ?_⟩
  simp [silent_append, silent_own, hidle₁.silent, hidle₂.silent, World.note]

end Activity

/-! ### The branches of a parallel flow -/

section

variable (e : Evaluator) (patience : Nat)

/-- The work of a branch, by its number. -/
theorem Flow.branchWorks_getElem? (limit : Nat) (place : Pool) (index : Nat) (steps : List Step)
    (i : Nat) :
    (Flow.branchWorks e patience limit place index steps)[i]? =
      steps[i]?.map fun step => Activity.branch e limit (index + i) step.label step.settings
        (step.work e patience ((index + i) :: place)) := by
  induction steps generalizing index i with
  | nil => simp [Flow.branchWorks]
  | cons step rest ih =>
      obtain ⟨s, flow⟩ := step
      cases i with
      | zero => simp [Flow.branchWorks, Step.work, Step.settings]
      | succ i =>
          have hindex : index + 1 + i = index + (i + 1) := by omega
          simp [Flow.branchWorks, ih, hindex]

theorem Flow.branchWorks_length (limit : Nat) (place : Pool) (index : Nat) (steps : List Step) :
    (Flow.branchWorks e patience limit place index steps).length = steps.length := by
  induction steps generalizing index with
  | nil => simp [Flow.branchWorks]
  | cons step rest ih =>
      obtain ⟨s, flow⟩ := step
      simp [Flow.branchWorks, ih]

/-- Every step of a parallel flow is one of its branches. -/
theorem Flow.branchWorks_of_step {limit i : Nat} {place : Pool} {steps : List Step} {step : Step}
    (hstep : steps[i]? = some step) :
    (Flow.branchWorks e patience limit place 0 steps)[i]? = some (Activity.branch e limit i step.label
      step.settings (step.work e patience (i :: place))) := by
  rw [Flow.branchWorks_getElem?, hstep, Option.map_some, Nat.zero_add]

/-- Every branch of a parallel flow is one of its steps. -/
theorem Flow.step_of_branchWorks {limit i : Nat} {place : Pool} {steps : List Step} {a : Activity}
    (ha : (Flow.branchWorks e patience limit place 0 steps)[i]? = some a) :
    ∃ step, steps[i]? = some step ∧ a = Activity.branch e limit i step.label step.settings
      (step.work e patience (i :: place)) := by
  rw [Flow.branchWorks_getElem?, Option.map_eq_some_iff] at ha
  obtain ⟨step, hstep, rfl⟩ := ha
  exact ⟨step, hstep, by rw [Nat.zero_add]⟩

end

end Runsheet
