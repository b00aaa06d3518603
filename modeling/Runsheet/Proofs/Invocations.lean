import Runsheet.Proofs.Acceptance
import Runsheet.Proofs.Budgets
import Runsheet.Proofs.MarkedWork
import Runsheet.Proofs.Nodes

/-!
# Invocations

How often the task of a leaf is invoked in a run of a plan: at most as often as the leaf itself says,
wherever it stands, and exactly so often if every guard holds, no step fails and no branch is late.  The
leaf has a budget of invocations, and every flow around it hands the budget on.

* `Marked.Owes` — an activity that keeps to a budget of invocations;
* `Plan.owes_of_stepsOf` — the steps of tasks, along the way to the leaf;
* `leaf_invoked` — the invocations of a leaf of a compiled playbook.
-/

namespace Runsheet

open Activity (limitOf? lateReport roundsOf)

/-- The turn begins an invocation of the task at positions. -/
def Mark.invokes (positions : List Nat) (m : Mark) : Bool :=
  match m.purpose with
  | .invocation => positions.reverse.isSuffixOf m.place
  | _ => false

/-- Nothing is wrong with a piece of work: the guard that is looked at does not fail, the step that is
noted has not failed, and no branch is late. -/
def Mark.Clean (e : Evaluator) (m : Mark) (w : World) : Prop :=
  match m.purpose with
  | .guard s => s.holds e w.context ≠ .ok false
  | .reported r => r.isFailed = false
  | .late => False
  | _ => True

/-- Nothing is wrong at a turn, if it is one of the run's own. -/
def Marked.Turn.Clean (e : Evaluator) : Marked.Turn → Prop
  | .own m _ w _ => m.Clean e w
  | _ => True

namespace Marked

/-- The number of invocations of the task at positions that a history begins. -/
def invocations (positions : List Nat) (h : List Turn) : Nat :=
  spent (fun m => (m.invokes positions).toNat) h

/-- The activity begins at most `n` invocations of the task at positions and, if nothing goes wrong and
`Q` says that its report counts, exactly so many. -/
def Owes (strict : Prop) (e : Evaluator) (positions : List Nat) (Q : Report → Prop → Prop) (n : Nat)
    (s : Marked) : Prop :=
  Spends (fun m w => strict → m.Clean e w) (fun m => (m.invokes positions).toNat)
    (fun k o => strict → ∀ r, o = .ok r → Q r (k = 0)) n s

/-- Every report counts. -/
def anyway (_ : Report) (exact : Prop) : Prop :=
  exact

/-- The report of work that has failed does not count. -/
def unlessFailed (r : Report) (exact : Prop) : Prop :=
  r.isFailed = false → exact

/-- The work does not fail. -/
def completed (r : Report) (exact : Prop) : Prop :=
  r.isFailed = false ∧ exact

variable {strict : Prop} {e : Evaluator} {ps : List Nat} {Q Q' : Report → Prop → Prop} {n k : Nat}
variable {s t : Marked} {m : Mark} {place pool : Pool} {settings : Settings} {label name : String}

/-! ### It is put together -/

theorem Owes.mono (hs : Owes strict e ps Q n s) (hQ : ∀ r exact, Q r exact → Q' r exact) :
    Owes strict e ps Q' n s := by
  rw [← Nat.zero_add n]
  refine .frame hs fun k o hmid hstrict r hr => hQ r _ ?_
  rw [Nat.zero_add]
  exact hmid hstrict r hr

theorem Owes.error {fault : Fault} : Owes strict e ps Q n (.done (.error fault)) :=
  .done fun _ _ => nofun

/-- When something has gone wrong nothing is owed. -/
theorem Owes.of_not (hnot : ¬ strict) (o : Outcome) : Owes strict e ps Q n (.done o) :=
  .done fun hstrict => (hnot hstrict).elim

/-- When something has gone wrong more is no harm. -/
theorem Owes.more (hnot : ¬ strict) (hs : Owes strict e ps Q n s) (d : Nat) :
    Owes strict e ps Q' (n + d) s := by
  rw [Nat.add_comm]
  exact Spends.frame hs fun _ _ _ hstrict => (hnot hstrict).elim

theorem Owes.report {r : Report} (hr : Q r True) : Owes strict e ps Q 0 (report r) := by
  refine .done fun _ r' hr' => ?_
  cases hr'
  simpa using hr

/-- What has nothing to do with the task owes nothing. -/
theorem Owes.free (hs : Only (fun m => m.invokes ps = false) s) (hQ : ∀ r, Q r True) :
    Owes strict e ps Q 0 s := by
  refine Spends.free (hs.mono fun m hm => ?_) fun o _ r _ => by simpa using hQ r
  rw [hm, Bool.toNat_false]

theorem Owes.act (hm : m.invokes ps = false) {f : World → World} {next : World → Marked}
    (hnext : ∀ w, (strict → m.Clean e w) → Owes strict e ps Q n (next w)) :
    Owes strict e ps Q n (.act m f next) := by
  have hcost : (m.invokes ps).toNat + n = n := by rw [hm, Bool.toNat_false, Nat.zero_add]
  rw [Owes, ← hcost]
  exact .act hnext

theorem Owes.note (hm : m.invokes ps = false) {level : Level} {text : String}
    (ht : Owes strict e ps Q n t) : Owes strict e ps Q n (note m level text t) :=
  .act hm fun _ _ => ht

theorem Owes.reported {r : Report} {level : Level} {text : String}
    (ht : (strict → r.isFailed = false) → Owes strict e ps Q n t) :
    Owes strict e ps Q n (Marked.note ⟨place, .reported r⟩ level text t) :=
  .act rfl fun _ hclean => ht hclean

theorem Owes.late {level : Level} {text : String} {r : Report} :
    Owes strict e ps Q n (Marked.note ⟨place, .late⟩ level text (Marked.report r)) :=
  .act rfl fun _ hclean => .of_not hclean _

theorem Owes.check {next : Bool → Marked} (hnext : Owes strict e ps Q n (next true))
    (hskip : ¬ strict → Owes strict e ps Q n (next false)) :
    Owes strict e ps Q n (check place settings e next) := by
  refine .act rfl fun w hclean => ?_
  cases hguard : settings.holds e w.context with
  | error error => exact .error
  | ok b =>
      cases b with
      | true => exact hnext
      | false => exact hskip fun hstrict => hclean hstrict hguard

/-- The turn that begins an invocation of the task is one that is owed. -/
theorem Owes.delayed {first : Purpose} {ms : Nat} (hs : Owes strict e ps Q n s) :
    Owes strict e ps Q ((Mark.invokes ps ⟨place, first⟩).toNat + n)
      (delayed place first label ms s) := by
  have hstart : Owes strict e ps Q ((Mark.invokes ps ⟨place, first⟩).toNat + n)
      (Marked.note ⟨place, first⟩ .debug ("Executing " ++ label) s) :=
    Spends.act fun _ _ => hs
  unfold Marked.delayed
  split
  · exact hstart
  · exact .note rfl (Spends.sleep rfl fun _ => hstart)

theorem Owes.upkeep {ms : Nat} (hs : Owes strict e ps Q n s) :
    Owes strict e ps Q n (Marked.delayed place .upkeep label ms s) := by
  have hdelayed : Owes strict e ps Q ((Mark.invokes ps ⟨place, .upkeep⟩).toNat + n)
      (Marked.delayed place .upkeep label ms s) := hs.delayed
  simpa [Mark.invokes] using hdelayed

theorem Owes.limited {limit index : Nat} (hs : Owes strict e ps Q n s) :
    Owes strict e ps Q n (limited place limit index label s) := by
  unfold Marked.limited
  split
  · exact hs
  · exact Spends.within rfl hs (fun k o hend => .done hend) fun k => Owes.late

theorem Owes.branch {limit index : Nat} (hs : Owes strict e ps Q n s) :
    Owes strict e ps Q n (branch place e limit index label settings s) :=
  .check hs.limited fun hnot => .note rfl (.of_not hnot _)

/-- **One after the other.**  For each report of the first activity, it counts and what follows owes its
own, or what follows owes whatever is left. -/
theorem Owes.onReport {d : Nat} (hs : Owes strict e ps Q' n s) {next : Report → Marked}
    (hnext : ∀ r, (∀ k, Owes strict e ps Q k (next r)) ∨
      (strict → ∀ exact, Q' r exact → exact) ∧ Owes strict e ps Q d (next r)) :
    Owes strict e ps Q (d + n) (s.onReport next) := by
  have hfirst : Spends (fun m w => strict → m.Clean e w) (fun m => (m.invokes ps).toNat)
      (fun k o => ∃ c, k = d + c ∧ (strict → ∀ r, o = .ok r → Q' r (c = 0))) (d + n) s :=
    .frame hs fun c o hmid => ⟨c, rfl, hmid⟩
  refine Spends.bind hfirst ?_
  rintro _ o ⟨c, rfl, hmid⟩
  rcases o with fault | r
  · exact Owes.error
  · rcases hnext r with hdoomed | ⟨hcounts, howes⟩
    · exact hdoomed (d + c)
    · rw [Nat.add_comm]
      refine Spends.frame howes fun k o hend hstrict r' hr' => ?_
      rw [hcounts hstrict _ (hmid hstrict r rfl), Nat.zero_add]
      exact hend hstrict r' hr'

/-- Each round owes the same. -/
theorem Owes.rounds {count total left : Nat} (hs : Owes strict e ps anyway n s)
    (hleft : count + left = max total 1) :
    Owes strict e ps anyway (left * n) (rounds place (.times total) label s count left) := by
  induction left generalizing count with
  | zero => exact Spends.never
  | succ left ih =>
      rw [Nat.succ_mul, Marked.rounds]
      refine hs.onReport fun r => Or.inr ⟨fun _ _ hexact => hexact, .act rfl fun w _ => ?_⟩
      by_cases hagain : count + 1 < total
      · simp only [Repetition.again, hagain, decide_true, if_true]
        exact ih (by omega)
      · obtain rfl : left = 0 := by omega
        simp only [Repetition.again, hagain, decide_false, Bool.false_eq_true, if_false, Nat.zero_mul]
        exact .note rfl (.report trivial)

theorem Owes.conclude {count : String} {reading : Reading}
    (hreports : ∀ reports, reading = .ok (reports.map some) → strict →
      unlessFailed (.parallel reports) (n = 0)) :
    Owes strict e ps unlessFailed n (conclude name pool count reading) := by
  rcases reading with ⟨index, fault⟩ | reports
  · exact .note rfl (.act rfl fun _ _ => .error)
  · refine .act rfl fun _ _ => ?_
    cases hgather : gatherFrom 0 reports with
    | error fault => exact .error
    | ok rs =>
        obtain rfl := gatherFrom_eq_ok.mp hgather
        refine .note rfl (Spends.done fun hstrict r hr => ?_)
        cases hr
        exact hreports rs rfl hstrict

/-- A batch owes what its branches do. -/
theorem Owes.batch {threads limit : Nat} {branches : List Marked} {b : Nat → Nat}
    (hbranches : ∀ i t, branches[i]? = some t → Owes strict e ps unlessFailed (b i) t) :
    Owes strict e ps unlessFailed (∑ i ∈ Finset.range branches.length, b i)
      (batch name pool threads limit branches) := by
  refine .act rfl fun w _ => ?_
  split
  · exact .error
  · have hsum : ∑ i ∈ Finset.range branches.length, b i =
        ∑ i ∈ Finset.range (branches.map Slot.fresh).length, b i := by rw [List.length_map]
    rw [hsum]
    refine .note rfl ?_
    refine Spends.fork rfl (Tally.tracks_opening pool _ branches)
      (fun i t ht => hbranches i t (ongoing_fresh.mp ht)) (fun i r hslot => ?_)
      (fun c reports hreports => Owes.conclude fun reports' heq hstrict hfine => ?_)
      fun k fault => Owes.conclude nofun
    · rw [List.getElem?_map, Option.map_eq_some_iff] at hslot
      obtain ⟨t, -, heq⟩ := hslot
      cases heq
    obtain rfl := List.map_injective_iff.mpr (Option.some_injective Report) (Except.ok.inj heq)
    refine Finset.sum_eq_zero fun i hi => ?_
    obtain ⟨r, hr⟩ : ∃ r, reports[i]? = some r :=
      ⟨_, List.getElem?_eq_getElem (Finset.mem_range.mp hi)⟩
    refine hreports i r hr hstrict r rfl ?_
    rw [Report.isFailed, Report.anyFailed_eq_any, List.any_eq_false] at hfine
    exact Bool.eq_false_iff.mpr (hfine r (List.mem_of_getElem? hr))

end Marked

open Marked

/-! ### The steps of a sequence -/

section

variable {strict : Prop} {e : Evaluator} {patience : Nat} {ps : List Nat} {place : Pool}

/-- A sequence owes what its steps do, and does not fail if nothing goes wrong. -/
theorem Flow.markedSequence_owes (steps : List Step) {n : Nat → Nat} {index : Nat}
    (hsteps : ∀ i step, steps[i]? = some step →
      Owes strict e ps unlessFailed (n i) (step.marked e patience ((index + i) :: place)))
    (name : String) (scope : SequenceScope) (last : Option Report)
    (hlast : strict → (last.getD .completed).isFailed = false) :
    Owes strict e ps completed (∑ i ∈ Finset.range steps.length, n i)
      (Flow.markedSequence e patience name scope last place index steps) := by
  induction steps generalizing n index last with
  | nil =>
      refine Spends.done fun hstrict r hr => ?_
      cases hr
      exact ⟨hlast hstrict, rfl⟩
  | cons step rest ih =>
      obtain ⟨s, flow⟩ := step
      have hfirst := hsteps 0 _ rfl
      have hrest (last : Option Report) (hlast : strict → (last.getD .completed).isFailed = false) :
          Owes strict e ps completed (∑ i ∈ Finset.range rest.length, n (i + 1))
            (Flow.markedSequence e patience name scope last place (index + 1) rest) := by
        refine ih (fun i step hstep => ?_) last hlast
        rw [Nat.add_right_comm, Nat.add_assoc]
        exact hsteps (i + 1) step hstep
      rw [List.length_cons, Finset.sum_range_succ', Flow.markedSequence.eq_def]
      refine .check (hfirst.onReport fun r => ?_) fun hnot => ?_
      · by_cases hgoes : strict ∧ r.isFailed = true
        · -- The failure is noted, so that nothing is owed any more.
          refine Or.inl fun k => ?_
          split <;> exact .reported fun hclean => by simp [hclean hgoes.1] at hgoes
        · have hfine : strict → r.isFailed = false := fun hstrict => by
            simpa using fun hfailed => hgoes ⟨hstrict, hfailed⟩
          refine Or.inr ⟨fun hstrict _ hexact => hexact (hfine hstrict), ?_⟩
          split
          next hfailed =>
            refine .reported fun _ => .of_not (fun hstrict => ?_) _
            simp [hfine hstrict] at hfailed
          next => exact .reported fun _ => hrest (some r) hfine
      · cases scope with
        | block => exact .note rfl (.of_not hnot _)
        | playbook => exact .note rfl ((hrest last hlast).more hnot _)

/-- The branches of a parallel flow owe what its steps do. -/
theorem Flow.markedBranches_owes (steps : List Step) {n : Nat → Nat}
    (hsteps : ∀ i step, steps[i]? = some step →
      Owes strict e ps unlessFailed (n i) (step.marked e patience (i :: place)))
    (name : String) (threads limit : Nat) :
    Owes strict e ps unlessFailed (∑ i ∈ Finset.range steps.length, n i)
      (batch name place threads limit (Flow.markedBranches e patience limit place 0 steps)) := by
  rw [← Flow.markedBranches_length e patience limit place 0 steps]
  refine .batch fun i t ht => ?_
  rw [Flow.markedBranches_getElem?, Option.map_eq_some_iff] at ht
  obtain ⟨step, hstep, rfl⟩ := ht
  rw [Nat.zero_add]
  exact (hsteps i step hstep).branch

/-- **A leaf** owes one invocation or, if it is repeated, one for each time. -/
theorem Plan.leaf_owes (t : Task) (x : Executable) (hplace : ps.reverse = place) :
    Owes strict e ps unlessFailed (max t.repetitions 1)
      ((Plan.leaf t x).marked e patience place) := by
  have honce (below : Pool) (hbelow : place <:+ below) (label : String) (ms : Nat) (brief : Brief) :
      Owes strict e ps anyway 1 (delayed below .invocation label ms
        ((x.behave e brief).marked ⟨below, .behavior⟩)) := by
    have hinvokes : Mark.invokes ps ⟨below, .invocation⟩ = true := by
      rwa [Mark.invokes, List.isSuffixOf_iff_suffix, hplace]
    have hbehavior : Owes strict e ps anyway 0 ((x.behave e brief).marked ⟨below, .behavior⟩) :=
      .free (only_marked (P := fun m => m.invokes ps = false) rfl _) fun _ => trivial
    have hdelayed : Owes strict e ps anyway ((Mark.invokes ps ⟨below, .invocation⟩).toNat + 0)
        (delayed below .invocation label ms _) := hbehavior.delayed
    rwa [hinvokes] at hdelayed
  unfold Plan.leaf
  split
  next hzero =>
    rw [hzero]
    exact (honce place (List.suffix_refl place) _ _ _).mono fun _ _ hexact _ => hexact
  next =>
    have hrounds (label : String) (ms : Nat) (brief : Brief) : Owes strict e ps anyway
        (max t.repetitions 1 * 1) (rounds place (.times t.repetitions) label
          (delayed (0 :: place) .invocation label ms
            ((x.behave e brief).marked ⟨0 :: place, .behavior⟩)) 0 (max t.repetitions 1)) :=
      (honce (0 :: place) (List.suffix_cons ..) label ms brief).rounds (Nat.zero_add _)
    have hwork (brief : Brief) : Owes strict e ps unlessFailed (max t.repetitions 1)
        (Flow.marked e patience place brief (.repetition t.label (.times t.repetitions)
          (.mk (settingsOf t) (.task x)))) := by
      rw [Flow.marked]
      refine .check ?_ fun hnot => .note rfl (.of_not hnot _)
      rw [← Nat.mul_one (max t.repetitions 1)]
      exact (hrounds _ _ _).mono fun _ _ hexact _ => hexact
    rw [Step.marked]
    exact (hwork _).upkeep

/-- A step that does not lead to the task owes nothing. -/
theorem Step.owes_nothing (step : Step) (hother : Below (fun p => ¬ ps.reverse <:+ p) place) :
    Owes strict e ps unlessFailed 0 (step.marked e patience place) := by
  refine .free ((Step.marked_only step hother).mono fun m hm => ?_) fun _ _ => trivial
  unfold Mark.invokes
  split
  · rw [← Bool.not_eq_true, List.isSuffixOf_iff_suffix]
    exact hm
  · rfl

/-- Of steps of which one leads to the task, the others owe nothing. -/
theorem Step.owes_of_one {steps : List Step} {k n : Nat} {step : Step}
    (hplace : (k :: place) <:+ ps.reverse) (hk : steps[k]? = some step)
    (hstep : Owes strict e ps unlessFailed n (step.marked e patience (k :: place))) :
    ∀ i other, steps[i]? = some other → Owes strict e ps unlessFailed (if i = k then n else 0)
      (other.marked e patience (i :: place)) := by
  intro i other hi
  by_cases hik : i = k
  · subst hik
    rw [if_pos rfl]
    rwa [Option.some.inj (hi.symm.trans hk)]
  · rw [if_neg hik]
    exact other.owes_nothing fun p hp hin => hik (place_unique hp (hplace.trans hin))

end

/-! ### Along the way to a leaf -/

/-- The owed invocations of one step are those of all. -/
theorem sum_one {k n length : Nat} (hk : k < length) :
    ∑ i ∈ Finset.range length, (if i = k then n else 0) = n := by
  simp [hk]

/-- **The steps of tasks**, along the way to a leaf: the step that leads to it owes its invocations. -/
theorem Plan.owes_of_stepsOf (strict : Prop) (e : Evaluator) (patience : Nat) {r : Registry}
    {ps below : List Nat} {k : Nat} {t : Task} (hleaf : t.isContainer = false) {ts : List Task}
    {steps : List Step} {path : String} {place : Pool}
    (hsteps : Plan.stepsOf r path 0 ts = .ok steps) (hat : Task.at? ts (k :: below) = some t)
    (hps : ps.reverse = below.reverse ++ k :: place) : ∃ step, steps[k]? = some step ∧
      Owes strict e ps unlessFailed (max t.repetitions 1) (step.marked e patience (k :: place)) := by
  induction below generalizing k ts steps path place with
  | nil =>
      obtain ⟨t', ht', hat⟩ := Task.at?_cons.mp hat
      obtain rfl : t' = t := by simpa [Task.at?] using hat
      obtain ⟨step, hstep, hof⟩ := Plan.exists_step hsteps ht'
      rcases Plan.stepOf_eq_ok.mp hof with ⟨hcontainer, -⟩ | ⟨-, -, x, -, rfl⟩
      · rw [hleaf] at hcontainer
        cases hcontainer
      · exact ⟨_, hstep, Plan.leaf_owes t' x hps⟩
  | cons j below ih =>
      obtain ⟨t', ht', hat⟩ := Task.at?_cons.mp hat
      have hat : Task.at? t'.children (j :: below) = some t := by simpa using hat
      obtain ⟨step, hstep, hof⟩ := Plan.exists_step hsteps ht'
      rcases Plan.stepOf_eq_ok.mp hof with ⟨-, -, inner, hinner, rfl⟩ | ⟨-, hnil, -⟩
      · have hps : ps.reverse = below.reverse ++ j :: k :: place := by rw [hps]; simp
        obtain ⟨next, hnext, howes⟩ := ih hinner hat hps
        have hall := Step.owes_of_one (hps ▸ List.suffix_append _ _) hnext howes
        have hsum : ∑ i ∈ Finset.range inner.length, (if i = j then max t.repetitions 1 else 0) =
            max t.repetitions 1 := sum_one (List.getElem?_eq_some_iff.mp hnext).1
        refine ⟨_, hstep, ?_⟩
        by_cases hid : t'.id = blockId
        · have hzero : ∀ i step, inner[i]? = some step → Owes strict e ps unlessFailed
              (if i = j then max t.repetitions 1 else 0)
              (step.marked e patience ((0 + i) :: k :: place)) := by
            simpa only [Nat.zero_add] using hall
          have hflow := Flow.markedSequence_owes inner hzero blockId .block none fun _ => rfl
          rw [hsum] at hflow
          have hlax : Owes strict e ps unlessFailed (max t.repetitions 1) _ :=
            hflow.mono fun _ _ hboth _ => hboth.2
          rw [if_pos hid, Step.marked]
          exact hlax.upkeep
        · have hflow := Flow.markedBranches_owes inner hall t'.label t'.threads (t'.timeout * 1000)
          rw [hsum] at hflow
          rw [if_neg hid, Step.marked]
          exact Owes.upkeep hflow
      · rw [hnil] at hat
        simp [Task.at?] at hat

/-- **No leaf is lost or run twice.**  Take any run of the plan of a playbook, whatever turns parallel
branches take and whatever else goes on beside it: its turns have marks.  Then the task of a leaf is
invoked at most as often as the leaf itself says, once or once for each of its repetitions.  And if the
run ends without a fault, no guard that is looked at fails, no report of a step of a sequence says that
it has failed, and no branch is late, then the task of each leaf is invoked exactly so often, and the
report of the run is that it is completed. -/
theorem leaf_invoked {r : Registry} {p : Playbook} {plan : Plan}
    (hplan : Plan.ofPlaybook r p = .ok plan) (e : Evaluator) (ordered : Prop)
    (positions : List Nat) {t : Task} (ht : p.task? positions = some t)
    (hleaf : t.isContainer = false) :
    (∀ {w k b v}, Activity.Run ordered (plan.work e) w k b v →
      ∃ h s, Run ordered (plan.marked e) w h s v ∧ h.map Turn.plain = k ∧ s.plain = b) ∧
    (∀ {w h s v}, Run ordered (plan.marked e) w h s v →
      invocations positions h ≤ max t.repetitions 1) ∧
    ∀ {w h o v}, Run ordered (plan.marked e) w h (.done o) v →
      (∀ turn ∈ h, turn.Clean e) → (∀ fault, o ≠ .error fault) →
      invocations positions h = max t.repetitions 1 ∧
        ∃ report, o = .ok report ∧ report.status = .completed := by
  obtain ⟨-, steps, hsteps, rfl⟩ := Plan.ofPlaybook_eq_ok.mp hplan
  have howes (strict : Prop) : Owes strict e positions completed (max t.repetitions 1)
      (Plan.marked ⟨p.id, steps⟩ e) := by
    cases positions with
    | nil => simp [Playbook.task?, Task.at?] at ht
    | cons k below =>
        have hreverse : (k :: below).reverse = below.reverse ++ [k] := by simp
        obtain ⟨step, hstep, hone⟩ :=
          Plan.owes_of_stepsOf strict e patience hleaf hsteps ht hreverse
        have hall : ∀ i step, steps[i]? = some step → Owes strict e (k :: below) unlessFailed
            (if i = k then max t.repetitions 1 else 0) (step.marked e patience [0 + i]) := by
          simpa only [Nat.zero_add] using
            Step.owes_of_one (hreverse ▸ List.suffix_append _ _) hstep hone
        have hflow := Flow.markedSequence_owes steps hall p.id .playbook none fun _ => rfl
        rwa [sum_one (List.getElem?_eq_some_iff.mp hstep).1] at hflow
  refine ⟨fun hrun => Run.marked (by rwa [Plan.plain_marked]), fun hrun => ?_,
    fun {w h o v} hrun hclean hfine => ?_⟩
  · obtain ⟨d, hd, -⟩ := (howes False).run hrun fun _ _ _ _ _ => False.elim
    rw [hd]
    exact Nat.le_add_right ..
  · obtain ⟨d, hd, hend⟩ := (howes True).run hrun fun _ _ _ _ hmem _ => hclean _ hmem
    rcases o with fault | report
    · exact (hfine fault rfl).elim
    · obtain ⟨hcompleted, rfl⟩ := hend.ended trivial report rfl
      exact ⟨by rw [hd, Nat.add_zero, invocations], report, rfl, by simp [Report.status, hcompleted]⟩

/-- The task that does nothing. -/
private def idling : Executable where
  name := "idle"
  behave _ _ := .instant fun w => (.completed, w)

/-- A task that is repeated, and is not repeated more often for the block around it. -/
private def thrice : Playbook where
  id := "thrice"
  tasks := [{ id := "block", repetitions := 5, children := [{ id := "idle", repetitions := 3 }] }]

private def thricePlan : Plan where
  id := "thrice"
  steps := [.mk {} (.sequence "block" .block
    [.mk { name := some "idle" } (.repetition "idle" (.times 3) (.mk {} (.task idling)))])]

/-- The run of the plan invokes the task three times, and is completed. -/
theorem leaf_invoked_thrice : Plan.ofPlaybook ⟨[("idle", idling)]⟩ thrice = .ok thricePlan ∧
    ∃ h v, Run False (thricePlan.marked (.standard {})) {} h (.done (.ok .completed)) v ∧
      invocations [0, 0] h = 3 := by
  have hplan : Plan.ofPlaybook ⟨[("idle", idling)]⟩ thrice = .ok thricePlan := rfl
  have hrun := (.own .act <| .own .act <| .own .act <| .own .act <| .own .act <| .own .act <|
    .own .act <| .own .act <| .own .act <| .own .act <| .own .act <| .own .act <| .own .act <|
    .own .act <| .own .act <| .own .act <| .own .act <| .stop :
    Run False (thricePlan.marked (.standard {})) {} _ (.done (.ok .completed)) _)
  refine ⟨hplan, _, _, hrun, ((leaf_invoked hplan (.standard {}) False [0, 0] rfl rfl).2.2 hrun ?_
    nofun).1⟩
  simp only [List.forall_mem_cons]
  exact ⟨nofun, trivial, nofun, trivial, nofun, trivial, trivial, trivial, trivial, trivial, trivial,
    trivial, trivial, trivial, trivial, rfl, rfl, nofun⟩

end Runsheet
