import Runsheet.Proofs.Batch
import Runsheet.Proofs.CatchingUp
import Runsheet.Proofs.Heedless
import Runsheet.Proofs.Meaning

/-!
# A plan means what its playbook means

The work of a plan mirrors what its playbook does: besides, it writes to the log, and its parallel flows
look at their pools and close them.  That every pool is open when its flow begins is not a matter of
course, and follows from the places of the flows, of which each is used once.

* `Mirrors.batch` — a parallel flow, from its branches;
* `Plan.stepOf_compiled` — the step of a task, by induction over the tree;
* `plan_preserves_meaning` — the result.
-/

namespace Runsheet

namespace Activity

variable {pools fresh region : Pool → Prop} {w v : World} {a b : Activity}
variable {e : Evaluator} {label name : String} {place : Pool}

/-! ### The parts of a flow -/

/-- A look at the world that decides nothing. -/
theorem Mirrors.looked (h : Mirrors pools fresh region a b) :
    Mirrors pools fresh region (look fun _ => a) b :=
  .silent (fun w => ⟨.refl w, .refl w⟩) (fun _ (hp : False) => hp.elim)
    (fun _ hp => ⟨hp, id⟩) fun _ _ => h

theorem Mirrors.delayed (h : Mirrors pools fresh region a b) (label : String) (ms : Nat) :
    Mirrors pools fresh region (delayed label ms a) (after ms b) := by
  have hstart := h.note .debug ("Executing " ++ label)
  unfold Activity.delayed after
  by_cases hms : ms = 0
  · rw [if_pos hms, if_pos hms]
    exact hstart
  · rw [if_neg hms, if_neg hms]
    exact .note (.sleep fun _ _ _ => hstart) _ _

theorem Mirrors.limited (h : Mirrors pools fresh region a b) (limit index : Nat)
    (label : String) : Mirrors pools fresh region (limited limit index label a)
      (inTime limit label b) := by
  unfold Activity.limited inTime limitOf?
  by_cases hlimit : limit = 0
  · rw [if_pos hlimit, if_pos hlimit]
    exact h
  · rw [if_neg hlimit, if_neg hlimit]
    refine .within (fun _ hp => hp) (fun _ hp => hp) (fun _ (hp : False) => hp.elim) h fun o => ?_
    cases o with
    | some o => exact .done
    | none => exact .note .done _ _

/-- Rounds that are counted are so many repetitions. -/
theorem Mirrors.rounds {n : Nat} (h : Mirrors pools (fun _ => False) (fun _ => False) a b)
    (label : String) {count left : Nat} (hcount : count + (left + 1) = n) (last : Report) :
    Mirrors pools (fun _ => False) (fun _ => False) (rounds (.times n) label a count (left + 1))
      (times b last (left + 1)) := by
  induction left generalizing count last with
  | zero =>
      refine h.onReport (fun _ hp => hp) (fun _ hp => hp) (fun _ (hp : False) => hp.elim) fun r => ?_
      have hlast (w : World) : (Repetition.times n).again (count + 1) w r = false := by
        simp only [Repetition.again, decide_eq_false_iff_not]
        omega
      simp only [hlast, Bool.false_eq_true, if_false]
      exact .looked (.note .done _ _)
  | succ left ih =>
      refine h.onReport (fun _ hp => hp) (fun _ hp => hp) (fun _ (hp : False) => hp.elim) fun r => ?_
      have hagain (w : World) : (Repetition.times n).again (count + 1) w r = true := by
        simp only [Repetition.again, decide_eq_true_eq]
        omega
      simp only [hagain, if_true]
      exact .looked (ih (by omega) r)

/-- The guard of a step is the guard of its task. -/
theorem Mirrors.check {t : Task} {next next' : Bool → Activity}
    (hnext : ∀ b, Mirrors pools fresh region (next b) (next' b)) :
    Mirrors pools fresh region ((Plan.settingsOf t).check e next) (t.guarded e next') := by
  unfold Settings.check Task.guarded
  cases hguard : t.guard with
  | none =>
      have hholds (c : Context) : (Plan.settingsOf t).holds e c = .ok true := by
        simp only [Settings.holds, Plan.settingsOf, hguard]
      simp only [hholds]
      exact (hnext true).looked
  | some text =>
      have hholds (c : Context) : (Plan.settingsOf t).holds e c =
          e.validate text (Table.override c.values (Table.ofList t.vars)) := by
        simp only [Settings.holds, Plan.settingsOf, hguard, Context.validate, Context.seenBy]
      simp only [hholds]
      refine .act (fun _ _ hlike => hlike) (fun w => .refl w) (fun v => .refl v) fun w v hlike => ?_
      simp only [hlike.context]
      cases e.validate text (Table.override w.context.values (Table.ofList t.vars)) with
      | ok b => exact hnext b
      | error error => exact .done

/-- A step without a guard goes on. -/
theorem Mirrors.unguarded {s : Settings} {next : Bool → Activity} (hs : s.guard = none)
    (h : Mirrors pools fresh region (next true) b) :
    Mirrors pools fresh region (s.check e next) b := by
  unfold Settings.check Settings.holds
  rw [hs]
  exact h.looked

/-- What follows the branches: the pool of a batch is closed. -/
theorem Mirrors.conclude {count : String} (hplace : pools place) (reading : Reading) :
    Mirrors pools (fun _ => False) (fun q => place <:+ q) (conclude name place count reading)
      (match reading with
      | .error (index, fault) => fail (.branchFault index fault.message)
      | .ok reports => .done ((gatherFrom 0 reports).map .parallel)) := by
  have hcloses {a b : Activity} (text : String)
      (h : Mirrors pools (fun _ => False) (fun q => place <:+ q) a b) :
      Mirrors pools (fun _ => False) (fun q => place <:+ q)
        (change (fun w => (w.note .debug text).close place) a) b := by
    refine .silent (fun w => ⟨⟨rfl, rfl, rfl, fun {q} hq => ?_⟩, fun q _ hq => ?_⟩)
      (fun q (hq : q = place) => hq ▸ List.suffix_refl _) (fun _ (hp : False) => hp.elim) fun _ _ => h
    · have hne : q ≠ place := by
        rintro rfl
        exact hq hplace
      simp [World.isClosed, World.close, World.note, hne]
    · simp [World.isClosed, World.close, World.note, hq]
  rcases reading with ⟨index, fault⟩ | reports
  · exact .note (hcloses _ .done) _ _
  · refine hcloses _ ?_
    dsimp only
    cases gatherFrom 0 reports with
    | error fault => exact .done
    | ok rs => exact .note .done _ _

/-- **A parallel flow** whose pool is fresh does what its branches do side by side. -/
theorem Mirrors.batch {own : Nat → Pool → Prop} {branches branches' : List Activity}
    {threads limit : Nat} (hplace : pools place) (hfresh : fresh place)
    (hown : ∀ i p, own i p → fresh p ∧ (i :: place) <:+ p)
    (hlength : branches.length = branches'.length)
    (hbranches : ∀ i a b, branches[i]? = some a → branches'[i]? = some b →
      Mirrors pools (own i) (fun p => (i :: place) <:+ p) a b) :
    Mirrors pools fresh (fun p => place <:+ p) (batch name place threads limit branches)
      (sideBySide place threads branches') := by
  refine .silent (fun w => ⟨.refl w, .refl w⟩) (fun _ (hp : False) => hp.elim)
    (fun _ hp => ⟨hp, id⟩) fun w hready => ?_
  have hopen : w.isClosed place = false := (hready place hfresh).2
  simp only [hopen, Bool.false_eq_true, if_false]
  unfold sideBySide
  rw [hlength]
  refine .note (.fork (fun _ => ⟨hfresh, fun i hi => ?_⟩) hown
    (fun i p (hp : (i :: place) <:+ p) => (List.suffix_cons i place).trans hp)
    (fun i j p hi hj => place_unique hi hj) (fun _ (hp : False) => hp.elim) ?_
    (fun i s s' a b hs hs' ha hb => ?_) (.conclude hplace)) _ _
  · -- no branch has the place of the batch itself
    have hsuffix : (i :: place) <:+ place := hi
    have hlength := hsuffix.length_le
    rw [List.length_cons] at hlength
    omega
  · have hfresh : Slot.shape ∘ Slot.fresh = fun _ : Activity => Slot.fresh () := rfl
    rw [Abreast, List.map_map, List.map_map, hfresh, List.map_const', List.map_const', hlength]
  · rw [List.getElem?_map, Option.map_eq_some_iff] at hs hs'
    obtain ⟨a₁, hslot, rfl⟩ := hs
    obtain ⟨b₁, hslot', rfl⟩ := hs'
    cases ha
    cases hb
    exact hbranches i _ _ hslot hslot'

end Activity

open Activity

mutual

theorem Task.HasPool.below {q place : Pool} (t : Task) (h : t.HasPool q place) : place <:+ q := by
  match t with
  | ⟨id, _, _, _, _, _, _, _, _, children⟩ =>
      rcases h with ⟨_, rfl⟩ | hchild
      · exact List.suffix_refl _
      · obtain ⟨i, _, hi⟩ := Task.SomeHasPool.below children hchild
        exact (List.suffix_cons i place).trans hi

theorem Task.SomeHasPool.below {q place : Pool} {index : Nat} (ts : List Task)
    (h : Task.SomeHasPool q place index ts) : ∃ i, index ≤ i ∧ (i :: place) <:+ q := by
  match ts with
  | [] => exact h.elim
  | t :: rest =>
      rcases h with hfirst | hrest
      · exact ⟨index, Nat.le_refl index, Task.HasPool.below t hfirst⟩
      · obtain ⟨i, hle, hi⟩ := Task.SomeHasPool.below rest hrest
        exact ⟨i, by omega, hi⟩

end

section

variable {r : Registry} {e : Evaluator} {patience : Nat} {pools : Pool → Prop}

/-- The work of the step means what the task means. -/
inductive Compiled (r : Registry) (e : Evaluator) (patience : Nat) (pools : Pool → Prop) :
    Task → Step → Prop
  | once {t : Task} {flow : Flow} (hrepeated : t.isRepeated = false)
      (hlabel : (Step.mk (Plan.settingsOf t) flow).label = t.title r)
      (hisolates : flow.isolatesFailure = t.isolates r)
      (hwork : ∀ place, (∀ q, t.HasPool q place → pools q) →
        Mirrors pools (fun q => t.HasPool q place) (fun q => place <:+ q)
          (flow.work e patience place (Step.mk (Plan.settingsOf t) flow).brief)
          (t.execute r e (Task.isolates r) place)) :
      Compiled r e patience pools t (.mk (Plan.settingsOf t) flow)
  | repeated {t : Task} {x : Executable} (hrepeated : t.isRepeated = true)
      (hwork : ∀ place, Mirrors pools (fun _ => False) (fun _ => False)
        (x.behave e (Step.mk (Plan.settingsOf t) (.task x)).brief) (t.execute r e (Task.isolates r) place)) :
      Compiled r e patience pools t (.mk { name := some t.label }
        (.repetition t.label (.times t.repetitions) (.mk (Plan.settingsOf t) (.task x))))

/-- The work of the steps means what the tasks mean. -/
inductive CompiledAll (r : Registry) (e : Evaluator) (patience : Nat) (pools : Pool → Prop) :
    List Task → List Step → Prop
  | nil : CompiledAll r e patience pools [] []
  | cons {t : Task} {step : Step} {ts : List Task} {steps : List Step}
      (hstep : Compiled r e patience pools t step)
      (hrest : CompiledAll r e patience pools ts steps) :
      CompiledAll r e patience pools (t :: ts) (step :: steps)

/-- A task that is repeated looks at its guard once, and then does the same so many times. -/
theorem repeated_mirrors {t : Task} {x : Executable} {place : Pool} {label : String} {brief : Brief}
    (hrepeated : t.isRepeated = true)
    (hwork : Mirrors pools (fun _ => False) (fun _ => False)
      (x.behave e (Step.mk (Plan.settingsOf t) (.task x)).brief) (t.execute r e (Task.isolates r) place)) :
    Mirrors pools (fun _ => False) (fun _ => False)
      (delayed label 0 ((Flow.repetition t.label (.times t.repetitions)
        (.mk (Plan.settingsOf t) (.task x))).work e patience place brief))
      (t.repeated e (after t.delay (t.execute r e (Task.isolates r) place))) := by
  obtain ⟨n, hn⟩ : ∃ n, t.repetitions = n + 1 := by
    cases hcount : t.repetitions with
    | zero => simp [Task.isRepeated, hcount] at hrepeated
    | succ n => exact ⟨n, rfl⟩
  refine .note (.check fun passes => ?_) _ _
  cases passes with
  | false => exact .note .done _ _
  | true =>
      rw [hn, roundsOf, Nat.max_eq_left (by omega)]
      exact (hwork.delayed _ _).rounds _ (by omega) _

/-- **A list of steps** means what the list of its tasks means. -/
theorem sequence_mirrors {ts : List Task} {steps : List Step}
    (h : CompiledAll r e patience pools ts steps) {place : Pool} {index : Nat}
    (hpools : ∀ q, Task.SomeHasPool q place index ts → pools q) (name : String)
    (scope : SequenceScope) (last : Option Report) :
    Mirrors pools (fun q => Task.SomeHasPool q place index ts) (fun q => place <:+ q)
      (Flow.sequenceWork e patience name scope last place index steps)
      (Task.executeList r e (Task.isolates r) scope (last.getD .completed) place index ts) := by
  induction h generalizing index last with
  | nil => exact .done
  | @cons t step ts steps hstep _ ih =>
      have hpart : ∀ q, (index :: place) <:+ q → place <:+ q :=
        fun q hq => (List.suffix_cons index place).trans hq
      have hlater : ∀ q, Task.SomeHasPool q place (index + 1) ts →
          Task.SomeHasPool q place index (t :: ts) ∧ ¬ (index :: place) <:+ q := by
        intro q hq
        refine ⟨Or.inr hq, fun hfirst => ?_⟩
        obtain ⟨j, hle, hj⟩ := Task.SomeHasPool.below ts hq
        have hsame := place_unique hj hfirst
        omega
      have hrest (last : Option Report) := ih (fun q hq => hpools q (Or.inr hq)) last
      have hgoes (r : Report) (label : String) := (hrest (some r)).note .debug
        (label ++ " finished with " ++ r.status.text)
      cases hstep with
      | @once flow hrepeated hlabel hisolates hwork =>
          rw [Task.executeList, hrepeated, if_neg Bool.false_ne_true]
          refine .check fun passes => ?_
          cases passes with
          | false =>
              cases scope with
              | block => exact .note .done _ _
              | playbook => exact .note ((hrest last).mono (fun q hq => Or.inr hq) fun _ hq => hq) _ _
          | true =>
              have hfirst := hwork (index :: place) fun q hq => hpools q (Or.inl hq)
              refine (hfirst.delayed _ _).onReport (fun q hq => Or.inl hq) hpart hlater fun report => ?_
              have hstops : (report.isFailed && !(Step.mk (Plan.settingsOf t) flow).isolatesFailure) =
                  (report.isFailed && !t.isolates r) := by
                rw [Step.isolatesFailure, Step.flow, hisolates]
              simp only [hstops]
              by_cases hfails : (report.isFailed && !t.isolates r) = true
              · rw [if_pos hfails, if_pos hfails]
                exact .note .done _ _
              · rw [if_neg hfails, if_neg hfails]
                exact hgoes report _
      | @repeated x hrepeated hwork =>
          rw [Task.executeList, hrepeated, if_pos rfl, Flow.sequenceWork.eq_def]
          refine .unguarded rfl ?_
          have hfirst := @repeated_mirrors _ _ patience _ _ _ _ (Step.mk { name := some t.label }
            (.repetition t.label (.times t.repetitions) (.mk (Plan.settingsOf t) (.task x)))).label
            ⟨t.label, none, []⟩ hrepeated (hwork (index :: place))
          refine hfirst.onReport (fun _ hq => hq.elim) (fun _ hq => hq.elim)
            (fun q hq => ⟨Or.inr hq, id⟩) fun r => ?_
          cases hfails : r.isFailed with
          | true => exact .note .done _ _
          | false => exact hgoes r _

/-- **A branch** means what its task means. -/
theorem branch_mirrors {t : Task} {step : Step} (h : Compiled r e patience pools t step)
    {place : Pool} (hpools : ∀ q, t.HasPool q place → pools q) (limit index : Nat) :
    Mirrors pools (fun q => t.HasPool q place) (fun q => place <:+ q)
      (branch e limit index step.label step.settings (delayed step.label step.settings.delay
        (step.flow.work e patience place step.brief)))
      (t.branch r e limit (after t.delay (t.execute r e (Task.isolates r) place))) := by
  unfold Task.branch
  cases h with
  | @once flow hrepeated hlabel _ hwork =>
      rw [hrepeated, if_neg Bool.false_ne_true]
      refine .check fun passes => ?_
      cases passes with
      | false => exact .note .done _ _
      | true =>
          rw [hlabel]
          exact ((hwork place hpools).delayed _ _).limited _ _ _
  | @repeated x hrepeated hwork =>
      rw [hrepeated, if_pos rfl]
      have hall := @repeated_mirrors _ _ patience _ _ _ _ t.label ⟨t.label, none, []⟩ hrepeated
        (hwork place)
      refine .unguarded rfl ?_
      exact (hall.mono (fun _ hq => hq.elim) fun _ hq => hq.elim).limited limit index t.label

/-- **The branches of a parallel flow** mean what the tasks mean side by side. -/
theorem branches_mirror {ts : List Task} {steps : List Step}
    (h : CompiledAll r e patience pools ts steps) {place : Pool} {index limit : Nat}
    (hpools : ∀ q, Task.SomeHasPool q place index ts → pools q) {i : Nat} {a b : Activity}
    (ha : (Flow.branchWorks e patience limit place index steps)[i]? = some a)
    (hb : (Task.executeBranches r e (Task.isolates r) limit place index ts)[i]? = some b) :
    Mirrors pools (fun q => Task.SomeHasPool q place index ts ∧ ((index + i) :: place) <:+ q)
      (fun q => ((index + i) :: place) <:+ q) a b := by
  induction h generalizing index i with
  | nil => cases ha
  | @cons t step ts steps hstep _ ih =>
      obtain ⟨s, flow⟩ := step
      cases i with
      | zero =>
          cases ha
          cases hb
          have hfirst := branch_mirrors hstep
            (fun q (hq : t.HasPool q (index :: place)) => hpools q (Or.inl hq)) limit index
          exact hfirst.mono (fun q hq => ⟨Or.inl hq, hq.below⟩) fun _ hq => hq
      | succ i =>
          have hnext : index + (i + 1) = index + 1 + i := by omega
          rw [hnext]
          exact (ih (fun q hq => hpools q (Or.inr hq)) ha hb).mono
            (fun q hq => ⟨Or.inr hq.1, hq.2⟩) fun _ hq => hq

theorem Task.executeBranches_length (ts : List Task) (limit : Nat) (place : Pool) (index : Nat) :
    (Task.executeBranches r e (Task.isolates r) limit place index ts).length = ts.length := by
  induction ts generalizing index with
  | nil => rfl
  | cons t ts ih => simp [Task.executeBranches, ih]

theorem CompiledAll.length {ts : List Task} {steps : List Step}
    (h : CompiledAll r e patience pools ts steps) : steps.length = ts.length := by
  induction h with
  | nil => rfl
  | cons _ _ ih => simp [ih]

/-- A block is a list of its own. -/
theorem CompiledAll.block {t : Task} {steps : List Step}
    (h : CompiledAll r e patience pools t.children steps) (hid : t.id = blockId) :
    Compiled r e patience pools t (.mk (Plan.settingsOf t) (.sequence blockId .block steps)) := by
  obtain ⟨id, name, data, vars, guard, delay, repetitions, timeout, threads, children⟩ := t
  obtain rfl : id = blockId := hid
  refine .once (by simp [Task.isRepeated, Task.isContainer])
    (by simp [Task.title, Task.isContainer, Task.label, Step.label, Step.settings, Step.flow,
      Flow.name, Plan.settingsOf])
    (by simp [Flow.isolatesFailure, Task.isolates, Task.isBlock]) fun place hpools => ?_
  rw [Task.execute, if_pos rfl]
  have hlist := sequence_mirrors h
    (fun q (hq : Task.SomeHasPool q place 0 children) => hpools q (Or.inr hq)) blockId .block none
  exact hlist.mono (fun q hq => Or.inr hq) fun _ hq => hq

/-- A parallel task does what its branches do side by side. -/
theorem CompiledAll.parallel {t : Task} {steps : List Step}
    (h : CompiledAll r e patience pools t.children steps) (hid : t.id = parallelId) :
    Compiled r e patience pools t (.mk (Plan.settingsOf t)
      (.parallel t.label t.threads (t.timeout * 1000) steps)) := by
  obtain ⟨id, name, data, vars, guard, delay, repetitions, timeout, threads, children⟩ := t
  obtain rfl : id = parallelId := hid
  have hne : parallelId ≠ blockId := by decide
  refine .once (by simp [Task.isRepeated, Task.isContainer])
    (by cases name <;> simp [Task.title, Task.isContainer, Task.label, Step.label, Step.settings,
      Step.flow, Flow.name, Plan.settingsOf])
    (by simp [Flow.isolatesFailure, Task.isolates, Task.isBlock, Task.isContainer, hne])
    fun place hpools => ?_
  rw [Task.execute, if_neg hne, if_pos rfl]
  refine .batch (hpools place (Or.inl ⟨rfl, rfl⟩)) (Or.inl ⟨rfl, rfl⟩)
    (fun i q (hq : Task.SomeHasPool q place 0 children ∧ (i :: place) <:+ q) =>
      ⟨Or.inr hq.1, hq.2⟩) ?_ fun i a b ha hb => ?_
  · rw [Flow.branchWorks_length, Task.executeBranches_length, h.length]
  · have hbranch := branches_mirror h (fun q hq => hpools q (Or.inr hq)) ha hb
    rwa [Nat.zero_add] at hbranch

/-- A task that does something itself does what its kind of task does. -/
theorem Compiled.leaf {t : Task} {x : Executable} (hcontainer : t.isContainer = false)
    (hx : r.resolve? t.id = some x)
    (hwork : ∀ brief, Throughout (Heedless pools) (fun p => ¬ pools p) (x.behave e brief)) :
    Compiled r e patience pools t (Plan.leaf t x) := by
  obtain ⟨id, name, data, vars, guard, delay, repetitions, timeout, threads, children⟩ := t
  have hblock : id ≠ blockId := by
    rintro rfl
    simp [Task.isContainer] at hcontainer
  have hparallel : id ≠ parallelId := by
    rintro rfl
    simp [Task.isContainer] at hcontainer
  have hexecute {fresh region : Pool → Prop} (place : Pool) :
      Mirrors pools fresh region (x.behave e ⟨name.getD x.name, data, Table.ofList vars⟩)
        (Task.execute r e (Task.isolates r) place
          ⟨id, name, data, vars, guard, delay, repetitions, timeout, threads, children⟩) := by
    rw [Task.execute, if_neg hblock, if_neg hparallel, hx]
    exact .heedless (hwork _)
  unfold Plan.leaf
  by_cases hcount : repetitions = 0
  · rw [if_pos hcount]
    refine .once (by simp [Task.isRepeated, hcount]) ?_ ?_ fun place _ => hexecute place
    · simp [Task.title, hcontainer, hx, Step.label, Step.settings, Step.flow, Flow.name,
        Plan.settingsOf]
    · simp [Flow.isolatesFailure, Task.isolates, Task.isBlock, hblock, hcontainer, hx]
  · rw [if_neg hcount]
    exact .repeated (by simp [Task.isRepeated, hcontainer, hcount]) fun place => hexecute place

mutual

/-- **The step of a task** means what the task means. -/
theorem Plan.stepOf_compiled
    (hr : ∀ id x brief, r.resolve? id = some x →
      Throughout (Heedless pools) (fun p => ¬ pools p) (x.behave e brief))
    (t : Task) {path : String} {step : Step} (h : Plan.stepOf r path t = .ok step) :
    Compiled r e patience pools t step := by
  match t with
  | ⟨id, name, data, vars, guard, delay, repetitions, timeout, threads, children⟩ =>
      rcases Plan.stepOf_eq_ok.mp h with
        ⟨hcontainer, _, steps, hsteps, rfl⟩ | ⟨hcontainer, _, x, hx, rfl⟩
      · have hall := Plan.stepsOf_compiled hr children hsteps
        by_cases hblock : id = blockId
        · rw [if_pos hblock]
          exact hall.block hblock
        · rw [if_neg hblock]
          have hparallel : id = parallelId := by
            simpa [Task.isContainer, hblock] using hcontainer
          exact hall.parallel hparallel
      · exact .leaf hcontainer hx fun brief => hr id x brief hx

/-- **The steps of tasks** mean what the tasks mean. -/
theorem Plan.stepsOf_compiled
    (hr : ∀ id x brief, r.resolve? id = some x →
      Throughout (Heedless pools) (fun p => ¬ pools p) (x.behave e brief))
    (ts : List Task) {path : String} {index : Nat} {steps : List Step}
    (h : Plan.stepsOf r path index ts = .ok steps) :
    CompiledAll r e patience pools ts steps := by
  match ts with
  | [] =>
      cases h
      exact .nil
  | t :: rest =>
      obtain ⟨step, more, hstep, hmore, rfl⟩ := Plan.stepsOf_cons_eq_ok.mp h
      exact .cons (Plan.stepOf_compiled hr t hstep) (Plan.stepsOf_compiled hr rest hmore)

end

end

section

variable {r : Registry} {e : Evaluator} {p : Playbook} {plan : Plan} {w : World}

end

end Runsheet
