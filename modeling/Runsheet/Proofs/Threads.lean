import Runsheet.Proofs.Timetable

/-!
# Threads change the time alone

Units are independent if each depends on keys of its own, which no other unit writes.  A parallel
flow of independent units that do not fault gives the same reports and leaves the same values with every
number of threads and whatever turns its branches take; only the time that it takes depends on the
threads, and more of them never make it longer.

* `Timetable.delivers` — every run of a batch with a timetable comes to the end that the timetable says;
* `Timetable.time_le` — with more threads it takes no longer;
* `threads_only_speed` — the result.
-/

namespace Runsheet

/-- Flows by themselves store no values, and close pools of their own. -/
theorem Activity.fits_touches (keys : String → Prop) (root : Pool) :
    Fits (fun f _ => ∀ w, Touches keys root w (f w)) (fun p => root <:+ p) where
  bind _ hf := hf
  note level text a w := ⟨fun _ => rfl, fun _ => rfl⟩
  pause a w := .refl w
  enter a b _ w := .refl w
  leave {p} text a hp w := by
    refine ⟨fun _ => rfl, fun {r} hr => ?_⟩
    have hne : r ≠ p := by
      rintro rfl
      exact hr hp
    simp [World.isClosed, World.close, World.note, hne]

namespace Activity

variable {T : Timetable} {a c : Activity} {w v u : World} {h g : List Turn}
variable {name : String} {limit : Nat} {o : Outcome}

/-! ### What a batch comes to -/

/-- **What does not depend on the turns that branches take**: the schedule comes to an end, and so does
every other run, wherever it has come; and they all end with the same reports and the same values.  They
take the same time, too, if the branches ask for their permits in the order of their numbers, as they do on
the schedule. -/
structure Delivers (place : Pool) (a : Activity) (w : World) (reports : List Report)
    (values : String → Option Json) (time : Nat) : Prop where
  scheduled : ∃ fuel h u, run fuel a w = some (.ok (.parallel reports), u) ∧ Alone h ∧
    Run True a w h (.done (.ok (.parallel reports))) u ∧ Submitted place h ∧ ticks h = time
  goesOn {h : List Turn} {c : Activity} {u : World} : Alone h → Run False a w h c u →
    ∃ g o v, Alone g ∧ Run False c u g (.done o) v
  ends {h : List Turn} {o : Outcome} {u : World} : Alone h → Run False a w h (.done o) u →
    o = .ok (.parallel reports) ∧ (∀ key, u.context.get? key = values key) ∧
      (Submitted place h → ticks h = time)

/-- **A batch can be carried on** to its end, on the schedule, from wherever it has come. -/
theorem Run.batch_goes_on
    (hrun : Run False (batch name T.place T.threads limit T.branches) T.start h c u)
    (halone : Alone h) : ∃ g o v, Alone g ∧ Run True c u g (.done o) v := by
  obtain ⟨g, b, v, hg, hrest, hends⟩ := Run.proceeds c u (T.bound + 1)
  obtain ⟨hle, hwaits, _⟩ := (hrun.append hrest.relax).batch_keeps (alone_append.mpr ⟨halone, hg⟩)
  rcases hends with ⟨o, rfl⟩ | hlate | ⟨hstill, hspins⟩
  · exact ⟨g, o, v, hg, hrest⟩
  · rw [ticks_append] at hle
    omega
  · have hnever := (hwaits hstill).not_spins
    rw [hspins] at hnever
    cases hnever

/-- **With more threads a batch takes no longer**, if its branches ask for their permits in the order of
their numbers. -/
theorem Timetable.time_le (T more : Timetable) {name' : String} {limit' : Nat} {o' : Outcome} {u' : World}
    {h' : List Turn} (hthreads : T.threads ≤ more.threads)
    (hbranches : more.branches.length = T.branches.length) (hduration : more.duration = T.duration)
    (hrun : Run False (batch name T.place T.threads limit T.branches) T.start h (.done o) u)
    (halone : Alone h) (hsubmitted : Submitted T.place h)
    (hrun' : Run False (batch name' more.place more.threads limit' more.branches) more.start h'
      (.done o') u')
    (halone' : Alone h') (hsubmitted' : Submitted more.place h') : ticks h' ≤ ticks h := by
  obtain ⟨start, time, hroster, htime⟩ := hrun.batch_roster halone hsubmitted
  obtain ⟨start', time', hroster', htime'⟩ := hrun'.batch_roster halone' hsubmitted'
  rw [hbranches] at hroster' htime'
  have hpermits : threadsOf T.threads ≤ threadsOf more.threads := by
    unfold threadsOf
    omega
  refine hroster.now_mono hroster' hpermits (fun i hi => ?_) (threadsOf_pos more.threads)
  rw [htime' i hi, htime i hi, hduration]

/-- **Every run of a batch** comes to the end that the timetable of its branches says. -/
theorem Timetable.delivers (T : Timetable) (name : String) (limit : Nat)
    {values : String → Option Json} (hvalues : ∀ u, T.Values u → ∀ key, u.context.get? key = values key) :
    ∃ time, Delivers T.place (batch name T.place T.threads limit T.branches) T.start T.reports values
      time := by
  obtain ⟨h, o, u, halone, hrun⟩ :=
    (Run.stop : Run False (batch name T.place T.threads limit T.branches) T.start [] _ _).batch_goes_on
      alone_nil
  obtain ⟨rfl, _⟩ := (hrun.relax.batch_keeps halone).2.2 o rfl
  have hsubmitted := hrun.batch_submitted
  refine ⟨ticks h, ⟨ticks h, h, u, run_of_alone hrun halone (Nat.le_refl _), halone, hrun, hsubmitted,
    rfl⟩, fun halone' hrun' => ?_, fun halone' hrun' => ?_⟩
  · obtain ⟨g, o, v, hg, hrest⟩ := hrun'.batch_goes_on halone'
    exact ⟨g, o, v, hg, hrest.relax⟩
  · obtain ⟨ho, hleft⟩ := (hrun'.batch_keeps halone').2.2 _ rfl
    refine ⟨ho, hvalues _ hleft, fun hsubmitted' => Nat.le_antisymm ?_ ?_⟩
    · exact T.time_le T (Nat.le_refl _) rfl rfl hrun.relax halone hsubmitted hrun' halone' hsubmitted'
    · exact T.time_le T (Nat.le_refl _) rfl rfl hrun' halone' hsubmitted' hrun.relax halone hsubmitted

end Activity

open Activity

/-! ### Independent units -/

section

variable (e : Evaluator) (patience limit index : Nat)

/-- What a unit does depends on keys alone: whether its guard holds, and what it does under the limit from
its beginning to its end. -/
structure Step.DependsOn (keys : String → Prop) (root : Pool) (step : Step) : Prop where
  guard (c d : Context) : (∀ key, keys key → d.get? key = c.get? key) →
    step.settings.holds e d = step.settings.holds e c
  work : Steady keys root (limited limit index step.label (step.work e patience root))

/-- A unit writes keys alone, and splits on pools of its own. -/
def Step.Writes (keys : String → Prop) (root : Pool) (step : Step) : Prop :=
  step.Every (fun x => ∀ brief, Throughout (fun f _ => ∀ w, Touches keys root w (f w))
    (fun p => root <:+ p) (x.behave e brief)) fun _ => True

/-- **Independent units**: each has keys on which it depends and of which it writes some, and no other
unit writes them. -/
structure Independent (keys : Nat → String → Prop) (place : Pool) (steps : List Step) : Prop where
  depends {i : Nat} {step : Step} : steps[i]? = some step →
    step.DependsOn e patience limit i (keys i) (i :: place)
  writes {i : Nat} {step : Step} : steps[i]? = some step →
    step.Writes e (OwnKeys keys i) (i :: place)

end

variable {e : Evaluator} {patience limit : Nat} {keys : Nat → String → Prop} {place : Pool}
variable {steps : List Step} {step : Step} {w : World} {i : Nat} {name : String}

/-- A unit whose work depends on keys alone does so under a limit, if it waits at the limit only when all
its parts do. -/
theorem Step.dependsOn_of_punctual {keys : String → Prop} {root : Pool}
    (hguard : ∀ c d : Context, (∀ key, keys key → d.get? key = c.get? key) →
      step.settings.holds e d = step.settings.holds e c)
    (hwork : Steady keys root (step.work e patience root))
    (hpunctual : limit ≠ 0 → Punctual keys root limit (step.work e patience root)) :
    step.DependsOn e patience limit i keys root where
  guard := hguard
  work := hwork.limited hpunctual

/-- A unit that runs a task without splits depends on what its guard and the task look at. -/
theorem Step.dependsOn_task {keys : String → Prop} {root : Pool} {s : Settings} {x : Executable}
    (hguard : ∀ c d : Context, (∀ key, keys key → d.get? key = c.get? key) →
      s.holds e d = s.holds e c)
    (hx : ∀ brief, Throughout (Tied keys root) (fun _ => False) (x.behave e brief)) :
    (Step.mk s (.task x)).DependsOn e patience limit i keys root := by
  have hwork : Throughout (Tied keys root) (fun _ => False) ((Step.mk s (.task x)).work e patience root) :=
    .delayed (fits_tied keys root) (hx _)
  exact Step.dependsOn_of_punctual hguard hwork.steady fun _ => hwork.punctual limit

/-- What a unit writes, it writes as a branch. -/
theorem Step.Writes.branch {mine : String → Prop} (hstep : step.Writes e mine (i :: place)) :
    Throughout (fun f _ => ∀ w, Touches mine (i :: place) w (f w)) (fun _ => True)
      (branch e limit i step.label step.settings (step.work e patience (i :: place))) := by
  have hparts : Suits (fun f _ => ∀ w, Touches mine (i :: place) w (f w)) (fun p => (i :: place) <:+ p) e
      (fun x => ∀ brief, Throughout (fun f _ => ∀ w, Touches mine (i :: place) w (f w))
        (fun p => (i :: place) <:+ p) (x.behave e brief)) (fun _ => True) fun _ => True :=
    ⟨fits_touches mine (i :: place), fun brief hx => hx brief, fun _ _ w => .refl w,
      fun _ _ _ w => .refl w⟩
  exact (Throughout.branch hparts.fits (hparts.look trivial)
    (Step.work_throughout hparts step hstep fun _ hp => hp)).mono fun _ _ => trivial

/-- Every unit that ends without a fault on its own takes a time, has a report and leaves values that
depend on its keys alone. -/
theorem Independent.takes (hunits : Independent e patience limit keys place steps)
    (hends : ∀ i step, steps[i]? = some step → ∃ fuel r v, run fuel (branch e limit i step.label
      step.settings (step.work e patience (i :: place))) w = some (.ok r, v)) (i : Nat) :
    ∃ duration report last, ∀ a, (Flow.branchWorks e patience limit place 0 steps)[i]? = some a →
      Takes (keys i) (i :: place) w a duration report last := by
  cases hstep : steps[i]? with
  | none =>
      refine ⟨0, .completed, w, fun a ha => ?_⟩
      obtain ⟨step, hsome, _⟩ := Flow.step_of_branchWorks e patience ha
      rw [hstep] at hsome
      cases hsome
  | some step =>
      obtain ⟨fuel, r, v, hrun⟩ := hends i step hstep
      obtain ⟨h, halone, hreached⟩ := run_reaches hrun
      have hdepends := hunits.depends hstep
      have hsteady : Steady (keys i) (i :: place) (branch e limit i step.label step.settings
          (step.work e patience (i :: place))) := .branch hdepends.guard hdepends.work
      refine ⟨ticks h, r, v, fun a ha => ?_⟩
      rw [Flow.branchWorks_of_step e patience hstep] at ha
      cases ha
      exact hsteady.takes halone.spared hreached.relax

/-- **Threads change the time alone.**  Independent units, none of which faults on its own, work side by
side on an open pool.  There are reports and values that every run of the batch comes to, with any number
of threads and in whatever order the units have their turns; and there is one time for each number of
threads, which gets no longer when there are more of them. -/
theorem threads_only_speed (hunits : Independent e patience limit keys place steps)
    (hopen : w.isClosed place = false)
    (hends : ∀ i step, steps[i]? = some step → ∃ fuel r v, run fuel (branch e limit i step.label
      step.settings (step.work e patience (i :: place))) w = some (.ok r, v)) :
    ∃ (reports : List Report) (values : String → Option Json) (time : Nat → Nat),
      (∀ threads more, threads ≤ more → time more ≤ time threads) ∧
      ∀ threads, Delivers place (batch name place threads limit
        (Flow.branchWorks e patience limit place 0 steps)) w reports values (time threads) := by
  classical
  choose duration report last htakes using hunits.takes hends
  have htouches : ∀ i a, (Flow.branchWorks e patience limit place 0 steps)[i]? = some a →
      Throughout (fun f _ => ∀ w, Touches (OwnKeys keys i) (i :: place) w (f w)) (fun _ => True) a := by
    intro i a ha
    obtain ⟨step, hstep, rfl⟩ := Flow.step_of_branchWorks e patience ha
    exact (hunits.writes hstep).branch
  let T (threads : Nat) : Timetable :=
    { keys, place, threads, branches := Flow.branchWorks e patience limit place 0 steps, start := w,
      duration, report, last, opened := hopen, takes := htakes _ _, touches := htouches _ _ }
  let count := (Flow.branchWorks e patience limit place 0 steps).length
  let values (key : String) : Option Json :=
    if hkey : ∃ i, i < count ∧ keys i key then (last hkey.choose).context.get? key
    else w.context.get? key
  have hvalues (threads : Nat) : ∀ u, (T threads).Values u → ∀ key, u.context.get? key = values key := by
    intro u hleft key
    by_cases hkey : ∃ i, i < count ∧ keys i key
    · simp only [values, hkey, dif_pos]
      exact hleft.left hkey.choose_spec.1 hkey.choose_spec.2
    · simp only [values, hkey, dif_neg, not_false_eq_true]
      apply hleft.untouched
      intro i hi hown
      exact hkey ⟨i, hi, hown⟩
  choose time hdelivers using fun threads => (T threads).delivers name limit (hvalues threads)
  refine ⟨(List.range count).map report, values, time, fun threads more hle => ?_, hdelivers⟩
  obtain ⟨_, h, u, _, halone, hrun, hsubmitted, hticks⟩ := (hdelivers threads).scheduled
  obtain ⟨_, h', u', _, halone', hrun', hsubmitted', hticks'⟩ := (hdelivers more).scheduled
  rw [← hticks, ← hticks']
  exact (T threads).time_le (T more) hle rfl rfl hrun.relax halone hsubmitted
    hrun'.relax halone' hsubmitted'

/-- A unit that waits, and then stores a value under its name. -/
private def storingAfter (name : String) (ms : Nat) : Step :=
  .mk {} (.task
    { name
      behave := fun _ _ => .sleep ms fun _ =>
        .instant fun w => (.completed, w.put name (.bool true)) })

private theorem get?_put_true (c : Context) (name key : String) :
    (c.put name (.bool true)).get? key = if name = key then some (.bool true) else c.get? key := by
  simp [Context.put, Context.get?, Json.isNull, Table.get?_insert]

private theorem storingAfter_dependsOn (keys : String → Prop) (root : Pool) (name : String) (ms : Nat) :
    (storingAfter name ms).DependsOn e patience limit i keys root := by
  have hput : Tied keys root (fun w => w.put name (.bool true)) fun _ => report .completed := by
    intro w v halike
    refine ⟨rfl, fun {key} hkey => ?_, halike.closed⟩
    simp only [World.put, get?_put_true, halike.values hkey]
  apply Step.dependsOn_task
  · intro c d _
    rfl
  · intro brief
    exact .sleep ((fits_tied keys root).pause _) fun _ => .act hput fun _ => .done

private theorem storingAfter_writes {mine : String → Prop} {root : Pool} {name : String} (ms : Nat)
    (hmine : mine name) : (storingAfter name ms).Writes e mine root := by
  refine ⟨trivial, fun brief => .sleep .refl fun _ => .act (fun w => ?_) fun _ => .done⟩
  refine ⟨fun {key} hkey => ?_, fun _ => rfl⟩
  have hne : name ≠ key := by
    rintro rfl
    exact hkey hmine
  simp [World.put, get?_put_true, hne]

/-- Two units under a limit of five milliseconds, of which the second is late: with two threads they take
no longer than with one. -/
theorem threads_only_speed_pair :
    ∃ (values : String → Option Json) (time : Nat → Nat), time 2 ≤ time 1 ∧
      ∀ threads, Delivers [] (batch "pair" [] threads 5 (Flow.branchWorks (.standard {}) 0 5 [] 0
        [storingAfter "left" 3, storingAfter "right" 8])) {}
        [.completed, lateReport "right" 5] values (time threads) := by
  have hunits : Independent (.standard {}) 0 5 (fun i key => ["left", "right"][i]? = some key) []
      [storingAfter "left" 3, storingAfter "right" 8] := by
    constructor
    · intro i step hstep
      rcases i with _ | _ | i
      · obtain rfl : storingAfter "left" 3 = step := by simpa using hstep
        exact storingAfter_dependsOn _ _ _ _
      · obtain rfl : storingAfter "right" 8 = step := by simpa using hstep
        exact storingAfter_dependsOn _ _ _ _
      · simp at hstep
    · intro i step hstep
      rcases i with _ | _ | i
      · obtain rfl : storingAfter "left" 3 = step := by simpa using hstep
        refine storingAfter_writes 3 ⟨rfl, fun j hj hkey => ?_⟩
        rcases j with _ | _ | j <;> simp_all
      · obtain rfl : storingAfter "right" 8 = step := by simpa using hstep
        refine storingAfter_writes 8 ⟨rfl, fun j hj hkey => ?_⟩
        rcases j with _ | _ | j <;> simp_all
      · simp at hstep
  have hends : ∀ i step, [storingAfter "left" 3, storingAfter "right" 8][i]? = some step →
      ∃ fuel r v, run fuel (branch (.standard {}) 5 i step.label step.settings
        (step.work (.standard {}) 0 (i :: []))) {} = some (.ok r, v) := by
    intro i step hstep
    rcases i with _ | _ | i
    · obtain rfl : storingAfter "left" 3 = step := by simpa using hstep
      exact ⟨1, .completed, _, rfl⟩
    · obtain rfl : storingAfter "right" 8 = step := by simpa using hstep
      exact ⟨1, lateReport "right" 5, _, rfl⟩
    · simp at hstep
  obtain ⟨reports, values, time, hmono, hdelivers⟩ :
      ∃ (reports : List Report) (values : String → Option Json) (time : Nat → Nat),
        (∀ threads more, threads ≤ more → time more ≤ time threads) ∧
        ∀ threads, Delivers [] (batch "pair" [] threads 5 (Flow.branchWorks (.standard {}) 0 5 [] 0
          [storingAfter "left" 3, storingAfter "right" 8])) {} reports values (time threads) :=
    threads_only_speed hunits rfl hends
  obtain ⟨h, halone, hreached⟩ := run_reaches
    (rfl : run 2 (batch "pair" [] 2 5 (Flow.branchWorks (.standard {}) 0 5 [] 0
      [storingAfter "left" 3, storingAfter "right" 8])) {} =
        some (.ok (.parallel [.completed, lateReport "right" 5]), _))
  obtain ⟨hreports, _⟩ := (hdelivers 2).ends halone hreached.relax
  cases hreports
  exact ⟨values, time, hmono 1 2 (by decide), hdelivers⟩

end Runsheet
