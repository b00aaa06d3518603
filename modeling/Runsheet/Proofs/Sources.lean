import Runsheet.Proofs.Addresses
import Runsheet.Proofs.Causes
import Runsheet.Proofs.Heedless

/-!
# Where faults come from

Flows make no faults of their own, but for what a closed pool refuses, a batch at its beginning or a permit
to a branch: the rest are those of guards that cannot be evaluated and of tasks.  So a fault that comes out
of a flow was, in some turn of the run, the fault of a piece of work, and has got nothing since but the
numbers of branches.

* `Fault.ArisesFrom`, `Marked.Makes`, `Marked.Arisen` — the fault of a piece of work, of a move, and one in
  the course of a run;
* `Flow.fault_arises` — a flow that ends with a fault has such a piece of work;
* `Executable.NeverFaults` — tasks that never end with certain faults, and `Marked.Left.task_faults`,
  by which none of these arises from them;
* `Plan.refused_of_arisen` — what is left of such faults in the runs of a plan;
* `Evaluator.BreaksOff`, `Builtin.neverFaults` — the tasks that are there from the beginning fault only if the
  program breaks off.
-/

namespace Runsheet

open Activity (Way)

/-- **A fault arises from a piece of work** in a world: its guard cannot be evaluated, the fault is that of its
task, or its batch finds the pool closed. -/
inductive Fault.ArisesFrom (e : Evaluator) (place : Pool) (w : World) : Piece → Fault → Prop
  | guard {piece : Piece} {s : Settings} {error : ExpressionError} (hpiece : piece.settings? = some s)
      (herror : s.holds e w.context = .error error) :
      ArisesFrom e place w piece (.ofError error)
  | task {x : Executable} {brief : Brief} {fault : Fault} :
      ArisesFrom e place w (.task x brief) fault
  | refused (hclosed : w.isClosed place = true) : ArisesFrom e place w .batch .poolShutdown

namespace Marked

/-- **A move makes a fault**: a piece of the layout ends with it in the move, or a batch of the layout refuses
a permit. -/
inductive Makes (ordered : Prop) (e : Evaluator) (L : Layout) (m : Mark) (s : Marked) (w : World)
    (t : Marked) (v : World) : Fault → Prop
  | work {path inner : Way} {piece : Piece} {a : Marked} {fault : Fault}
      (hplace : L m.place piece path) (hleft : Left ordered e m.place piece a)
      (hworks : Works ordered m inner a w (.done (.error fault)) v path s t)
      (harises : fault.ArisesFrom e m.place w piece) : Makes ordered e L m s w t v fault
  | permit {path : Way} {pool : Pool} (hplace : L pool .batch path)
      (hrefuses : Refuses ordered m pool path s w t v) : Makes ordered e L m s w t v .poolShutdown

/-- **A fault arises in the course of a run**: one of its turns makes it. -/
def Arisen (ordered : Prop) (e : Evaluator) (L : Layout) (s : Marked) (w : World) (h : List Turn)
    (t : Marked) (v : World) (fault : Fault) : Prop :=
  ∃ h₁ m way x y h₂ p q, h = h₁ ++ .own m way x y :: h₂ ∧ Run ordered s w h₁ p x ∧
    Makes ordered e L m p x q y fault ∧ Run ordered q y h₂ t v

end Marked

open Marked

/-- Terms that allow the faults with a given root, in the branches of any batches. -/
def Terms.rooted (root : Fault → Prop) : Terms where
  good o := ∀ fault, o = .error fault → ∃ origin is, fault = Fault.under origin is ∧ root origin
  lets _ _ := True
  late := True
  completed := nofun
  parallel _ := nofun
  address hgood := by
    rintro _ ⟨rfl⟩
    obtain ⟨origin, is, rfl, hroot⟩ := hgood _ rfl
    rw [Fault.message_under]
    exact ⟨origin, _ :: is, rfl, hroot⟩
  refused _ := nofun
  overdue _ := nofun

theorem Terms.rooted_of_root {root : Fault → Prop} {fault : Fault} (hroot : root fault) :
    (Terms.rooted root).good (.error fault) := by
  rintro _ ⟨rfl⟩
  exact ⟨fault, [], rfl, hroot⟩

section

variable {ordered : Prop} {e : Evaluator} {patience : Nat} {f : Flow} {place : Pool} {brief : Brief}
variable {w v x y : World} {h : List Marked.Turn} {fault : Fault}

/-- **Where a fault comes from.**  A flow that ends with a fault has a piece of work from which a fault arose in
the course of the run, and it is this fault under the numbers of branches. -/
theorem Flow.fault_arises
    (hrun : Marked.Run ordered (f.marked e patience place brief) w h (.done (.error fault)) v)
    (hf : ∀ executable, f ≠ .task executable) :
    ∃ origin is, fault = Fault.under origin is ∧
      Arisen ordered e (f.Has place brief) (f.marked e patience place brief) w h
        (.done (.error fault)) v origin := by
  let root := Arisen ordered e (f.Has place brief) (f.marked e patience place brief) w h
    (.done (.error fault)) v
  have hflow : Layered ordered e (.rooted root) (f.Has place brief)
      (f.marked e patience place brief) :=
    Flow.marked_layered f place brief _ (fun _ _ _ hpiece => hpiece) fun executable htask =>
      (hf executable htask).elim
  rcases hflow.run_breaks hrun with
    hkept | ⟨h₁, m, way, x, y, h₂, p, q, hsplit, hbefore, -, -, hbreaks, hafter⟩
  · exact hkept.good rfl fault rfl
  -- no move breaks these terms, since the fault that it makes has just arisen
  have hmade {origin : Fault}
      (hmakes : Makes ordered e (f.Has place brief) m p x q y origin) : root origin :=
    ⟨h₁, m, way, x, y, h₂, p, q, hsplit, hbefore, hmakes, hafter⟩
  rcases hbreaks with ⟨path, inner, piece, a, b, hplace, hleft, hworks, hbroken⟩ |
    ⟨path, pool, hplace, hrefuses, hno⟩
  case inr => exact (hno (Terms.rooted_of_root (hmade (.permit hplace hrefuses)))).elim
  have hroot {origin : Fault} (hends : b = .done (.error origin))
      (harises : origin.ArisesFrom e m.place x piece) : root origin := by
    subst hends
    exact hmade (.work hplace hleft hworks harises)
  cases hbroken with
  | error hpiece herror hno =>
      exact (hno (Terms.rooted_of_root (hroot rfl (.guard hpiece herror)))).elim
  | barred _ _ hno => exact (hno trivial).elim
  | @task executable brief o hno =>
      cases o with
      | ok r => exact (hno nofun).elim
      | error origin => exact (hno (Terms.rooted_of_root (hroot rfl .task))).elim
  | refused hclosed hno => exact (hno (Terms.rooted_of_root (hroot rfl (.refused hclosed)))).elim
  | late hno => exact (hno trivial).elim

/-- If a fault arises from a task, a run of the task ends with it. -/
theorem Marked.Left.task_faults {m : Mark} {inner : Way} {executable : Executable} {a : Marked}
    (hleft : Left ordered e place (.task executable brief) a)
    (hmove : Move ordered m inner a x (.done (.error fault)) y) :
    ∃ w h, Activity.Run ordered (executable.behave e brief) w h (.done (.error fault)) y := by
  generalize hb : Marked.done (.error fault) = b at hmove
  cases hleft with
  | guard hpiece => cases hpiece
  | invocation =>
      cases hmove
      dsimp only at hb
      have hends : executable.behave e brief = .done (.error fault) := by
        rw [← plain_marked ⟨place, .behavior⟩ (executable.behave e brief), ← hb]
        rfl
      rw [hends]
      exact ⟨_, [], .stop⟩
  | behavior _ hrun =>
      subst hb
      exact ⟨_, _, hrun.append (.other (.own hmove.plain .stop))⟩

end

/-! ### Tasks that never end with certain faults -/

/-- The kind of task never ends with one of certain faults, whatever else goes on beside it. -/
def Executable.NeverFaults (x : Executable) (e : Evaluator) (bad : Fault → Prop) : Prop :=
  ∀ {brief w h fault v}, Activity.Run False (x.behave e brief) w h (.done (.error fault)) v →
    ¬ bad fault

/-- No such fault comes from the tasks of a plan. -/
theorem Plan.task_never {r : Registry} {p : Playbook} {plan : Plan} {ordered : Prop} {e : Evaluator}
    {bad : Fault → Prop} {brief told : Brief} {place : Pool} {x : Executable} {way inner : Way} {m : Mark}
    {a : Marked} {w v : World} {fault : Fault} (hplan : Plan.ofPlaybook r p = .ok plan)
    (hkinds : ∀ id x, r.resolve? id = some x → x.NeverFaults e bad)
    (hpiece : plan.flow.Has [] brief place (.task x told) way)
    (hleft : Left ordered e place (.task x told) a)
    (hmove : Move ordered m inner a w (.done (.error fault)) v) : ¬ bad fault := by
  obtain ⟨positions, t, -, hhas⟩ := Plan.has_of_ofPlaybook hplan hpiece
  obtain ⟨u, h, hrun⟩ := hleft.task_faults hmove
  cases hhas with
  | task _ hx => exact hkinds _ x hx hrun.free

/-- **Of certain faults that neither a guard nor a task ends with**, the only one to arise in a run of a plan is
that of a closed pool: it refuses a batch at its beginning, or a permit to one of its branches. -/
theorem Plan.refused_of_arisen {r : Registry} {p : Playbook} {plan : Plan} {ordered : Prop} {e : Evaluator}
    {bad : Fault → Prop} {brief : Brief} {s t : Marked} {w v : World} {h : List Marked.Turn} {fault : Fault}
    (hplan : Plan.ofPlaybook r p = .ok plan)
    (hkinds : ∀ id x, r.resolve? id = some x → x.NeverFaults e bad)
    (hguards : ∀ error, ¬ bad (.ofError error))
    (harisen : Arisen ordered e (plan.flow.Has [] brief) s w h t v fault) (hbad : bad fault) :
    fault = .poolShutdown ∧ ∃ h₁ m way x y h₂ p q pool path, h = h₁ ++ .own m way x y :: h₂ ∧
      Run ordered s w h₁ p x ∧ plan.flow.Has [] brief pool .batch path ∧ x.isClosed pool = true ∧
      ∃ inner a b, (Left ordered e pool .batch a ∨ Refusal pool a b) ∧
        Works ordered m inner a x b y path p q := by
  obtain ⟨h₁, m, way, x, y, h₂, p, q, hsplit, hbefore, hmakes, -⟩ := harisen
  cases hmakes with
  | work hpiece hleft hworks harises =>
      cases harises with
      | guard => exact (hguards _ hbad).elim
      | task => exact (Plan.task_never hplan hkinds hpiece hleft hworks.base hbad).elim
      | refused hclosed =>
          exact ⟨rfl, h₁, m, way, x, y, h₂, p, q, m.place, _, hsplit, hbefore, hpiece, hclosed, _, _, _,
            .inl hleft, hworks⟩
  | permit hpiece hrefuses =>
      obtain ⟨hclosed, inner, a, b, hrefusal, hworks⟩ := hrefuses
      exact ⟨rfl, h₁, m, way, x, y, h₂, p, q, _, _, hsplit, hbefore, hpiece, hclosed, inner, a, b,
        .inr hrefusal, hworks⟩

/-! ### What ends at once -/

/-- What ends at once has one turn, in which it does what it does. -/
theorem Activity.Run.of_attempt {ordered : Prop} {f : World → Outcome × World} {w v : World}
    {h : List Activity.Turn} {o : Outcome}
    (hrun : Activity.Run ordered (.attempt f) w h (.done o) v) :
    ∃ h₁ y h₂, h = h₁ ++ .own [] y (f y).2 :: h₂ ∧ Activity.Idle h₁ ∧ Activity.Idle h₂ ∧ o = (f y).1 := by
  rcases hrun.of_act with ⟨heq, -⟩ | ⟨h₁, h₂, y, hsplit, hbefore, -, hafter⟩
  · cases heq
  · obtain ⟨heq, hrest⟩ := hafter.of_done
    cases heq
    exact ⟨h₁, y, h₂, hsplit, hbefore, hrest, rfl⟩

/-- What ends at once with a report does not fault. -/
theorem Activity.Run.not_instant_fault {f : World → Report × World} {w v : World}
    {h : List Activity.Turn} {fault : Fault} :
    ¬ Activity.Run False (.instant f) w h (.done (.error fault)) v := by
  intro hrun
  have hrun' : Activity.Run False (.attempt fun w => (.ok (f w).1, (f w).2)) w h
      (.done (.error fault)) v := hrun
  obtain ⟨_, _, _, _, _, _, houtcome⟩ := hrun'.of_attempt
  cases houtcome

/-! ### The tasks that are there from the beginning -/

/-- The program breaks off when an evaluator is given some text, and this is the fault. -/
def Evaluator.BreaksOff (e : Evaluator) (fault : Fault) : Prop :=
  ∃ error text, error.crash? = some text ∧ fault = .crash (some text) ∧ ∃ source vars,
    e.evaluate source vars = .error error ∨ e.validate source vars = .error error

namespace Builtin

variable {e : Evaluator} {b : Brief} {w : World} {fault : Fault}

theorem breaksOff_of_refused {warning source : String} {vars : Vars} {error : ExpressionError}
    (hsource : e.evaluate source vars = .error error ∨ e.validate source vars = .error error)
    (h : (refused w warning error).1 = .error fault) : e.BreaksOff fault := by
  unfold refused at h
  cases hcrash : error.crash? with
  | none =>
      rw [hcrash] at h
      cases h
  | some text =>
      rw [hcrash] at h
      cases h
      exact ⟨error, text, hcrash, rfl, source, vars, hsource⟩

/-- A message that cannot be rendered is a text that has no value. -/
theorem evaluate_of_rendered {c : Context} {message : String} {error : ExpressionError}
    (h : rendered e b c message = .error error) : c.evaluate e message b.vars = .error error := by
  unfold rendered at h
  split at h
  · cases hvalue : c.evaluate e message b.vars with
    | error other =>
        rw [hvalue] at h
        cases h
        rfl
    | ok v =>
        rw [hvalue] at h
        cases h
  · cases h

theorem logMessage_breaksOff (h : (logMessage e b w).1 = .error fault) : e.BreaksOff fault := by
  unfold logMessage at h
  split at h
  · cases h
  · split at h
    next error herror => exact breaksOff_of_refused (.inl (evaluate_of_rendered herror)) h
    · cases h

theorem assign_breaksOff (h : (assign e b w).1 = .error fault) : e.BreaksOff fault := by
  unfold assign at h
  split at h
  · cases h
  · split at h
    · cases h
    · cases h
    · split at h
      next error herror => exact breaksOff_of_refused (.inl herror) h
      · cases h

theorem test_breaksOff (h : (test e b w).1 = .error fault) : e.BreaksOff fault := by
  unfold test at h
  split at h
  · cases h
  · split at h
    · cases h
    next error herror => exact breaksOff_of_refused (.inr herror) h

theorem calculate_breaksOff (h : (calculate e b w).1 = .error fault) : e.BreaksOff fault := by
  unfold calculate at h
  split at h
  · cases h
  · split at h
    next error herror => exact breaksOff_of_refused (.inl herror) h
    · dsimp only at h
      split at h <;> cases h

/-- **The tasks that are there from the beginning** fault only if the program breaks off. -/
theorem neverFaults {x : Executable} (hx : x ∈ all) {bad : Fault → Prop}
    (hbad : ∀ fault, e.BreaksOff fault → ¬ bad fault) : x.NeverFaults e bad := by
  have hends {f : World → Outcome × World} {w v : World} {h : List Activity.Turn} {fault : Fault}
      (hf : ∀ w fault, (f w).1 = .error fault → e.BreaksOff fault)
      (hrun : Activity.Run False (.attempt f) w h (.done (.error fault)) v) : ¬ bad fault := by
    obtain ⟨_, y, _, _, _, _, houtcome⟩ := hrun.of_attempt
    exact hbad fault (hf y fault houtcome.symm)
  simp only [all, List.mem_cons, List.not_mem_nil, or_false] at hx
  intro brief w h fault v hrun
  rcases hx with rfl | rfl | rfl | rfl | rfl
  · exact hends (fun _ _ => logMessage_breaksOff) hrun
  · exact hends (fun _ _ => assign_breaksOff) hrun
  · exact hends (fun _ _ => test_breaksOff) hrun
  · exact hends (fun _ _ => calculate_breaksOff) hrun
  · exact (Activity.Run.not_instant_fault hrun).elim

end Builtin

end Runsheet
