import Runsheet.Proofs.Assignments
import Runsheet.Proofs.OwnPools
import Runsheet.Proofs.Refusal

/-!
# The tasks that are there from the beginning

Each of these tasks does what it does in one turn, and ends with a report.  It stores at most one value, under
one key, and only if it is completed.  None of them faults unless the evaluator breaks off; so what ends a
run of a playbook over them with a fault is a guard that cannot be evaluated.

* `Evaluator.Answers` — evaluators that never break off;
* `Context.Stores`, `Builtin.Gives` — what storing a value does, and which value a task has to store;
* `Builtin.acts` — what each of the tasks does;
* `Registry.resolve?_within` — a registry with some of its identifiers alone;
* `GuardFails`, `Plan.guardFails_of_arisen` — a guard that cannot be evaluated in the course of a run;
* `builtins_store_one_value_and_never_fault` — the result.
-/

namespace Runsheet

open Activity (Way Idle)
open Marked

/-- **A value is stored under a key**: every other key keeps its value or its absence, and under this one the
value is found, unless it is null, which leaves the context as it was. -/
structure Context.Stores (c : Context) (key : String) (value : Json) (d : Context) : Prop where
  others {k : String} : k ≠ key → d.get? k = c.get? k
  found : value ≠ .null → d.get? key = some value
  untouched : value = .null → d = c

theorem Context.stores_put (c : Context) (key : String) (value : Json) :
    c.Stores key value (c.put key value) where
  others hne := by
    rw [get?_put, if_neg fun h => hne h.1.symm]
  found hvalue := by
    rw [get?_put, if_pos ⟨rfl, Engine.isNull_eq_false.mpr hvalue⟩]
  untouched hnull := by
    rw [hnull]
    rfl

/-- The text of a variable is that of its value, if it has one that is not null. -/
theorem textOfVar?_eq_some_iff {vars : Vars} {key text : String} : textOfVar? vars key = some text ↔
    ∃ v, Table.get? key vars = some v ∧ v ≠ .null ∧ v.plainText = text := by
  unfold textOfVar?
  cases hv : Table.get? key vars with
  | none => simp
  | some v => cases v <;> simp

/-- **An evaluator answers**: it gives a value or an error for every text, and never breaks off. -/
structure Evaluator.Answers (e : Evaluator) : Prop where
  evaluate {text : String} {vars : Vars} {error : ExpressionError} :
    e.evaluate text vars = .error error → error.crash? = none
  validate {text : String} {vars : Vars} {error : ExpressionError} :
    e.validate text vars = .error error → error.crash? = none

theorem Evaluator.Answers.not_breaksOff {e : Evaluator} (he : e.Answers) {fault : Fault} :
    ¬ e.BreaksOff fault := by
  rintro ⟨error, text, hcrash, -, source, vars, hvalue | htruth⟩
  · cases hcrash.symm.trans (he.evaluate hvalue)
  · cases hcrash.symm.trans (he.validate htruth)

/-- The fault of an error that is reported. -/
theorem Fault.ofError_of_none {error : ExpressionError} (h : error.crash? = none) :
    ofError error = .expression error := by
  unfold ofError
  rw [h]

namespace Builtin

variable {e : Evaluator} {b : Brief} {c : Context} {x : Executable} {key : String} {value : Json}

/-! ### What there is to store -/

/-- The value of the right side of an assignment. -/
def Source.valueIn (e : Evaluator) (b : Brief) (c : Context) : Source → Except ExpressionError Json
  | .literal v => .ok v
  | .expression text => c.evaluate e text b.vars

/-- **What a task has to store**: an assignment, the value of what stands after the first equals sign, under the
name before it; and an evaluation, the value of its expression, under the text of its variable for the result.
The other tasks have nothing to store. -/
inductive Gives (e : Evaluator) (b : Brief) (c : Context) (x : Executable) (key : String)
    (value : Json) : Prop
  | set {data : String} {before after : List Char} (hx : x = Builtin.set) (hdata : b.data = some data)
      (hcut : data.toList = before ++ '=' :: after) (hfirst : '=' ∉ before)
      (hkey : Text.trim (String.ofList before) = key) (hname : key ≠ "")
      (hvalue : Source.valueIn e b c (sourceOf (Text.trim (String.ofList after))) = .ok value)
  | evaluate {data : String} {result : Json} (hx : x = Builtin.evaluate) (hdata : b.data = some data)
      (hvalue : c.evaluate e data b.vars = .ok value)
      (hresult : Table.get? "result" b.vars = some result) (hgiven : result ≠ .null)
      (hkey : result.plainText = key)

/-- The tasks are told apart by their names. -/
theorem ne_of_name {y : Executable} (hname : x.name ≠ y.name) : x ≠ y :=
  fun hx => hname (congrArg Executable.name hx)

/-- Only assignments and evaluations have something to store. -/
theorem not_gives (hset : x.name ≠ set.name) (hevaluate : x.name ≠ evaluate.name) :
    ¬ Gives e b c x key value := by
  intro hgives
  cases hgives with
  | set hx => exact ne_of_name hset hx
  | evaluate hx => exact ne_of_name hevaluate hx

/-- What an assignment has to store, by what is read off its data. -/
theorem gives_set_iff : Gives e b c set key value ↔ ∃ data source, b.data = some data ∧
    readAssignment? data = some (key, source) ∧ Source.valueIn e b c source = .ok value := by
  constructor
  · intro hgives
    cases hgives with
    | set _ hdata hcut hfirst hkey hname hvalue =>
        exact ⟨_, _, hdata, readAssignment?_eq_some_iff.mpr
          ⟨_, _, hcut, hfirst, hkey, hname, rfl⟩, hvalue⟩
    | evaluate hx => exact (ne_of_name (by decide) hx).elim
  · rintro ⟨data, source, hdata, hread, hvalue⟩
    obtain ⟨before, after, hcut, hfirst, hkey, hname, hsource⟩ :=
      readAssignment?_eq_some_iff.mp hread
    rw [hsource] at hvalue
    exact .set rfl hdata hcut hfirst hkey hname hvalue

/-- What an evaluation has to store, by the text of its variable for the result. -/
theorem gives_evaluate_iff : Gives e b c evaluate key value ↔ ∃ data, b.data = some data ∧
    c.evaluate e data b.vars = .ok value ∧ textOfVar? b.vars "result" = some key := by
  constructor
  · intro hgives
    cases hgives with
    | set hx => exact (ne_of_name (by decide) hx).elim
    | evaluate _ hdata hvalue hresult hgiven hkey =>
        exact ⟨_, hdata, hvalue, textOfVar?_eq_some_iff.mpr ⟨_, hresult, hgiven, hkey⟩⟩
  · rintro ⟨data, hdata, hvalue, hname⟩
    obtain ⟨result, hresult, hgiven, hkey⟩ := textOfVar?_eq_some_iff.mp hname
    exact .evaluate rfl hdata hvalue hresult hgiven hkey

/-! ### What the tasks do -/

/-- **What a task does** to a context: it fails, and then it has nothing to store and leaves the context as it is;
it is completed without anything to store, and leaves the context as it is; or it is completed and stores what
it has to store. -/
inductive Acts (e : Evaluator) (b : Brief) (x : Executable) (c : Context) : Report → Context → Prop
  | failed {error : String} (hnone : ∀ key value, ¬ Gives e b c x key value) :
      Acts e b x c (.failed error) c
  | kept (hnone : ∀ key value, ¬ Gives e b c x key value) : Acts e b x c .completed c
  | stored {key : String} {value : Json} {d : Context} (hgives : Gives e b c x key value)
      (hstores : c.Stores key value d) : Acts e b x c .completed d

theorem refused_eq_warned {error : ExpressionError} (h : error.crash? = none) (w : World)
    (warning : String) : refused w warning error = warned w warning error.message := by
  unfold refused
  rw [h]

theorem logMessage_acts (he : e.Answers) (w : World) : ∃ r, (logMessage e b w).1 = .ok r ∧
    Acts e b log w.context r (logMessage e b w).2.context := by
  have hnone (key : String) (value : Json) : ¬ Gives e b w.context log key value :=
    not_gives (by decide) (by decide)
  unfold logMessage
  split
  · exact ⟨_, rfl, .failed hnone⟩
  · split
    next error herror =>
      rw [refused_eq_warned (he.evaluate (evaluate_of_rendered herror))]
      exact ⟨_, rfl, .failed hnone⟩
    · exact ⟨_, rfl, .kept hnone⟩

theorem test_acts (he : e.Answers) (w : World) : ∃ r, (test e b w).1 = .ok r ∧
    Acts e b when w.context r (test e b w).2.context := by
  have hnone (key : String) (value : Json) : ¬ Gives e b w.context when key value :=
    not_gives (by decide) (by decide)
  unfold test
  split
  · exact ⟨_, rfl, .failed hnone⟩
  · split
    next holds _ =>
      cases holds with
      | true => exact ⟨_, rfl, .kept hnone⟩
      | false => exact ⟨_, rfl, .failed hnone⟩
    next error herror =>
      rw [refused_eq_warned (he.validate herror)]
      exact ⟨_, rfl, .failed hnone⟩

theorem assign_acts (he : e.Answers) (w : World) : ∃ r, (assign e b w).1 = .ok r ∧
    Acts e b set w.context r (assign e b w).2.context := by
  unfold assign
  split
  next hdata =>
    refine ⟨_, rfl, .failed fun key value hgives => ?_⟩
    obtain ⟨data, source, hsome, -⟩ := gives_set_iff.mp hgives
    cases hdata.symm.trans hsome
  next data hdata =>
    split
    next hread =>
      refine ⟨_, rfl, .failed fun key value hgives => ?_⟩
      obtain ⟨data', source, hsome, hread', -⟩ := gives_set_iff.mp hgives
      cases hdata.symm.trans hsome
      cases hread.symm.trans hread'
    next property v hread =>
      exact ⟨_, rfl, .stored (gives_set_iff.mpr ⟨data, _, hdata, hread, rfl⟩)
        (w.context.stores_put property v)⟩
    next property text hread =>
      split
      next error hvalue =>
        rw [refused_eq_warned (he.evaluate hvalue)]
        refine ⟨_, rfl, .failed fun key value hgives => ?_⟩
        obtain ⟨data', source, hsome, hread', hvalue'⟩ := gives_set_iff.mp hgives
        cases hdata.symm.trans hsome
        cases hread.symm.trans hread'
        cases hvalue.symm.trans hvalue'
      next v hvalue =>
        exact ⟨_, rfl, .stored (gives_set_iff.mpr ⟨data, _, hdata, hread, hvalue⟩)
          (w.context.stores_put property v)⟩

theorem calculate_acts (he : e.Answers) (w : World) : ∃ r, (calculate e b w).1 = .ok r ∧
    Acts e b evaluate w.context r (calculate e b w).2.context := by
  unfold calculate
  split
  next hdata =>
    refine ⟨_, rfl, .failed fun key value hgives => ?_⟩
    obtain ⟨data, hsome, -⟩ := gives_evaluate_iff.mp hgives
    cases hdata.symm.trans hsome
  next data hdata =>
    split
    next error hvalue =>
      rw [refused_eq_warned (he.evaluate hvalue)]
      refine ⟨_, rfl, .failed fun key value hgives => ?_⟩
      obtain ⟨data', hsome, hvalue', -⟩ := gives_evaluate_iff.mp hgives
      cases hdata.symm.trans hsome
      cases hvalue.symm.trans hvalue'
    next v hvalue =>
      dsimp only
      split
      next key hname =>
        exact ⟨_, rfl, .stored (gives_evaluate_iff.mpr ⟨data, hdata, hvalue, hname⟩)
          (w.context.stores_put key v)⟩
      next hname =>
        refine ⟨_, rfl, .kept fun key value hgives => ?_⟩
        obtain ⟨data', -, -, hname'⟩ := gives_evaluate_iff.mp hgives
        cases hname.symm.trans hname'

/-- **What each of the tasks does**, it does at once. -/
theorem acts (hx : x ∈ all) (he : e.Answers) (b : Brief) : ∃ f : World → Outcome × World,
    x.behave e b = .attempt f ∧ ∀ w, ∃ r, (f w).1 = .ok r ∧ Acts e b x w.context r (f w).2.context := by
  simp only [all, List.mem_cons, List.not_mem_nil, or_false] at hx
  rcases hx with rfl | rfl | rfl | rfl | rfl
  · exact ⟨_, rfl, logMessage_acts he⟩
  · exact ⟨_, rfl, assign_acts he⟩
  · exact ⟨_, rfl, test_acts he⟩
  · exact ⟨_, rfl, calculate_acts he⟩
  · exact ⟨fun w => (.ok .completed, w), rfl, fun w =>
      ⟨_, rfl, .kept fun _ _ => not_gives (by decide) (by decide)⟩⟩

/-- The tasks know nothing of pools. -/
theorem ignores (hx : x ∈ all) (e : Evaluator) (q : Pool) : x.Ignores e q := by
  intro brief
  have hplain : ∃ f, x.behave e brief = .attempt f ∧ Plain (· = q) f := exists_plain hx brief
  obtain ⟨f, hbehave, hf⟩ := hplain
  have hlike (w : World) : Like (· = q) w (w.close q) :=
    ⟨rfl, rfl, rfl, fun hp => by simp [World.isClosed, World.close, hp]⟩
  rw [hbehave]
  refine .act ⟨fun w => ?_, fun w hclosed => ?_⟩ fun _ => .done
  · exact congrArg Activity.done (hf.alike (hlike w)).1
  · rwa [World.isClosed, hf.keeps] at hclosed

end Builtin

/-! ### The tasks of a playbook -/

/-- A registry with some of its identifiers alone. -/
def Registry.within (r : Registry) (keep : String → Bool) : Registry :=
  ⟨r.tasks.filter fun entry => keep entry.1⟩

theorem Registry.resolve?_within (r : Registry) (keep : String → Bool) (id : String) :
    (r.within keep).resolve? id = if keep id then r.resolve? id else none := by
  obtain ⟨tasks⟩ := r
  unfold within resolve?
  dsimp only
  induction tasks with
  | nil => simp [Table.get?_nil]
  | cons entry rest ih =>
      obtain ⟨k, x⟩ := entry
      by_cases hkeep : keep k = true
      · rw [List.filter_cons_of_pos (by exact hkeep), Table.get?, Table.get?, ih]
        by_cases hid : k = id
        · rw [if_pos hid, if_pos hid, ← hid, if_pos hkeep]
        · rw [if_neg hid, if_neg hid]
      · rw [List.filter_cons_of_neg (by exact hkeep), ih, Table.get?]
        by_cases hid : k = id
        · rw [← hid, if_neg hkeep, if_neg hkeep]
        · rw [if_neg hid]

/-- **A playbook over the tasks that are there from the beginning**: each of its leaves is one of them. -/
def Playbook.OverBuiltins (p : Playbook) (r : Registry) : Prop :=
  ∀ positions t x, p.task? positions = some t → t.isContainer = false → r.resolve? t.id = some x →
    x ∈ Builtin.all

section

variable {ordered : Prop} {g : Engine} {p : Playbook} {plan : Plan} {w v : World} {h : List Turn}
variable {s : Marked} {fault : Fault} {error : ExpressionError}

/-- An engine that has no other tasks than those of the playbook has the same plan. -/
theorem Plan.exists_registry (hplan : Plan.ofPlaybook g.registry p = .ok plan)
    (hover : p.OverBuiltins g.registry) : ∃ r : Registry, Plan.ofPlaybook r p = .ok plan ∧
      ∀ id x, r.resolve? id = some x → x ∈ Builtin.all := by
  let keep (id : String) : Bool := p.taskIds.contains id && !(id = blockId || id = parallelId)
  refine ⟨g.registry.within keep, ?_, ?_⟩
  · rw [← hplan]
    apply Plan.ofPlaybook_of_ids
    intro id hid hblock hparallel
    rw [Registry.resolve?_within, if_pos]
    simp [keep, hid, hblock, hparallel]
  · intro id x hx
    rw [Registry.resolve?_within] at hx
    split at hx
    next hkeep =>
      simp only [keep, Bool.and_eq_true, List.contains_iff_mem] at hkeep
      obtain ⟨hid, hleaf⟩ := hkeep
      rw [← p.nodes_ids] at hid
      obtain ⟨n, hn, rfl⟩ := List.mem_map.mp hid
      refine hover n.positions n.task x (p.mem_nodes.mp hn) ?_ hx
      simpa [Task.isContainer] using hleaf
    · cases hx

/-! ### Guards that cannot be evaluated -/

/-- **A guard cannot be evaluated** in the course of a run: in one of its turns a step that is about to begin, or
a leaf that is about to be repeated, looks at the guard of its task, and in the context of this moment, with the
variables of the task over it, the guard has no truth. -/
inductive GuardFails (ordered : Prop) (e : Evaluator) (p : Playbook) (plan : Plan) (w : World)
    (h : List Turn) (error : ExpressionError) : Prop
  | looked {h₁ h₂ : List Turn} {place : Pool} {way : Way} {x y : World} {a : Marked}
      {positions : List Nat} {t : Task} {guard : String}
      (hsplit : h = h₁ ++ .own ⟨place, .guard (Plan.settingsOf t)⟩ way x y :: h₂)
      (hbefore : Run ordered (plan.marked e) w h₁ a x) (hat : p.task? positions = some t)
      (hplace : place = positions.reverse ∨
        t.isContainer = false ∧ t.repetitions ≠ 0 ∧ place = 0 :: positions.reverse)
      (hguard : t.guard = some guard)
      (herror : x.context.validate e guard (Table.ofList t.vars) = .error error)

/-- Only a guard that is there can be impossible to evaluate. -/
theorem Settings.guard_of_error {settings : Settings} {e : Evaluator} {c : Context}
    (herror : settings.holds e c = .error error) :
    ∃ guard, settings.guard = some guard ∧ c.validate e guard settings.vars = .error error := by
  unfold Settings.holds at herror
  split at herror
  · cases herror
  next guard hguard => exact ⟨guard, hguard, herror⟩

/-- **Whose guard it is**: a piece of work of a task that is a guard, and is there, is the guard of the task. -/
theorem Task.Has.guard_of_error {r : Registry} {t : Task} {place q : Pool} {piece : Piece}
    {settings : Settings} {e : Evaluator} {c : Context} (hhas : t.Has r place q piece)
    (hsettings : piece.settings? = some settings) (herror : settings.holds e c = .error error) :
    settings = Plan.settingsOf t ∧
      (q = place ∨ t.isContainer = false ∧ t.repetitions ≠ 0 ∧ q = 0 :: place) := by
  cases hhas with
  | guard hstep =>
      cases hsettings
      refine ⟨?_, Or.inl rfl⟩
      rcases Plan.stepOf_eq_ok.mp hstep with ⟨-, -, steps, -, rfl⟩ | ⟨-, -, x, -, rfl⟩
      · rfl
      · unfold Plan.leaf at herror ⊢
        by_cases hrepeated : t.repetitions = 0
        · rw [if_pos hrepeated]
          rfl
        · -- the step around a leaf that is repeated has no guard
          rw [if_neg hrepeated] at herror
          cases herror
  | task => cases hsettings
  | entry hleaf hrepeated =>
      cases hsettings
      exact ⟨rfl, Or.inr ⟨hleaf, hrepeated, rfl⟩⟩
  | batch => cases hsettings
  | late => cases hsettings

/-- **A fault that is no refusal arises from a guard**, if no task faults. -/
theorem Plan.guardFails_of_arisen {r : Registry} {e : Evaluator}
    (hplan : Plan.ofPlaybook r p = .ok plan)
    (hkinds : ∀ id x, r.resolve? id = some x → x.NeverFaults e fun _ => True)
    (hne : fault ≠ .poolShutdown)
    (harisen : Arisen ordered e (plan.flow.Has [] { label := plan.id }) (plan.marked e) w h s v
      fault) : ∃ error, fault = .ofError error ∧ GuardFails ordered e p plan w h error := by
  obtain ⟨h₁, ⟨place, purpose⟩, way, x, y, h₂, a, b, hsplit, hbefore, hmakes, -⟩ := harisen
  cases hmakes with
  | permit => exact (hne rfl).elim
  | @work path inner piece c _ hpiece hleft hworks harises =>
    cases harises with
    | task => exact (Plan.task_never hplan hkinds hpiece hleft hworks.base trivial).elim
    | refused => exact (hne rfl).elim
    | @guard _ settings error hsettings herror =>
        obtain ⟨positions, t, hat, hhas⟩ := Plan.has_of_ofPlaybook hplan hpiece
        obtain ⟨rfl, hplace⟩ := hhas.guard_of_error hsettings herror
        have hpurpose : purpose = .guard (Plan.settingsOf t) := by
          rcases hleft.move hworks.base with
            ⟨_, hsettings', hpurpose, -⟩ | ⟨_, _, rfl, -⟩ | ⟨rfl, -⟩ | ⟨rfl, -⟩
          · cases hsettings.symm.trans hsettings'
            exact hpurpose
          · cases hsettings
          · cases hsettings
          · cases hsettings
        obtain ⟨guard, hguard, hvalidate⟩ := Settings.guard_of_error herror
        subst hpurpose
        exact ⟨error, rfl, .looked hsplit hbefore hat hplace hguard hvalidate⟩

/-- **A run over the tasks that are there from the beginning** ends with a fault only for a guard. -/
theorem Plan.guardFails_of_fault (hplan : g.plan p = .ok plan) (hover : p.OverBuiltins g.registry)
    (he : g.evaluator.Answers) (hcalm : Undisturbed p w h)
    (hrun : Run ordered (plan.marked g.evaluator) w h (.done (.error fault)) v) :
    ∃ error is, fault = (Fault.expression error).under is ∧
      GuardFails ordered g.evaluator p plan w h error := by
  obtain ⟨r, hsame, hbuiltin⟩ := Plan.exists_registry hplan hover
  have hnever (bad : Fault → Prop) (id : String) (x : Executable) (hx : r.resolve? id = some x) :
      x.NeverFaults g.evaluator bad :=
    Builtin.neverFaults (hbuiltin id x hx) fun fault hbreaks => (he.not_breaksOff hbreaks).elim
  have hexplains : plan.Explains ordered g.evaluator w h (.done (.error fault)) v fault := by
    have hplan : ({ g with registry := r } : Engine).plan p = .ok plan := hsame
    exact Plan.explains hplan (fun id x q hx _ => Builtin.ignores (hbuiltin id x hx) g.evaluator q)
      (hnever _) hcalm hrun
  obtain ⟨origin, is, rfl, hne, harisen⟩ := hexplains
  obtain ⟨error, rfl, hfails⟩ := Plan.guardFails_of_arisen hsame (hnever _) hne harisen
  have hreported : error.crash? = none := by
    obtain ⟨_, _, _, _, _, herror⟩ := hfails
    exact he.validate herror
  rw [Fault.ofError_of_none hreported]
  exact ⟨error, is, rfl, hfails⟩

end

theorem Activity.run_attempt (fuel : Nat) (f : World → Outcome × World) (w : World) :
    Activity.run fuel (.attempt f) w = some (f w) := by
  cases fuel <;> rfl

/-- **The tasks that are there from the beginning store one value at most, and never fault.**  For each of them,
with any data and variables, on any context and for any evaluator that answers:

* it ends with a report.  If it fails, it leaves the context as it was; if it is completed, it stores what it has
  to store, an assignment under the name before the first equals sign and an evaluation under the text of its
  variable for the result, and leaves the context as it was if the value is null or there is none;
* so it is whatever goes on beside it, and it does so in one turn.

For a playbook over these tasks that has a plan, and such an evaluator:

* whatever turns parallel branches take, if nobody else closes the pools of the playbook, then a fault that ends a
  run of the plan is that of a guard, under the numbers of branches: in the course of the run a step or a branch
  looked at this guard, and it could not be evaluated;
* so is a fault that an engine returns. -/
theorem builtins_store_one_value_and_never_fault :
    (∀ x ∈ Builtin.all, ∀ e b, e.Answers →
      (∀ w, ∃ r v, (∀ fuel, Activity.run fuel (x.behave e b) w = some (.ok r, v)) ∧
        Builtin.Acts e b x w.context r v.context) ∧
      ∀ {ordered w h o v}, Activity.Run ordered (x.behave e b) w h (.done o) v →
        ∃ h₁ y z h₂ r, h = h₁ ++ .own [] y z :: h₂ ∧ Idle h₁ ∧ Idle h₂ ∧ o = .ok r ∧
          Builtin.Acts e b x y.context r z.context) ∧
    ∀ {g : Engine} {p : Playbook} {plan : Plan}, g.plan p = .ok plan →
      p.OverBuiltins g.registry → g.evaluator.Answers →
      (∀ {ordered w h fault v}, Undisturbed p w h →
        Run ordered (plan.marked g.evaluator) w h (.done (.error fault)) v →
        ∃ error is, fault = (Fault.expression error).under is ∧
          GuardFails ordered g.evaluator p plan w h error) ∧
      ∀ {c fault v}, g.run p c = some (.error fault, v) →
        ∃ error is h u, fault = (Fault.expression error).under is ∧
          Run True (plan.marked g.evaluator) (g.prepare p plan { context := c }) h
            (.done (.error fault)) u ∧
          GuardFails True g.evaluator p plan (g.prepare p plan { context := c }) h error := by
  refine ⟨fun x hx e b he => ?_, fun {g p plan} hplan hover he => ?_⟩
  · obtain ⟨f, hbehave, hacts⟩ := Builtin.acts hx he b
    rw [hbehave]
    refine ⟨fun w => ?_, ?_⟩
    · obtain ⟨r, hreport, hr⟩ := hacts w
      exact ⟨r, (f w).2, fun fuel => by rw [Activity.run_attempt, ← hreport], hr⟩
    · intro ordered w h o v hrun
      obtain ⟨h₁, y, h₂, hsplit, hbefore, hafter, houtcome⟩ := hrun.of_attempt
      obtain ⟨r, hreport, hr⟩ := hacts y
      exact ⟨h₁, y, _, h₂, r, hsplit, hbefore, hafter, houtcome.trans hreport, hr⟩
  · refine ⟨fun hcalm hrun => Plan.guardFails_of_fault hplan hover he hcalm hrun, ?_⟩
    intro c fault v hrun
    obtain ⟨h, u, halone, hmarked⟩ := Engine.run_marked hplan hrun
    have hcalm := g.prepare_undisturbed p plan c halone
    obtain ⟨error, is, heq, hfails⟩ := Plan.guardFails_of_fault hplan hover he hcalm hmarked
    exact ⟨error, is, h, u, heq, hmarked, hfails⟩

/-- An engine for which no guard can be evaluated. -/
private def doubtful : Engine where
  evaluator :=
    { evaluate := fun text _ => .ok (.string text), validate := fun text _ => .error (.malformed text) }

/-- A message beside an assignment with a guard. -/
private def guarded : Playbook where
  id := "guarded"
  tasks := [{ id := "parallel", children := [
    { id := "log", data := "hello" }, { id := "set", data := "x = 1", guard := "?" }] }]

/-- The fault that comes out of the second branch is that of its guard. -/
theorem builtins_store_one_value_and_never_fault_guarded : ∃ plan v,
    doubtful.plan guarded = .ok plan ∧
    doubtful.run guarded {} = some (.error ((Fault.expression (.malformed "?")).under [1]), v) ∧
    ∃ h error, GuardFails True doubtful.evaluator guarded plan
      (doubtful.prepare guarded plan {}) h error := by
  have hover : guarded.OverBuiltins doubtful.registry :=
    fun _ _ _ _ _ hx => Registry.mem_all_of_standard hx
  obtain ⟨-, hplaybooks⟩ := builtins_store_one_value_and_never_fault
  obtain ⟨plan, hplan⟩ : ∃ plan, doubtful.plan guarded = .ok plan := ⟨_, rfl⟩
  obtain ⟨v, hrun⟩ : ∃ v, doubtful.run guarded {} =
      some (.error ((Fault.expression (.malformed "?")).under [1]), v) := ⟨_, rfl⟩
  have he : doubtful.evaluator.Answers :=
    ⟨nofun, fun htruth => by cases htruth; rfl⟩
  obtain ⟨-, hengine⟩ := hplaybooks hplan hover he
  obtain ⟨error, is, h, u, -, -, hfails⟩ := hengine hrun
  exact ⟨plan, v, hplan, hrun, h, error, hfails⟩

end Runsheet
