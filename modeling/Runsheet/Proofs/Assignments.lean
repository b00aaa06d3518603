import Runsheet.Proofs.Heedless
import Runsheet.Proofs.Plans
import Runsheet.Proofs.Schedule
import Runsheet.Proofs.Seeding

/-!
# Assignments

The variables of a task stand over the values of the context wherever its guard or an expression of it is
evaluated, and never get into the context.  What changes a context is an assignment, or an evaluation
with a name for its result, and each changes the value under this name alone.

* `Builtin.get?_assign`, `Builtin.get?_calculate` — what these two tasks leave as it is;
* `Task.work_keeps` — what a leaf leaves as it is;
* `Plan.work_keeps` — what a plan leaves as it is;
* `only_assignments_change_context` — the result.
-/

namespace Runsheet

open Activity (Throughout Fits Guarded)

/-- **A leaf assigns a key** if it is an assignment with the key before the first equals sign of its data,
or an evaluation with a variable that gives its result the key for a name. -/
inductive Task.Assigns (r : Registry) (t : Task) (key : String) : Prop
  | set {data : String} {before after : List Char} (hleaf : t.isContainer = false)
      (hx : r.resolve? t.id = some Builtin.set) (hdata : t.data = some data)
      (hcut : data.toList = before ++ '=' :: after) (hfirst : '=' ∉ before)
      (hkey : Text.trim (String.ofList before) = key)
  | evaluate (hleaf : t.isContainer = false) (hx : r.resolve? t.id = some Builtin.evaluate)
      (hkey : textOfVar? (Table.ofList t.vars) "result" = some key)

/-- The kind of task never writes the context. -/
def Executable.SparesContext (x : Executable) (e : Evaluator) : Prop :=
  ∀ brief, Throughout (fun f _ => ∀ w, (f w).context = w.context) (fun _ => True) (x.behave e brief)

/-- The change keeps the value under a key, or its absence. -/
def Activity.KeepsKey (key : String) (f : World → World) (_ : World → Activity) : Prop :=
  ∀ w, (f w).context.get? key = w.context.get? key

open Activity (KeepsKey)

section

variable {key : String} {e : Evaluator} {w : World}

/-- Flows by themselves keep every key. -/
theorem fits_keepsKey (key : String) (pools : Pool → Prop) : Fits (KeepsKey key) pools where
  bind _ hf := hf
  note _ _ _ _ := rfl
  pause _ _ := rfl
  enter _ _ _ _ := rfl
  leave _ _ _ _ := rfl

/-- A look at a guard keeps every key. -/
theorem guarded_keepsKey (key : String) (s : Settings) : Guarded (KeepsKey key) e s :=
  fun _ _ => rfl

/-! ### The tasks that are there from the beginning -/

namespace Builtin

/-- The right side of an assignment. -/
def sourceOf (text : String) : Source :=
  if text.toList.all Text.isAlphanumeric then .literal (literalOf text) else .expression text

/-- **What is read off an assignment**: the name before the first equals sign and the right side after it. -/
theorem readAssignment?_eq_some_iff {data property : String} {source : Source} :
    readAssignment? data = some (property, source) ↔ ∃ before after,
      data.toList = before ++ '=' :: after ∧ '=' ∉ before ∧ Text.trim (String.ofList before) = property ∧
        property ≠ "" ∧ source = sourceOf (Text.trim (String.ofList after)) := by
  constructor
  · intro hread
    obtain ⟨⟨before, after⟩, hcut, hread⟩ := Option.bind_eq_some_iff.mp hread
    obtain ⟨hdata, hfirst⟩ := Text.eq_of_cutAt hcut
    refine ⟨before, after, hdata, hfirst, ?_⟩
    dsimp only at hread
    unfold sourceOf
    split at hread
    · cases hread
    next hname =>
      split at hread
      next hplain =>
        cases hread
        exact ⟨rfl, hname, by rw [if_pos hplain]⟩
      next hplain =>
        cases hread
        exact ⟨rfl, hname, by rw [if_neg hplain]⟩
  · rintro ⟨before, after, hdata, hfirst, hkey, hname, hsource⟩
    rw [hsource, ← hkey]
    rw [← hkey] at hname
    unfold readAssignment? sourceOf
    rw [hdata, Text.cutAt_append hfirst]
    dsimp only [Option.bind_eq_bind, Option.bind_some]
    rw [if_neg hname]
    split <;> rfl

/-- The name of an assignment is what stands before the first equals sign. -/
theorem readAssignment?_name {data property : String} {source : Source}
    (h : readAssignment? data = some (property, source)) :
    ∃ before after, data.toList = before ++ '=' :: after ∧ '=' ∉ before ∧
      Text.trim (String.ofList before) = property := by
  obtain ⟨before, after, hdata, hfirst, hname, -⟩ := readAssignment?_eq_some_iff.mp h
  exact ⟨before, after, hdata, hfirst, hname⟩

/-- **An assignment keeps every key but its name.** -/
theorem get?_assign {b : Brief} (hname : ∀ data property source, b.data = some data →
    readAssignment? data = some (property, source) → property ≠ key) (w : World) :
    (assign e b w).2.context.get? key = w.context.get? key := by
  have hstored {data property : String} {source : Source} (hdata : b.data = some data)
      (hread : readAssignment? data = some (property, source)) (v : Json) :
      (assign.stored w property v).2.context.get? key = w.context.get? key := by
    have hne : property ≠ key := hname data property source hdata hread
    have hput : (assign.stored w property v).2.context = w.context.put property v := rfl
    rw [hput, Context.get?_put, if_neg fun h => hne h.1]
  unfold assign
  split
  · rfl
  next data hdata =>
    split
    · rfl
    next property v hread => exact hstored hdata hread v
    next property text hread =>
      split
      · rw [refused_context]
      next v _ => exact hstored hdata hread v

/-- **An evaluation keeps every key but the name of its result.** -/
theorem get?_calculate {b : Brief} (hname : textOfVar? b.vars "result" ≠ some key) (w : World) :
    (calculate e b w).2.context.get? key = w.context.get? key := by
  unfold calculate
  split
  · rfl
  · split
    · rw [refused_context]
    next v _ =>
      dsimp only
      split
      next name hresult =>
        have hne : name ≠ key := by
          intro heq
          rw [heq] at hresult
          exact hname hresult
        have hput (u : World) : (u.put name v).context = u.context.put name v := rfl
        rw [hput, Context.get?_put, if_neg fun h => hne h.1]
        rfl
      · rfl

theorem logMessage_context (b : Brief) (w : World) : (logMessage e b w).2.context = w.context := by
  unfold logMessage
  split
  · rfl
  · split
    · exact refused_context _ _ _
    · rfl

theorem test_context (b : Brief) (w : World) : (test e b w).2.context = w.context := by
  unfold test
  split
  · rfl
  · split
    · rfl
    · exact refused_context _ _ _

/-- The other tasks that are there from the beginning never write the context. -/
theorem sparesContext {x : Executable} (hx : x ∈ all) (hset : x ≠ set) (hevaluate : x ≠ evaluate) :
    x.SparesContext e := by
  simp only [all, List.mem_cons, List.not_mem_nil, or_false] at hx
  intro brief
  rcases hx with rfl | rfl | rfl | rfl | rfl
  · exact .act (logMessage_context brief) fun _ => .done
  · exact (hset rfl).elim
  · exact .act (test_context brief) fun _ => .done
  · exact (hevaluate rfl).elim
  · exact .act (fun _ => rfl) fun _ => .done

end Builtin

/-! ### Leaves and plans -/

/-- **A leaf keeps every key that it does not assign.** -/
theorem Task.work_keeps {r : Registry} {t : Task} {x : Executable} (hleaf : t.isContainer = false)
    (hx : r.resolve? t.id = some x) (hkind : x ∈ Builtin.all ∨ x.SparesContext e)
    (hkey : ¬ t.Assigns r key) :
    Throughout (KeepsKey key) (fun _ => True)
      (x.behave e (Step.mk (Plan.settingsOf t) (.task x)).brief) := by
  have hspares (hx : x.SparesContext e) : Throughout (KeepsKey key) (fun _ => True)
      (x.behave e (Step.mk (Plan.settingsOf t) (.task x)).brief) := by
    apply (hx _).imp
    intro f _ hf w
    rw [hf w]
  rcases hkind with hbuiltin | hother
  · by_cases hset : x = Builtin.set
    · subst hset
      refine .act (Builtin.get?_assign fun data property source hdata hread heq => ?_) fun _ => .done
      obtain ⟨before, after, hcut, hfirst, hname⟩ := Builtin.readAssignment?_name hread
      exact hkey (.set hleaf hx hdata hcut hfirst (hname.trans heq))
    · by_cases hevaluate : x = Builtin.evaluate
      · subst hevaluate
        refine .act (Builtin.get?_calculate fun hresult => ?_) fun _ => .done
        exact hkey (.evaluate hleaf hx hresult)
      · exact hspares (Builtin.sparesContext hbuiltin hset hevaluate)
  · exact hspares hother

/-- **A plan keeps every key that no leaf of its tree assigns.** -/
theorem Plan.work_keeps {r : Registry} {p : Playbook} {plan : Plan}
    (hplan : Plan.ofPlaybook r p = .ok plan)
    (hkinds : ∀ id x, r.resolve? id = some x → x ∈ Builtin.all ∨ x.SparesContext e)
    (hkey : ∀ positions t, p.task? positions = some t → ¬ t.Assigns r key) :
    Throughout (KeepsKey key) (fun _ => True) (plan.work e) := by
  apply Plan.work_throughout hplan (fits_keepsKey key _) (guarded_keepsKey key)
  · intro q _
    trivial
  · intro positions t x hat hleaf hx
    exact Task.work_keeps hleaf hx (hkinds _ _ hx) (hkey positions t hat)

end

/-- What an engine runs is the work of the plan, on the context after seeding. -/
theorem Engine.run_reaches {g : Engine} {p : Playbook} {plan : Plan} {c : Context} {o : Outcome}
    {v : World} (hplan : g.plan p = .ok plan) (hrun : g.run p c = some (o, v)) :
    ∃ h u, Activity.Alone h ∧ Activity.Run True (plan.work g.evaluator)
      (g.prepare p plan { context := c }) h (.done o) u ∧ v.context = u.context := by
  obtain ⟨u, hwork, hcontext⟩ := Engine.run_of_plan hplan hrun
  obtain ⟨h, halone, hreached⟩ := Activity.run_reaches hwork
  exact ⟨h, u, halone, hreached, hcontext⟩

/-- **Only assignments change the context, and the variables of tasks never get into it.**  A playbook that
has a plan is given, with the tasks that are there from the beginning and kinds of tasks that never write
the context, and a key that no leaf of the tree assigns.  Whatever turns parallel branches take:

* no turn of the plan changes the value under the key or its absence, whatever goes on beside it;
* if nothing else does so either, the key is at every moment of a run what it was after seeding;
* so it is when a run of an engine comes to an end, be it with a report or with a fault. -/
theorem only_assignments_change_context {g : Engine} {p : Playbook} {plan : Plan} {key : String}
    (hplan : g.plan p = .ok plan)
    (hkinds : ∀ id x, g.registry.resolve? id = some x →
      x ∈ Builtin.all ∨ x.SparesContext g.evaluator)
    (hkey : ∀ positions t, p.task? positions = some t → ¬ t.Assigns g.registry key) :
    (∀ {ordered w h a v}, Activity.Run ordered (plan.work g.evaluator) w h a v →
      ∀ way x y, .own way x y ∈ h → y.context.get? key = x.context.get? key) ∧
    (∀ {ordered w h a v},
      Activity.Run ordered (plan.work g.evaluator) (g.prepare p plan w) h a v →
      (∀ x y, .other x y ∈ h → y.context.get? key = x.context.get? key) →
      v.context.get? key = (g.seed p.vars w).context.get? key) ∧
    ∀ {c o v}, g.run p c = some (o, v) →
      v.context.get? key = (g.seed p.vars { context := c }).context.get? key := by
  have hkeeps : Throughout (KeepsKey key) (fun _ => True) (plan.work g.evaluator) :=
    Plan.work_keeps hplan hkinds hkey
  have hturns {ordered : Prop} {w v : World} {h : List Activity.Turn} {a : Activity}
      (hrun : Activity.Run ordered (plan.work g.evaluator) w h a v) (way : Activity.Way)
      (x y : World) (hmem : .own way x y ∈ h) : y.context.get? key = x.context.get? key :=
    hkeeps.own_turns (R := fun x y => y.context.get? key = x.context.get? key)
      (fun _ _ hf => hf) (fun _ => rfl) hrun way x y hmem
  have hmoments {ordered : Prop} {w v : World} {h : List Activity.Turn} {a : Activity}
      (hrun : Activity.Run ordered (plan.work g.evaluator) (g.prepare p plan w) h a v)
      (hothers : ∀ x y, .other x y ∈ h → y.context.get? key = x.context.get? key) :
      v.context.get? key = (g.seed p.vars w).context.get? key := by
    rw [← g.prepare_context p plan w]
    exact hrun.lifts (R := fun x y => y.context.get? key = x.context.get? key) (fun _ => rfl)
      (fun hfirst hsecond => hsecond.trans hfirst) (hturns hrun) hothers fun _ => rfl
  refine ⟨hturns, hmoments, ?_⟩
  intro c o v hrun
  obtain ⟨h, u, halone, hreached, hcontext⟩ := Engine.run_reaches hplan hrun
  rw [hcontext]
  exact hmoments hreached fun x y hmem => (halone x y hmem).elim

/-- An engine that takes every text for itself, and for which every guard holds. -/
private def literal : Engine where
  evaluator := { evaluate := fun text _ => .ok (.string text), validate := fun _ _ => .ok true }

/-- An assignment with a variable of its own. -/
private def assigning : Task where
  id := "set"
  data := "done = true"
  vars := [("secret", .string "own")]
  guard := "secret"

/-- A message with another variable. -/
private def telling : Task where
  id := "log"
  data := "hello"
  vars := [("secret", .string "other")]

/-- The assignment beside the message. -/
private def secretive : Playbook where
  id := "secretive"
  vars := [("secret", .string "kept")]
  tasks := [{ id := "parallel", children := [assigning, telling] }]

/-- The assignment writes its own name alone. -/
theorem only_assignments_change_context_secretive : ∃ plan v, literal.plan secretive = .ok plan ∧
    literal.run secretive {} = some (.ok (.parallel [.completed, .completed]), v) ∧
    v.context.get? "done" = some (.bool true) ∧
    v.context.get? "secret" = (literal.seed secretive.vars {}).context.get? "secret" := by
  have hkinds (id : String) (x : Executable) (hx : literal.registry.resolve? id = some x) :
      x ∈ Builtin.all ∨ x.SparesContext literal.evaluator :=
    Or.inl (Registry.mem_all_of_standard hx)
  have hother {id : String} {x y : Executable} (hx : literal.registry.resolve? id = some x)
      (hne : x.name ≠ y.name) (hy : literal.registry.resolve? id = some y) : False := by
    rw [hx] at hy
    cases hy
    exact hne rfl
  have hassigning : ¬ assigning.Assigns literal.registry "secret" := by
    intro hassigns
    cases hassigns with
    | @set data before after _ _ hdata hcut hfirst hkey =>
        cases hdata
        have hbefore := Text.cutAt_append hfirst after
        rw [← hcut] at hbefore
        have hcuts : Text.cutAt '=' "done = true".toList = some ("done ".toList, " true".toList) := by
          decide
        cases hcuts.symm.trans hbefore
        revert hkey
        decide
    | evaluate _ hx => exact hother rfl (by decide) hx
  have htelling : ¬ telling.Assigns literal.registry "secret" := by
    intro hassigns
    cases hassigns with
    | set _ hx => exact hother rfl (by decide) hx
    | evaluate _ hx => exact hother rfl (by decide) hx
  have hkey : ∀ positions t, secretive.task? positions = some t →
      ¬ t.Assigns literal.registry "secret" := by
    intro positions t hat
    have hnode : (⟨positions, t⟩ : TaskNode) ∈ secretive.nodes := secretive.mem_nodes.mpr hat
    have hmem : t ∈ secretive.nodes.map TaskNode.task := List.mem_map.mpr ⟨_, hnode, rfl⟩
    have htasks : secretive.nodes.map TaskNode.task =
        [{ id := "parallel", children := [assigning, telling] }, assigning, telling] := rfl
    simp only [htasks, List.mem_cons, List.not_mem_nil, or_false] at hmem
    rcases hmem with rfl | rfl | rfl
    · intro hassigns
      cases hassigns with
      | set hleaf => cases hleaf
      | evaluate hleaf => cases hleaf
    · exact hassigning
    · exact htelling
  exact ⟨_, _, rfl, rfl, rfl, (only_assignments_change_context rfl hkinds hkey).2.2 rfl⟩

end Runsheet
