import Runsheet.Proofs.Assignments

/-!
# Contexts hold no nulls

A null is what an expression without a value gives, and a context takes it for nothing: each way to write
a value refuses it.  So no value of a context is ever null, whoever holds the context and whatever is done
with it, and a key has a value if and only if there is something under it.

* `Context.Change`, `Context.Leads` — what can be done to the values of a context;
* `Context.IsNullFree.leads` — nothing of it brings a null into a context;
* `Handles` — contexts that are held by several, each with an evaluator of their own;
* `Plan.work_leads` — a plan does nothing else to a context;
* `context_holds_no_null` — the result.
-/

namespace Runsheet

open Activity (Throughout Fits Guarded)

namespace Context

/-- No value of the context is null. -/
def IsNullFree (c : Context) : Prop :=
  ∀ key, c.get? key ≠ some .null

/-- What a holder of a context can do to its values. -/
inductive Change
  | put (key : String) (value : Json)
  | putAbsent (key : String) (value : Json)
  | seed (vars : List (String × Json))
  | erase (key : String)

/-- The context after a change. -/
def Change.apply (c : Context) : Change → Context
  | .put key value => c.put key value
  | .putAbsent key value => c.putAbsent key value
  | .seed vars => c.seed vars
  | .erase key => c.erase key

/-- One change after the other leads from a context to another. -/
inductive Leads (c : Context) : Context → Prop
  | refl : Leads c c
  | step {d : Context} (h : Leads c d) (change : Change) : Leads c (change.apply d)

variable {c d : Context} {key k : String} {value v : Json}

theorem Leads.trans {e : Context} (h : c.Leads d) (h' : d.Leads e) : c.Leads e := by
  induction h' with
  | refl => exact h
  | step _ change ih => exact ih.step change

theorem leads_put (c : Context) (key : String) (value : Json) : c.Leads (c.put key value) :=
  Leads.refl.step (.put key value)

/-! ### Each way to write a value -/

theorem isNullFree_empty : IsNullFree {} :=
  nofun

/-- A context of named values leaves out those that are null. -/
theorem isNullFree_ofVars (vars : Vars) : (ofVars vars).IsNullFree := by
  intro key hnull
  have hmem := Table.mem_of_get? hnull
  unfold ofVars Table.filterValues at hmem
  rw [List.mem_filter] at hmem
  cases hmem.2

theorem IsNullFree.put (hc : c.IsNullFree) (key : String) (value : Json) : (c.put key value).IsNullFree := by
  intro k hnull
  rw [get?_put] at hnull
  split at hnull
  next hstored =>
    cases hnull
    cases hstored.2
  next => exact hc k hnull

theorem IsNullFree.putAbsent (hc : c.IsNullFree) (key : String) (value : Json) :
    (c.putAbsent key value).IsNullFree := by
  unfold Context.putAbsent
  split
  · exact hc.put key value
  · exact hc

theorem IsNullFree.seed (hc : c.IsNullFree) (vars : List (String × Json)) : (c.seed vars).IsNullFree := by
  unfold Context.seed
  induction vars generalizing c with
  | nil => exact hc
  | cons var rest ih => exact ih (hc.putAbsent var.1 var.2)

theorem IsNullFree.erase (hc : c.IsNullFree) (key : String) : (c.erase key).IsNullFree := by
  intro k hnull
  have hget : (c.erase key).get? k = if key = k then none else c.get? k := Table.get?_erase key k c.values
  rw [hget] at hnull
  split at hnull
  · cases hnull
  · exact hc k hnull

/-- **No change brings a null into a context.** -/
theorem IsNullFree.apply (hc : c.IsNullFree) (change : Change) : (change.apply c).IsNullFree := by
  cases change with
  | put key value => exact hc.put key value
  | putAbsent key value => exact hc.putAbsent key value
  | seed vars => exact hc.seed vars
  | erase key => exact hc.erase key

theorem IsNullFree.leads (hc : c.IsNullFree) (h : c.Leads d) : d.IsNullFree := by
  induction h with
  | refl => exact hc
  | step _ change ih => exact ih.apply change

/-- In a context without nulls there is a value under a key if and only if what is there is no null. -/
theorem IsNullFree.contains_iff (hc : c.IsNullFree) :
    c.contains key = true ↔ ∃ v, c.get? key = some v ∧ v ≠ .null := by
  have hsome : c.contains key = (c.get? key).isSome := rfl
  rw [hsome, Option.isSome_iff_exists]
  constructor
  · rintro ⟨v, hv⟩
    refine ⟨v, hv, fun hnull => hc key ?_⟩
    rw [hv, hnull]
  · rintro ⟨v, hv, -⟩
    exact ⟨v, hv⟩

/-- To store a null is to do nothing. -/
theorem put_null : c.put key .null = c ∧ c.displaced? key .null = none :=
  ⟨rfl, rfl⟩

/-- A value that is there stays when values are stored under absent keys. -/
theorem get?_putAbsent_of_some (h : c.get? k = some v) (key : String) (value : Json) :
    (c.putAbsent key value).get? k = some v := by
  rw [get?_putAbsent, h]
  split <;> rfl

theorem get?_seed_of_some (h : c.get? k = some v) (vars : List (String × Json)) :
    (c.seed vars).get? k = some v := by
  unfold seed
  induction vars generalizing c with
  | nil => exact h
  | cons var rest ih => exact ih (get?_putAbsent_of_some h var.1 var.2)

end Context

/-! ### Contexts that are shared -/

/-- What a holder of a context has: the place of the values, which others may have too, and an evaluator. -/
structure Handle where
  place : Nat
  evaluator : Evaluator

/-- The contexts that there are, and who holds them. -/
structure Handles where
  contexts : List Context := []
  handles : List Handle := []

namespace Handles

/-- What can be done with contexts: new ones are made, one that is there gets a further holder, with the
same evaluator or with another, or a holder changes the values. -/
inductive Use
  | fresh (e : Evaluator)
  | ofVars (vars : Vars)
  | share (holder : Nat)
  | equip (holder : Nat) (e : Evaluator)
  | change (holder : Nat) (change : Context.Change)

/-- A new context with its first holder. -/
def make (s : Handles) (c : Context) (e : Evaluator) : Handles :=
  ⟨s.contexts ++ [c], s.handles ++ [⟨s.contexts.length, e⟩]⟩

/-- One use. -/
def use (s : Handles) : Use → Handles
  | .fresh e => s.make {} e
  | .ofVars vars => s.make (.ofVars vars) (.standard {})
  | .share holder =>
    match s.handles[holder]? with
    | some h => { s with handles := s.handles ++ [h] }
    | none => s
  | .equip holder e =>
    match s.handles[holder]? with
    | some h => { s with handles := s.handles ++ [{ h with evaluator := e }] }
    | none => s
  | .change holder change =>
    match s.handles[holder]? with
    | some h => { s with contexts := s.contexts.modify h.place change.apply }
    | none => s

/-- One use after the other, from where there are no contexts. -/
def after (uses : List Use) : Handles :=
  uses.foldl use {}

variable {s : Handles}

theorem use_isNullFree (hs : ∀ c ∈ s.contexts, c.IsNullFree) (u : Use) :
    ∀ c ∈ (s.use u).contexts, c.IsNullFree := by
  have hmake {c : Context} (hc : c.IsNullFree) (e : Evaluator) :
      ∀ d ∈ (s.make c e).contexts, d.IsNullFree := by
    intro d hd
    rcases List.mem_append.mp hd with hd | hd
    · exact hs d hd
    · rw [List.mem_singleton.mp hd]
      exact hc
  cases u with
  | fresh e => exact hmake Context.isNullFree_empty e
  | ofVars vars => exact hmake (Context.isNullFree_ofVars vars) _
  | share holder =>
      rw [use]
      split <;> exact hs
  | equip holder e =>
      rw [use]
      split <;> exact hs
  | change holder change =>
      rw [use]
      split
      next h _ =>
        intro d hd
        obtain ⟨n, hn, rfl⟩ := List.mem_iff_getElem.mp hd
        have hlength : n < s.contexts.length := by
          rw [← List.length_modify change.apply]
          exact hn
        have hbefore : (s.contexts[n]).IsNullFree := hs _ (List.getElem_mem hlength)
        rw [List.getElem_modify]
        split
        · exact hbefore.apply change
        · exact hbefore
      next => exact hs

/-- **No context that is held has a null**, whatever its holders do. -/
theorem after_isNullFree (uses : List Use) : ∀ c ∈ (after uses).contexts, c.IsNullFree := by
  have hall (s : Handles) (hs : ∀ c ∈ s.contexts, c.IsNullFree) :
      ∀ c ∈ (uses.foldl use s).contexts, c.IsNullFree := by
    induction uses generalizing s with
    | nil => exact hs
    | cons u rest ih => exact ih (s.use u) (use_isNullFree hs u)
  exact hall {} nofun

end Handles

/-! ### Runs -/

/-- The change does to the context what a holder could do. -/
def Activity.LeadsOn (f : World → World) (_ : World → Activity) : Prop :=
  ∀ w : World, w.context.Leads (f w).context

/-- The kind of task does to the context what a holder could do. -/
def Executable.LeadsOn (x : Executable) (e : Evaluator) : Prop :=
  ∀ brief, Throughout Activity.LeadsOn (fun _ => True) (x.behave e brief)

open Activity (LeadsOn)

section

variable {e : Evaluator} {w : World}

theorem fits_leadsOn (pools : Pool → Prop) : Fits LeadsOn pools where
  bind _ hf := hf
  note _ _ _ _ := .refl
  pause _ _ := .refl
  enter _ _ _ _ := .refl
  leave _ _ _ _ := .refl

theorem guarded_leadsOn (s : Settings) : Guarded LeadsOn e s :=
  fun _ _ => .refl

namespace Builtin

theorem assign_leads (b : Brief) (w : World) : w.context.Leads (assign e b w).2.context := by
  have hstored (property : String) (v : Json) : w.context.Leads (assign.stored w property v).2.context :=
    Context.leads_put w.context property v
  unfold assign
  split
  · exact .refl
  · split
    · exact .refl
    · exact hstored _ _
    · split
      · rw [refused_context]
        exact .refl
      · exact hstored _ _

theorem calculate_leads (b : Brief) (w : World) : w.context.Leads (calculate e b w).2.context := by
  unfold calculate
  split
  · exact .refl
  · split
    · rw [refused_context]
      exact .refl
    next v _ =>
      dsimp only
      split
      next name _ => exact Context.leads_put w.context name v
      next => exact .refl

/-- The tasks that are there from the beginning do what a holder could do. -/
theorem leadsOn {x : Executable} (hx : x ∈ all) : x.LeadsOn e := by
  simp only [all, List.mem_cons, List.not_mem_nil, or_false] at hx
  intro brief
  rcases hx with rfl | rfl | rfl | rfl | rfl
  · refine .act (fun w => ?_) fun _ => .done
    rw [logMessage_context]
    exact .refl
  · exact .act (assign_leads brief) fun _ => .done
  · refine .act (fun w => ?_) fun _ => .done
    rw [test_context]
    exact .refl
  · exact .act (calculate_leads brief) fun _ => .done
  · exact .act (fun _ => .refl) fun _ => .done

end Builtin

/-- **A plan does to the context what a holder could do**, at each turn. -/
theorem Plan.work_leads {r : Registry} {p : Playbook} {plan : Plan} (hplan : Plan.ofPlaybook r p = .ok plan)
    (hkinds : ∀ id x, r.resolve? id = some x → x ∈ Builtin.all ∨ x.LeadsOn e) :
    Throughout LeadsOn (fun _ => True) (plan.work e) := by
  apply Plan.work_throughout hplan (fits_leadsOn _) guarded_leadsOn
  · intro q _
    trivial
  · intro positions t x _ _ hx
    rcases hkinds _ _ hx with hbuiltin | hother
    · exact Builtin.leadsOn hbuiltin _
    · exact hother _

end

/-- Seeding does to the context what a holder could do. -/
theorem Engine.seed_leads (g : Engine) (vars : Roster Json) (w : World) :
    w.context.Leads (g.seed vars w).context := by
  have hoffer (initial : Vars) (c : Context) (var : String × Json) : c.Leads (g.offer initial c var) := by
    unfold offer
    split
    next v _ => exact Context.Leads.refl.step (.putAbsent var.1 v)
    next => exact .refl
  rw [seed_context]
  generalize w.context.values = initial
  generalize w.context = c
  induction vars generalizing c with
  | nil => exact .refl
  | cons var rest ih => exact (hoffer initial c var).trans (ih _)

/-- **A run leads from the context as it was given**, through seeding and every turn, to the context at every
moment, if those who hold the context beside it do what holders can do. -/
theorem Engine.run_leads {g : Engine} {p : Playbook} {plan : Plan} (hplan : g.plan p = .ok plan)
    (hkinds : ∀ id x, g.registry.resolve? id = some x → x ∈ Builtin.all ∨ x.LeadsOn g.evaluator)
    {ordered : Prop} {w v : World} {h : List Activity.Turn} {a : Activity}
    (hrun : Activity.Run ordered (plan.work g.evaluator) (g.prepare p plan w) h a v)
    (hothers : ∀ x y, .other x y ∈ h → x.context.Leads y.context) : w.context.Leads v.context := by
  have hturns : ∀ way x y, .own way x y ∈ h → x.context.Leads y.context :=
    (Plan.work_leads hplan hkinds).own_turns (R := fun x y => x.context.Leads y.context)
      (fun _ _ hf => hf) (fun _ => .refl) hrun
  have hwork : (g.prepare p plan w).context.Leads v.context :=
    hrun.lifts (R := fun x y => x.context.Leads y.context) (fun _ => .refl)
      (fun hfirst hsecond => hfirst.trans hsecond) hturns hothers fun _ => .refl
  rw [g.prepare_context] at hwork
  exact (g.seed_leads p.vars w).trans hwork

/-- **A context never holds a null.**

* No context that is held by any number of holders has a null, whatever they do.
* With the tasks that are there from the beginning, and kinds of tasks that do what a holder could do, no
  context of a run has a null at any moment, whatever turns parallel branches take and whatever is done to it
  beside the run, and neither has the context when a run of an engine comes to an end.
* So what is under a key is no null, and a key has a value if and only if something is there that is none;
  to store a null is to do nothing; and what is there stays when values are stored under absent keys. -/
theorem context_holds_no_null {g : Engine} {p : Playbook} {plan : Plan} (hplan : g.plan p = .ok plan)
    (hkinds : ∀ id x, g.registry.resolve? id = some x → x ∈ Builtin.all ∨ x.LeadsOn g.evaluator) :
    (∀ uses, ∀ c ∈ (Handles.after uses).contexts, c.IsNullFree) ∧
    (∀ {ordered w h a v}, w.context.IsNullFree →
      Activity.Run ordered (plan.work g.evaluator) (g.prepare p plan w) h a v →
      (∀ x y, .other x y ∈ h → x.context.Leads y.context) → v.context.IsNullFree) ∧
    (∀ {c o v}, c.IsNullFree → g.run p c = some (o, v) → v.context.IsNullFree) ∧
    ∀ c : Context, c.IsNullFree → ∀ key,
      c.get? key ≠ some .null ∧
      (c.contains key = true ↔ ∃ v, c.get? key = some v ∧ v ≠ .null) ∧
      (c.put key .null = c ∧ c.displaced? key .null = none) ∧
      ∀ v, c.get? key = some v →
        (∀ k value, (c.putAbsent k value).get? key = some v) ∧ ∀ vars, (c.seed vars).get? key = some v := by
  refine ⟨Handles.after_isNullFree, fun hw hrun hothers => ?_, fun hc hrun => ?_, fun c hc key => ?_⟩
  · exact hw.leads (Engine.run_leads hplan hkinds hrun hothers)
  · obtain ⟨h, u, halone, hreached, hcontext⟩ := Engine.run_reaches hplan hrun
    rw [hcontext]
    exact hc.leads (Engine.run_leads hplan hkinds hreached fun x y hmem => (halone x y hmem).elim)
  · refine ⟨hc key, hc.contains_iff, Context.put_null, fun v hv => ⟨fun k value => ?_, fun vars => ?_⟩⟩
    · exact Context.get?_putAbsent_of_some hv k value
    · exact Context.get?_seed_of_some hv vars

/-- An engine for which no expression has a value. -/
private def valueless : Engine where
  evaluator := { evaluate := fun _ _ => .ok .null, validate := fun _ _ => .ok true }

/-- An assignment of an expression beside one of a text, and a variable without a value. -/
private def wanting : Playbook where
  id := "wanting"
  vars := [("nothing", .null)]
  tasks := [{ id := "parallel", children := [{ id := "set", data := "sum = x + 1" },
    { id := "set", data := "done = true" }] }]

/-- Neither the variable nor the expression leaves a null behind. -/
theorem context_holds_no_null_wanting : ∃ plan v, valueless.plan wanting = .ok plan ∧
    valueless.run wanting {} = some (.ok (.parallel [.completed, .completed]), v) ∧
    v.context = ⟨[("done", .bool true)]⟩ ∧ v.context.IsNullFree := by
  have hkinds (id : String) (x : Executable) (hx : valueless.registry.resolve? id = some x) :
      x ∈ Builtin.all ∨ x.LeadsOn valueless.evaluator :=
    Or.inl (Registry.mem_all_of_standard hx)
  have hends : ∃ plan v, valueless.plan wanting = .ok plan ∧
      valueless.run wanting {} = some (.ok (.parallel [.completed, .completed]), v) ∧
      v.context = ⟨[("done", .bool true)]⟩ := ⟨_, _, rfl, rfl, rfl⟩
  obtain ⟨plan, v, hplan, hrun, hcontext⟩ := hends
  exact ⟨plan, v, hplan, hrun, hcontext,
    (context_holds_no_null hplan hkinds).2.2.1 Context.isNullFree_empty hrun⟩

end Runsheet
