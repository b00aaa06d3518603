import Mathlib.Data.List.Dedup
import Mathlib.Data.List.Perm.Basic
import Runsheet.Engine.Engine
import Runsheet.Proofs.Acceptance

/-!
# Histories of registrations

An engine is told of kinds of tasks and of playbooks, in any order and as often as one likes.  Under an
identifier the first kind of task counts, and the last playbook.  Nothing that an engine is told takes
a plan away from a playbook, or changes it.

* `Registry.resolve?_registerEach`, `Engine.playbooks_addAll` — a list of registrations, and a list of
  playbooks;
* `Engine.resolve?_after`, `Engine.playbook?_after` — what counts after a list of calls;
* `Plan.stepOf_grown` — a registry that knows more gives the same step, by induction over the tree;
* `Engine.first_kind_and_last_playbook_count` — the result.
-/

namespace Runsheet

namespace Table

/-- A sorted table has as many entries as there are different keys. -/
theorem length_eq_of_keys {α : Type} {t : Table α} (ht : (keys t).Pairwise (· < ·)) {names : List String}
    (hnames : ∀ k, k ∈ keys t ↔ k ∈ names) : t.length = names.dedup.length := by
  have hperm : (keys t).Perm names.dedup :=
    (List.perm_ext_iff_of_nodup (nodup_of_sorted ht) names.nodup_dedup).mpr fun k => by
      rw [hnames, List.mem_dedup]
  rw [← hperm.length_eq, keys, List.length_map]

end Table

/-! ### A list of registrations -/

namespace Registry

variable {r : Registry}

/-- Registers kinds of tasks, each under an identifier. -/
def registerEach (r : Registry) (entries : List (String × Executable)) : Registry :=
  entries.foldl (fun r entry => r.register entry.1 entry.2) r

/-- What was known counts, and then what comes first. -/
theorem resolve?_registerEach (id : String) (entries : List (String × Executable)) :
    (r.registerEach entries).resolve? id = (r.resolve? id).or (Table.get? id entries) := by
  induction entries generalizing r with
  | nil => exact (Option.or_none ..).symm
  | cons entry rest ih =>
      obtain ⟨k, x⟩ := entry
      have hcons : r.registerEach ((k, x) :: rest) = (r.register k x).registerEach rest := rfl
      rw [hcons, ih, resolve?_register, Table.get?]
      by_cases hk : k = id
      · subst hk
        cases r.resolve? k <;> simp
      · rw [if_neg hk, if_neg hk]

theorem contains_eq_false_iff {id : String} : r.contains id = false ↔ r.resolve? id = none := by
  simp [contains, Table.contains, resolve?]

theorem sorted_register (h : r.ids.Pairwise (· < ·)) (id : String) (x : Executable) :
    (r.register id x).ids.Pairwise (· < ·) := by
  unfold register
  split
  · exact h
  · exact Table.sorted_insert h id x

theorem sorted_registerEach (h : r.ids.Pairwise (· < ·)) (entries : List (String × Executable)) :
    (r.registerEach entries).ids.Pairwise (· < ·) := by
  induction entries generalizing r with
  | nil => exact h
  | cons entry rest ih => exact ih (sorted_register h entry.1 entry.2)

end Registry

/-! ### A list of playbooks -/

namespace Engine

variable {g : Engine}

/-- Playbooks, each under its identifier. -/
def named (ps : List Playbook) : List (String × Playbook) :=
  ps.map fun p => (p.id, p)

/-- Playbooks are put over those that were there. -/
theorem playbooks_addAll (ps : List Playbook) :
    (g.addAll ps).playbooks = Table.override g.playbooks (named ps) := by
  induction ps generalizing g with
  | nil => rfl
  | cons p rest ih => exact ih (g := g.add p)

theorem registry_addAll (ps : List Playbook) : (g.addAll ps).registry = g.registry := by
  induction ps generalizing g with
  | nil => rfl
  | cons p rest ih => exact ih (g := g.add p)

/-! ### A list of calls -/

/-- What an engine is told. -/
inductive Call
  | register (id : String) (x : Executable)
  | registerBuiltins
  | add (p : Playbook)
  | addAll (ps : List Playbook)

/-- What an engine answers: whether a kind of task is now the one under its identifier, which playbook
has lost its place, or nothing. -/
inductive Answer
  | registered (accepted : Bool)
  | displaced (p : Option Playbook)
  | silence

/-- The answer to a call, and the engine after it. -/
def call (g : Engine) : Call → Answer × Engine
  | .register id x =>
    (.registered (!g.registry.contains id), { g with registry := g.registry.register id x })
  | .registerBuiltins => (.silence, { g with registry := g.registry.registerBuiltins })
  | .add p => (.displaced (g.playbook? p.id), g.add p)
  | .addAll ps => (.silence, g.addAll ps)

/-- The engine after a list of calls. -/
def after (g : Engine) (calls : List Call) : Engine :=
  calls.foldl (fun g c => (g.call c).2) g

/-- An engine that has not been told anything. -/
def blank (e : Evaluator) : Engine :=
  { registry := {}, playbooks := [], evaluator := e }

/-- The kinds of tasks that a call brings. -/
def Call.kinds : Call → List (String × Executable)
  | .register id x => [(id, x)]
  | .registerBuiltins => Builtin.all.map fun x => (x.name, x)
  | _ => []

/-- The playbooks that a call brings. -/
def Call.playbooks : Call → List (String × Playbook)
  | .add p => named [p]
  | .addAll ps => named ps
  | _ => []

/-- The kinds of tasks that calls bring, one after the other. -/
def kindsOf (calls : List Call) : List (String × Executable) :=
  calls.flatMap Call.kinds

/-- The playbooks that calls bring, one after the other. -/
def playbooksOf (calls : List Call) : List (String × Playbook) :=
  calls.flatMap Call.playbooks

theorem after_append (calls more : List Call) :
    g.after (calls ++ more) = (g.after calls).after more :=
  List.foldl_append ..

theorem registry_call (c : Call) : (g.call c).2.registry = g.registry.registerEach c.kinds := by
  cases c with
  | register id x => rfl
  | registerBuiltins => rfl
  | add p => rfl
  | addAll ps => exact registry_addAll ps

theorem playbooks_call (c : Call) :
    (g.call c).2.playbooks = Table.override g.playbooks c.playbooks := by
  cases c with
  | register id x => rfl
  | registerBuiltins => rfl
  | add p => rfl
  | addAll ps => exact playbooks_addAll ps

theorem registry_after (calls : List Call) :
    (g.after calls).registry = g.registry.registerEach (kindsOf calls) := by
  induction calls generalizing g with
  | nil => rfl
  | cons c rest ih =>
      have hcons : g.after (c :: rest) = (g.call c).2.after rest := rfl
      rw [hcons, ih, registry_call]
      exact List.foldl_append.symm

theorem playbooks_after (calls : List Call) :
    (g.after calls).playbooks = Table.override g.playbooks (playbooksOf calls) := by
  induction calls generalizing g with
  | nil => rfl
  | cons c rest ih =>
      have hcons : g.after (c :: rest) = (g.call c).2.after rest := rfl
      rw [hcons, ih, playbooks_call]
      exact List.foldl_append.symm

section

variable (e : Evaluator) (calls : List Call)

theorem resolve?_after (id : String) :
    ((blank e).after calls).registry.resolve? id = Table.get? id (kindsOf calls) := by
  rw [registry_after, Registry.resolve?_registerEach]
  rfl

theorem playbook?_after (id : String) :
    ((blank e).after calls).playbook? id = Table.get? id (playbooksOf calls).reverse := by
  unfold playbook?
  rw [playbooks_after, Table.get?_override]
  exact Option.or_none ..

theorem sorted_kinds : ((blank e).after calls).registry.ids.Pairwise (· < ·) := by
  rw [registry_after]
  exact Registry.sorted_registerEach (r := {}) List.Pairwise.nil _

theorem sorted_playbooks : ((blank e).after calls).ids.Pairwise (· < ·) := by
  unfold ids
  rw [playbooks_after]
  exact Table.sorted_override List.Pairwise.nil _

theorem mem_kinds (id : String) :
    id ∈ ((blank e).after calls).registry.ids ↔ id ∈ Table.keys (kindsOf calls) :=
  Table.mem_keys_congr (resolve?_after e calls id)

theorem mem_playbooks (id : String) :
    id ∈ ((blank e).after calls).ids ↔ id ∈ Table.keys (playbooksOf calls) := by
  refine (Table.mem_keys_congr (playbook?_after e calls id)).trans ?_
  rw [Table.keys, List.map_reverse, List.mem_reverse]
  rfl

end

end Engine

/-! ### Registries that know more -/

/-- What the one registry knows, the other knows as well. -/
def Registry.Grown (r r' : Registry) : Prop :=
  ∀ id x, r.resolve? id = some x → r'.resolve? id = some x

namespace Plan

variable {r r' : Registry}

mutual

theorem stepOf_grown (hr : r.Grown r') (t : Task) {path : String} {step : Step}
    (h : stepOf r path t = .ok step) : stepOf r' path t = .ok step := by
  match t with
  | ⟨id, name, data, vars, guard, delay, repetitions, timeout, threads, children⟩ =>
      rcases stepOf_eq_ok.mp h with
        ⟨hcontainer, hne, steps, hsteps, heq⟩ | ⟨hleaf, hnil, x, hx, heq⟩
      · have hall := stepsOf_grown hr children hsteps
        exact stepOf_eq_ok.mpr (Or.inl ⟨hcontainer, hne, steps, hall, heq⟩)
      · exact stepOf_eq_ok.mpr (Or.inr ⟨hleaf, hnil, x, hr _ x hx, heq⟩)

theorem stepsOf_grown (hr : r.Grown r') (ts : List Task) {path : String} {index : Nat}
    {steps : List Step} (h : stepsOf r path index ts = .ok steps) :
    stepsOf r' path index ts = .ok steps := by
  match ts with
  | [] => exact h
  | t :: rest =>
      obtain ⟨step, more, hstep, hmore, heq⟩ := stepsOf_cons_eq_ok.mp h
      have hfirst := stepOf_grown hr t hstep
      have hrest := stepsOf_grown hr rest hmore
      exact stepsOf_cons_eq_ok.mpr ⟨step, more, hfirst, hrest, heq⟩

end

/-- A playbook with a plan has the same plan over a registry that knows more. -/
theorem ofPlaybook_grown (hr : r.Grown r') {p : Playbook} {plan : Plan}
    (h : ofPlaybook r p = .ok plan) : ofPlaybook r' p = .ok plan := by
  obtain ⟨hne, steps, hsteps, heq⟩ := ofPlaybook_eq_ok.mp h
  exact ofPlaybook_eq_ok.mpr ⟨hne, steps, stepsOf_grown hr p.tasks hsteps, heq⟩

end Plan

namespace Engine

/-- No call takes an identifier from its kind of task. -/
theorem grown_after (g : Engine) (calls : List Call) :
    g.registry.Grown (g.after calls).registry := by
  intro id x hx
  rw [registry_after, Registry.resolve?_registerEach, hx, Option.some_or]

/-- **First registration, last playbook.**  After any list of calls, an identifier stands for the kind
of task that was registered first under it, and for the playbook that was added last.  A registration
is answered by whether it is the first under its identifier, and an addition by the playbook that it
displaces.  The identifiers are in order, they are those that were ever told, and there are as many as
that.  A playbook that has a plan has the same plan after any further calls. -/
theorem first_kind_and_last_playbook_count (e : Evaluator) (calls : List Call) :
    let g := (blank e).after calls
    (∀ id x, g.registry.resolve? id = some x ↔ Table.FirstUnder id x (kindsOf calls)) ∧
    (∀ id p, g.playbook? id = some p ↔ Table.LastUnder id p (playbooksOf calls)) ∧
    (∀ id x, (g.call (.register id x)).1 =
      .registered (decide (id ∉ Table.keys (kindsOf calls)))) ∧
    (∀ p, ∃ previous, (g.call (.add p)).1 = .displaced previous ∧
      ∀ q, previous = some q ↔ Table.LastUnder p.id q (playbooksOf calls)) ∧
    (g.registry.ids.Pairwise (· < ·) ∧
      (∀ id, id ∈ g.registry.ids ↔ id ∈ Table.keys (kindsOf calls)) ∧
      g.registry.size = (Table.keys (kindsOf calls)).dedup.length) ∧
    (g.ids.Pairwise (· < ·) ∧
      (∀ id, id ∈ g.ids ↔ id ∈ Table.keys (playbooksOf calls)) ∧
      g.ids.length = (Table.keys (playbooksOf calls)).dedup.length) ∧
    ∀ more p plan, g.plan p = .ok plan → ((blank e).after (calls ++ more)).plan p = .ok plan := by
  intro g
  have hfirst (id : String) (x : Executable) :
      g.registry.resolve? id = some x ↔ Table.FirstUnder id x (kindsOf calls) := by
    rw [resolve?_after, Table.get?_eq_some_iff_first]
  have hlast (id : String) (p : Playbook) :
      g.playbook? id = some p ↔ Table.LastUnder id p (playbooksOf calls) := by
    rw [playbook?_after, Table.get?_reverse_eq_some_iff_last]
  refine ⟨hfirst, hlast, fun id x => ?_, fun p => ⟨g.playbook? p.id, rfl, hlast p.id⟩, ?_, ?_, ?_⟩
  · have hfree : g.registry.contains id = false ↔ id ∉ Table.keys (kindsOf calls) := by
      rw [Registry.contains_eq_false_iff, resolve?_after]
      exact Table.get?_eq_none_iff
    have hanswer : (!g.registry.contains id) = decide (id ∉ Table.keys (kindsOf calls)) := by
      rw [Bool.eq_iff_iff, Bool.not_eq_true', decide_eq_true_iff]
      exact hfree
    exact congrArg Answer.registered hanswer
  · have hmem := mem_kinds e calls
    exact ⟨sorted_kinds e calls, hmem, Table.length_eq_of_keys (sorted_kinds e calls) hmem⟩
  · have hmem := mem_playbooks e calls
    refine ⟨sorted_playbooks e calls, hmem, ?_⟩
    rw [ids, Table.keys, List.length_map]
    exact Table.length_eq_of_keys (sorted_playbooks e calls) hmem
  · intro more p plan hplan
    rw [after_append]
    exact Plan.ofPlaybook_grown (grown_after g more) hplan

end Engine

end Runsheet
