import Runsheet.Proofs.Acceptance
import Runsheet.Proofs.Nodes

/-!
# What is refused

A playbook has a plan exactly if it has tasks and each of its nodes is well-formed; otherwise the first
node that is not, in the order of the text, is named with its path and with what is wrong with it.

* `Plan.stepOf_judged`, `Plan.stepsOf_judged` — the judgement of a tree, by its nodes;
* `Plan.ofPlaybook_judged` — the judgement of a playbook.
-/

namespace Runsheet

theorem Registry.contains_eq_isSome (r : Registry) (id : String) :
    r.contains id = (r.resolve? id).isSome :=
  rfl

namespace Task

/-- The task holds tasks if it is a container, and otherwise has none within and is known. -/
def WellFormed (r : Registry) (t : Task) : Prop :=
  t.isContainer = true ∧ t.children ≠ [] ∨
    t.isContainer = false ∧ t.children = [] ∧ r.contains t.id = true

/-- The task is a container that holds tasks, or something else that holds none. -/
def Shaped (t : Task) : Prop :=
  t.isContainer = true ∧ t.children ≠ [] ∨ t.isContainer = false ∧ t.children = []

/-- For a task whose place in the tree is right, the identifier decides. -/
theorem Shaped.wellFormed_iff {r : Registry} {t : Task} (h : t.Shaped) :
    t.WellFormed r ↔ t.id = blockId ∨ t.id = parallelId ∨ r.contains t.id = true := by
  have hcontainer : t.isContainer = true ↔ t.id = blockId ∨ t.id = parallelId := by
    simp [isContainer]
  rw [← or_assoc, ← hcontainer]
  rcases h with ⟨hyes, hchildren⟩ | ⟨hno, hchildren⟩
  · simp [WellFormed, hyes, hchildren]
  · simp [WellFormed, hno, hchildren]

instance (r : Registry) (t : Task) : Decidable (t.WellFormed r) :=
  decidable_of_iff (t.isContainer = true ∧ t.children.isEmpty = false ∨
    t.isContainer = false ∧ t.children.isEmpty = true ∧ r.contains t.id = true) (by
      unfold WellFormed
      cases t.children <;> simp)

/-- What is wrong with a task that is not well-formed: an empty container, tasks within something else,
or an identifier that is not known. -/
def offence (t : Task) (path : String) : Fault :=
  if t.isContainer then .emptyTaskList t.id path
  else if t.children ≠ [] then .unexpectedChildren t.id path
  else .unresolvedTask t.id path

end Task

namespace Plan

/-- The first node that is not well-formed decides: there is none and the result is good, or the result
is the fault of that node, at its path. -/
inductive Judged {α : Type} (r : Registry) (path : TaskNode → String) (nodes : List TaskNode) :
    Except Fault α → Prop
  | good {x : α} (hall : ∀ n ∈ nodes, n.task.WellFormed r) : Judged r path nodes (.ok x)
  | bad {before after : List TaskNode} {n : TaskNode} (hnodes : nodes = before ++ n :: after)
      (hbefore : ∀ m ∈ before, m.task.WellFormed r) (hn : ¬ n.task.WellFormed r) :
      Judged r path nodes (.error (n.task.offence (path n)))

variable {r : Registry} {α β : Type} {path path' : TaskNode → String} {l l' : List TaskNode}

/-- What is read off a good result is good, and a fault stays what it is. -/
theorem Judged.map {f : α → β} {x : Except Fault α} (h : Judged r path l x) :
    Judged r path l (do let a ← x; pure (f a)) := by
  cases h with
  | good hall => exact .good hall
  | bad hnodes hbefore hn => exact .bad hnodes hbefore hn

/-- The nodes of a part have the positions of the part in front of their own. -/
theorem Judged.below {index : Nat} {x : Except Fault α}
    (h : Judged r (fun n => path (n.below index)) l x) :
    Judged r path (l.map (TaskNode.below index)) x := by
  cases h with
  | good hall =>
      refine .good fun n hn => ?_
      obtain ⟨m, hm, rfl⟩ := List.mem_map.mp hn
      exact hall m hm
  | @bad before after n hnodes hbefore hn =>
      refine @Judged.bad _ _ _ _ (before.map (TaskNode.below index)) (after.map (TaskNode.below index))
        (n.below index) (by simp [hnodes]) (fun m hm => ?_) hn
      obtain ⟨m', hm', rfl⟩ := List.mem_map.mp hm
      exact hbefore m' hm'

/-- One after the other: the nodes of the first part come first. -/
theorem Judged.append {x : Except Fault α} {y : Except Fault β} {f : α → β → β}
    (hx : Judged r path l x) (hy : Judged r path l' y) :
    Judged r path (l ++ l') (do let a ← x; let b ← y; pure (f a b)) := by
  cases hx with
  | good hl =>
      cases hy with
      | good hl' =>
          refine .good fun n hn => ?_
          exact (List.mem_append.mp hn).elim (hl n) (hl' n)
      | @bad before after n hnodes hbefore hn =>
          refine @Judged.bad _ _ _ _ (l ++ before) after n (by simp [hnodes]) (fun m hm => ?_) hn
          exact (List.mem_append.mp hm).elim (hl m) (hbefore m)
  | @bad before after n hnodes hbefore hn =>
      exact @Judged.bad _ _ _ _ before (after ++ l') n (by simp [hnodes]) hbefore hn

/-- A node that is well-formed does not decide. -/
theorem Judged.cons {n : TaskNode} {x : Except Fault α} (hn : n.task.WellFormed r)
    (h : Judged r path l x) : Judged r path (n :: l) x := by
  cases h with
  | good hall => exact .good (List.forall_mem_cons.mpr ⟨hn, hall⟩)
  | @bad before after m hnodes hbefore hm =>
      exact @Judged.bad _ _ _ _ (n :: before) after m (by simp [hnodes])
        (List.forall_mem_cons.mpr ⟨hn, hbefore⟩) hm

/-- The first node decides if it is not well-formed, whatever is within it. -/
theorem Judged.first {n : TaskNode} (hn : ¬ n.task.WellFormed r) :
    Judged r path (n :: l) (.error (n.task.offence (path n)) : Except Fault α) :=
  @Judged.bad _ _ _ _ [] l n rfl (by simp) hn

theorem Judged.congr {x : Except Fault α} (h : Judged r path l x)
    (hpath : ∀ n ∈ l, path n = path' n) : Judged r path' l x := by
  cases h with
  | good hall => exact .good hall
  | bad hnodes hbefore hn =>
      rw [hpath _ (by simp [hnodes])]
      exact .bad hnodes hbefore hn

theorem Judged.ok_iff {x : Except Fault α} (h : Judged r path l x) :
    (∃ a, x = .ok a) ↔ ∀ n ∈ l, n.task.WellFormed r := by
  cases h with
  | good hall => exact iff_of_true ⟨_, rfl⟩ hall
  | bad hnodes _ hn => exact iff_of_false (by simp) fun hall => hn (hall _ (by simp [hnodes]))

/-- There is at most one first node that is not well-formed. -/
theorem Judged.error_of_first {x : Except Fault α} (h : Judged r path l x) {before after : List TaskNode}
    {n : TaskNode} (hnodes : l = before ++ n :: after) (hbefore : ∀ m ∈ before, m.task.WellFormed r)
    (hn : ¬ n.task.WellFormed r) : x = .error (n.task.offence (path n)) := by
  cases h with
  | good hall => exact absurd (hall n (by simp [hnodes])) hn
  | @bad before' after' n' hnodes' hbefore' hn' =>
      obtain rfl : n' = n := by
        have hfirst (before after : List TaskNode) {n : TaskNode}
            (hbefore : ∀ m ∈ before, m.task.WellFormed r) (hn : ¬ n.task.WellFormed r) :
            (before ++ n :: after).find? (fun m => ¬ m.task.WellFormed r) = some n := by
          rw [List.find?_append, List.find?_eq_none.mpr (by simpa using hbefore)]
          simp [hn]
        have hsame := hfirst before' after' hbefore' hn'
        rw [← hnodes', hnodes, hfirst before after hbefore hn] at hsame
        exact (Option.some.inj hsame).symm
      rfl

/-! ### The judgement of a tree -/

mutual

/-- **The judgement of a task**, by its nodes. -/
theorem stepOf_judged (t : Task) (path : String) :
    Judged r (fun n => path ++ t.trailWithin n.positions) t.nodes (stepOf r path t) := by
  match t with
  | ⟨id, name, data, vars, guard, delay, repetitions, timeout, threads, children⟩ =>
      have hown (children : List Task) : path ++ Task.trailWithin
          ⟨id, name, data, vars, guard, delay, repetitions, timeout, threads, children⟩ [] = path := by
        simp [Task.trailWithin]
      have hfirst := @Judged.first r Step (fun n => path ++ Task.trailWithin
        ⟨id, name, data, vars, guard, delay, repetitions, timeout, threads, children⟩ n.positions)
        (Task.nodesFrom 0 children)
        ⟨[], ⟨id, name, data, vars, guard, delay, repetitions, timeout, threads, children⟩⟩
      rw [hown] at hfirst
      rw [Task.nodes_eq, stepOf.eq_def]
      by_cases hcontainer : Task.isContainer
        ⟨id, name, data, vars, guard, delay, repetitions, timeout, threads, children⟩ = true
      · simp only [Task.offence, hcontainer, if_true] at hfirst ⊢
        cases children with
        | nil => exact hfirst (by simp [Task.WellFormed, hcontainer])
        | cons first rest =>
            refine .cons (Or.inl ⟨hcontainer, List.cons_ne_nil first rest⟩) (.map ?_)
            refine (stepsOf_judged (first :: rest) (path ++ "." ++ id) rfl).congr fun n hn => ?_
            obtain ⟨i, more, hpositions, _⟩ := (Task.mem_nodesFrom _).mp hn
            simp [Task.trailWithin, hpositions, String.append_assoc]
      · simp only [Task.offence, hcontainer, Bool.false_eq_true, if_false] at hfirst ⊢
        cases children with
        | cons first rest => exact hfirst (by simp [Task.WellFormed, hcontainer])
        | nil =>
            cases hresolve : r.resolve? id with
            | none =>
                exact hfirst (by simp [Task.WellFormed, hcontainer, r.contains_eq_isSome, hresolve])
            | some x =>
                have hknown : r.contains id = true := by rw [r.contains_eq_isSome, hresolve]; rfl
                exact .cons (Or.inr ⟨Bool.eq_false_iff.mpr hcontainer, rfl, hknown⟩)
                  (.good (by simp [Task.nodesFrom]))

theorem stepsOf_judged (ts : List Task) (path : String) {index : Nat} {all : List Task}
    (hall : all.drop index = ts) :
    Judged r (fun n => path ++ Task.trail all n.positions) (Task.nodesFrom index ts)
      (stepsOf r path index ts) := by
  match ts with
  | [] => exact .good (by simp [Task.nodesFrom])
  | t :: rest =>
      have ht : all[index]? = some t := by
        have hfirst := congrArg (fun ts => ts[0]?) hall
        simpa using hfirst
      have hrest : all.drop (index + 1) = rest := by
        rw [← List.drop_drop, hall]
        rfl
      rw [Task.nodesFrom, stepsOf]
      refine .append (.below ?_) (stepsOf_judged rest path hrest)
      refine (stepOf_judged t (itemPath path index)).congr fun n _ => ?_
      simp only [TaskNode.below, Task.trail_cons ht, itemPath, String.append_assoc]

end

/-- **The judgement of a playbook** that has tasks, by its nodes. -/
theorem ofPlaybook_judged (p : Playbook) (hne : p.tasks ≠ []) :
    Judged r (fun n => p.path n.positions) p.nodes (ofPlaybook r p) := by
  have hempty : p.isEmpty = false := by simpa [Playbook.isEmpty] using hne
  rw [ofPlaybook, hempty]
  exact .map (stepsOf_judged p.tasks p.id rfl)

/-! ### What containers are registered as -/

mutual

theorem stepOf_congr {r' : Registry} (t : Task) (path : String)
    (h : ∀ id ∈ t.ids, id ≠ blockId → id ≠ parallelId → r'.resolve? id = r.resolve? id) :
    stepOf r' path t = stepOf r path t := by
  match t with
  | ⟨id, name, data, vars, guard, delay, repetitions, timeout, threads, children⟩ =>
      have hchildren (k : String) (hk : k ∈ Task.idsOfAll children) :=
        h k (List.mem_cons_of_mem id hk)
      have hwithin := stepsOf_congr children (path ++ "." ++ id) 0 hchildren
      rw [stepOf.eq_def, stepOf.eq_def]
      by_cases hcontainer : Task.isContainer
        ⟨id, name, data, vars, guard, delay, repetitions, timeout, threads, children⟩ = true
      · simp only [hcontainer, if_true, hwithin]
      · have hid : id ≠ blockId ∧ id ≠ parallelId := by simpa [Task.isContainer] using hcontainer
        have hown := h id (List.mem_cons_self ..) hid.1 hid.2
        simp only [hcontainer, Bool.false_eq_true, if_false, hown]

theorem stepsOf_congr {r' : Registry} (ts : List Task) (path : String) (index : Nat)
    (h : ∀ id ∈ Task.idsOfAll ts, id ≠ blockId → id ≠ parallelId →
      r'.resolve? id = r.resolve? id) : stepsOf r' path index ts = stepsOf r path index ts := by
  match ts with
  | [] => rfl
  | t :: rest =>
      rw [stepsOf, stepsOf, stepOf_congr t _ fun id hid => h id (List.mem_append_left _ hid),
        stepsOf_congr rest _ _ fun id hid => h id (List.mem_append_right _ hid)]

end

/-- **Only the identifiers of a playbook are looked up**, and not those of its containers. -/
theorem ofPlaybook_of_ids {r' : Registry} {p : Playbook}
    (h : ∀ id ∈ p.taskIds, id ≠ blockId → id ≠ parallelId → r'.resolve? id = r.resolve? id) :
    ofPlaybook r' p = ofPlaybook r p := by
  rw [ofPlaybook, ofPlaybook, stepsOf_congr p.tasks _ _ h]

/-- **Containers are not looked up**: whether their identifiers are registered makes no difference. -/
theorem ofPlaybook_congr {r' : Registry}
    (h : ∀ id, id ≠ blockId → id ≠ parallelId → r'.resolve? id = r.resolve? id) (p : Playbook) :
    ofPlaybook r' p = ofPlaybook r p :=
  ofPlaybook_of_ids fun id _ => h id

end Plan

/-- **A playbook is accepted exactly if it is well-formed, and its first bad node is blamed.**  It has
a plan if it has tasks and each node is a container that holds tasks or something known that holds
none.  What containers are registered as makes no difference, so that for a tree whose containers hold
tasks, and nothing else does, the identifiers decide.  Without tasks the playbook itself is blamed, and
otherwise the first node in the order of the text that is not well-formed, for what is wrong with it and
at its path.  The nodes are the tasks that positions lead to, and no two of them have the same path. -/
theorem plan_accepts_well_formed (r : Registry) (p : Playbook) :
    ((∃ plan, Plan.ofPlaybook r p = .ok plan) ↔
      p.tasks ≠ [] ∧ ∀ n ∈ p.nodes, n.task.WellFormed r) ∧
    ((∀ n ∈ p.nodes, n.task.Shaped) →
      ((∃ plan, Plan.ofPlaybook r p = .ok plan) ↔
        p.tasks ≠ [] ∧ ∀ id ∈ p.taskIds, id = blockId ∨ id = parallelId ∨ r.contains id = true)) ∧
    (∀ r' : Registry, (∀ id, id ≠ blockId → id ≠ parallelId → r'.resolve? id = r.resolve? id) →
      Plan.ofPlaybook r' p = Plan.ofPlaybook r p) ∧
    (p.tasks = [] → Plan.ofPlaybook r p = .error (.emptyPlaybook p.id)) ∧
    (∀ before n after, p.nodes = before ++ n :: after → (∀ m ∈ before, m.task.WellFormed r) →
      ¬ n.task.WellFormed r →
      Plan.ofPlaybook r p = .error (n.task.offence (p.path n.positions))) ∧
    (∀ n, n ∈ p.nodes ↔ p.task? n.positions = some n.task) ∧
    (p.nodes.map fun n => p.path n.positions).Nodup := by
  have haccepted : (∃ plan, Plan.ofPlaybook r p = .ok plan) ↔
      p.tasks ≠ [] ∧ ∀ n ∈ p.nodes, n.task.WellFormed r := by
    by_cases hne : p.tasks = []
    · simp [Plan.ofPlaybook, Playbook.isEmpty, hne]
    · rw [(Plan.ofPlaybook_judged p hne).ok_iff]
      exact (and_iff_right hne).symm
  refine ⟨haccepted, fun hshaped => ?_, fun r' hr' => Plan.ofPlaybook_congr hr' p, fun hempty => ?_,
    fun before n after hnodes hbefore hn => ?_, fun n => p.mem_nodes, ?_⟩
  · rw [haccepted, ← p.nodes_ids, List.forall_mem_map]
    refine and_congr_right fun _ => forall₂_congr fun n hn => ?_
    exact (hshaped n hn).wellFormed_iff
  · simp [Plan.ofPlaybook, Playbook.isEmpty, hempty]
  · have hne : p.tasks ≠ [] := by
      rintro hempty
      simp [Playbook.nodes, hempty, Task.nodesFrom] at hnodes
    exact (Plan.ofPlaybook_judged p hne).error_of_first hnodes hbefore hn
  · exact p.nodup_nodes.map_on fun n hn m hm h => p.path_injective hn hm h

/-- The block is fine but for what is within it; the task that is not known comes later. -/
example : Plan.ofPlaybook {} { id := "demo", tasks :=
    [{ id := "block", children := [{ id := "parallel" }] }, { id := "call" }] } =
      .error (.emptyTaskList "parallel" "demo[0].block[0]") :=
  rfl

end Runsheet
