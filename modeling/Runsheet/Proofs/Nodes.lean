import Mathlib.Data.List.Nodup
import Runsheet.Playbook.Model

/-!
# The nodes of a playbook

A node of a playbook is a task of its tree, and is known by the positions on the way to it, from the
root down.  The nodes are listed in the order of the text: each before those within it.

* `Playbook.mem_nodes` — the nodes are the tasks that positions lead to;
* `Playbook.path_injective` — the path of a node, as it is written in faults, leads to no other node.
-/

namespace Runsheet

/-- A task of a tree, with the positions on the way to it, the outermost first. -/
structure TaskNode where
  positions : List Nat
  task : Task

/-- A node of a part, as a node of the whole. -/
def TaskNode.below (index : Nat) (n : TaskNode) : TaskNode :=
  { n with positions := index :: n.positions }

namespace Task

mutual

/-- A task and all tasks within it, each before those within it. -/
def nodes : Task → List TaskNode
  | ⟨id, name, data, vars, guard, delay, repetitions, timeout, threads, children⟩ =>
    ⟨[], ⟨id, name, data, vars, guard, delay, repetitions, timeout, threads, children⟩⟩ ::
      nodesFrom 0 children

/-- The tasks from an index on, and all tasks within them. -/
def nodesFrom (index : Nat) : List Task → List TaskNode
  | [] => []
  | t :: rest => (nodes t).map (TaskNode.below index) ++ nodesFrom (index + 1) rest

end

/-- The task that positions lead to in a list of tasks. -/
def at? (ts : List Task) : List Nat → Option Task
  | [] => none
  | i :: rest => ts[i]?.bind fun t => if rest = [] then some t else at? t.children rest

/-- How positions in a list of tasks are written: each in brackets, and between them what the tasks on
the way are called. -/
def trail (ts : List Task) : List Nat → String
  | [] => ""
  | i :: rest =>
    "[" ++ toString i ++ "]" ++
      match ts[i]? with
      | none => ""
      | some t => if rest = [] then "" else "." ++ t.id ++ trail t.children rest

/-- How positions within a task are written behind its own path. -/
def trailWithin (t : Task) (positions : List Nat) : String :=
  if positions = [] then "" else "." ++ t.id ++ trail t.children positions

end Task

namespace Playbook

/-- All tasks of a playbook, each before those within it. -/
def nodes (p : Playbook) : List TaskNode :=
  Task.nodesFrom 0 p.tasks

/-- The task that positions lead to. -/
def task? (p : Playbook) (positions : List Nat) : Option Task :=
  Task.at? p.tasks positions

/-- The path of positions, as it is written in faults. -/
def path (p : Playbook) (positions : List Nat) : String :=
  p.id ++ Task.trail p.tasks positions

end Playbook

/-! ### The order of the text -/

namespace Task

theorem nodes_eq (t : Task) : t.nodes = ⟨[], t⟩ :: nodesFrom 0 t.children := by
  cases t
  rfl

mutual

theorem nodes_ids (t : Task) : t.nodes.map (fun n => n.task.id) = t.ids := by
  match t with
  | ⟨id, name, data, vars, guard, delay, repetitions, timeout, threads, children⟩ =>
      have hrest := nodesFrom_ids children 0
      simpa [nodes, ids] using hrest

theorem nodesFrom_ids (ts : List Task) (index : Nat) :
    (nodesFrom index ts).map (fun n => n.task.id) = idsOfAll ts := by
  match ts with
  | [] => rfl
  | t :: rest =>
      have hfirst := nodes_ids t
      have hrest := nodesFrom_ids rest (index + 1)
      simp only [nodesFrom, idsOfAll, List.map_append, List.map_map, ← hfirst, hrest]
      rfl

end

/-! ### Nodes and positions -/

theorem at?_cons {ts : List Task} {i : Nat} {rest : List Nat} {u : Task} :
    at? ts (i :: rest) = some u ↔
      ∃ t, ts[i]? = some t ∧ (rest = [] ∧ t = u ∨ at? t.children rest = some u) := by
  rw [at?, Option.bind_eq_some_iff]
  refine exists_congr fun t => and_congr_right fun _ => ?_
  by_cases hrest : rest = []
  · simp [hrest, at?]
  · simp [hrest]

mutual

theorem mem_nodes (t : Task) {n : TaskNode} :
    n ∈ t.nodes ↔ n.positions = [] ∧ n.task = t ∨ at? t.children n.positions = some n.task := by
  match t with
  | ⟨id, name, data, vars, guard, delay, repetitions, timeout, threads, children⟩ =>
      obtain ⟨positions, u⟩ := n
      rw [nodes, List.mem_cons, mem_nodesFrom children, TaskNode.mk.injEq]
      refine or_congr_right ⟨?_, fun h => ?_⟩
      · rintro ⟨i, rest, rfl, hat⟩
        rwa [Nat.zero_add]
      · cases positions with
        | nil => cases h
        | cons i rest => exact ⟨i, rest, by rw [Nat.zero_add], h⟩

theorem mem_nodesFrom (ts : List Task) {index : Nat} {n : TaskNode} :
    n ∈ nodesFrom index ts ↔
      ∃ i rest, n.positions = (index + i) :: rest ∧ at? ts (i :: rest) = some n.task := by
  match ts with
  | [] => simp [nodesFrom, at?]
  | t :: more =>
      obtain ⟨positions, u⟩ := n
      rw [nodesFrom, List.mem_append, List.mem_map, mem_nodesFrom more]
      constructor
      · rintro (⟨m, hm, heq⟩ | ⟨i, rest, hpositions, hat⟩)
        · cases heq
          have hm' := (mem_nodes t).mp hm
          refine ⟨0, m.positions, rfl, at?_cons.mpr ⟨t, rfl, ?_⟩⟩
          exact hm'.imp_left fun h => ⟨h.1, h.2.symm⟩
        · refine ⟨i + 1, rest, ?_, hat⟩
          rw [hpositions, Nat.add_right_comm, Nat.add_assoc]
      · rintro ⟨i, rest, hpositions, hat⟩
        cases i with
        | zero =>
            obtain ⟨t', ht, hat⟩ := at?_cons.mp hat
            obtain rfl : t = t' := by simpa using ht
            obtain rfl : positions = index :: rest := hpositions
            exact Or.inl ⟨⟨rest, u⟩, (mem_nodes t).mpr (hat.imp_left fun h => ⟨h.1, h.2.symm⟩), rfl⟩
        | succ i =>
            refine Or.inr ⟨i, rest, ?_, hat⟩
            rw [hpositions, Nat.add_right_comm, Nat.add_assoc]

end

/-! ### Each node once -/

theorem positions_below (index : Nat) (ns : List TaskNode) :
    (ns.map (TaskNode.below index)).map TaskNode.positions =
      (ns.map TaskNode.positions).map (index :: ·) := by
  simp [TaskNode.below]

mutual

theorem nodup_positions (t : Task) : (t.nodes.map TaskNode.positions).Nodup := by
  match t with
  | ⟨id, name, data, vars, guard, delay, repetitions, timeout, threads, children⟩ =>
      rw [nodes, List.map_cons, List.nodup_cons]
      refine ⟨fun hmem => ?_, nodup_positionsFrom children 0⟩
      obtain ⟨n, hn, hpositions⟩ := List.mem_map.mp hmem
      obtain ⟨i, rest, hcons, _⟩ := (mem_nodesFrom children).mp hn
      rw [hcons] at hpositions
      cases hpositions

theorem nodup_positionsFrom (ts : List Task) (index : Nat) :
    ((nodesFrom index ts).map TaskNode.positions).Nodup := by
  match ts with
  | [] => exact List.nodup_nil
  | t :: rest =>
      rw [nodesFrom, List.map_append, positions_below, List.nodup_append]
      refine ⟨List.Nodup.map List.cons_injective (nodup_positions t),
        nodup_positionsFrom rest (index + 1), ?_⟩
      intro positions hfirst positions' hrest heq
      obtain ⟨more, _, rfl⟩ := List.mem_map.mp hfirst
      obtain ⟨n, hn, rfl⟩ := List.mem_map.mp hrest
      obtain ⟨i, more', hcons, _⟩ := (mem_nodesFrom rest).mp hn
      rw [hcons, List.cons.injEq] at heq
      omega

end

/-! ### Paths -/

/-- A number is written in digits, so that the bracket behind it ends it. -/
theorem number_unique {i j : Nat} {l r : List Char}
    (h : (toString i).toList ++ ']' :: l = (toString j).toList ++ ']' :: r) : i = j ∧ l = r := by
  have hdigits (n : Nat) (rest : List Char) :
      ((toString n).toList ++ ']' :: rest).takeWhile Char.isDigit = (toString n).toList := by
    rw [List.takeWhile_append_of_pos fun c hc => ?_]
    · simp
    · rw [Nat.toString_eq_repr, Nat.toList_repr] at hc
      exact Nat.isDigit_of_mem_toDigits (by decide) (by decide) hc
  have hsame : (toString i).toList = (toString j).toList := by
    rw [← hdigits i l, h, hdigits]
  rw [hsame, List.append_cancel_left_eq] at h
  refine ⟨?_, (List.cons.inj h).2⟩
  rw [Nat.toString_eq_repr, Nat.toString_eq_repr, Nat.toList_repr, Nat.toList_repr] at hsame
  have hvalue := congrArg (fun digits => Nat.ofDigitChars 10 digits 0) hsame
  simpa using hvalue

theorem trail_cons {ts : List Task} {i : Nat} {t : Task} (ht : ts[i]? = some t) (rest : List Nat) :
    trail ts (i :: rest) = "[" ++ toString i ++ "]" ++ t.trailWithin rest := by
  simp [trail, trailWithin, ht]

theorem trail_toList_cons {ts : List Task} {i : Nat} {t : Task} (ht : ts[i]? = some t)
    (rest : List Nat) : (trail ts (i :: rest)).toList =
      '[' :: ((toString i).toList ++ ']' :: (t.trailWithin rest).toList) := by
  simp [trail_cons ht, String.toList_append]

/-- **A path leads to one node**: tasks with the same trail are at the same positions. -/
theorem trail_injective {ts : List Task} {l r : List Nat} (hl : (at? ts l).isSome)
    (hr : (at? ts r).isSome) (h : trail ts l = trail ts r) : l = r := by
  induction l generalizing ts r with
  | nil => cases hl
  | cons i l ih =>
      cases r with
      | nil => cases hr
      | cons j r =>
          obtain ⟨u, hu⟩ := Option.isSome_iff_exists.mp hl
          obtain ⟨v, hv⟩ := Option.isSome_iff_exists.mp hr
          obtain ⟨t, ht, hu⟩ := at?_cons.mp hu
          obtain ⟨t', ht', hv⟩ := at?_cons.mp hv
          have hchars := congrArg String.toList h
          rw [trail_toList_cons ht, trail_toList_cons ht', List.cons.injEq] at hchars
          obtain ⟨rfl, hrest⟩ := number_unique hchars.2
          rw [ht, Option.some.injEq] at ht'
          subst ht'
          -- one of the two ends here exactly if the other one does
          by_cases hleft : l = [] <;> by_cases hright : r = []
          · rw [hleft, hright]
          · simp [trailWithin, hleft, hright] at hrest
          · simp [trailWithin, hleft, hright] at hrest
          · simp only [trailWithin, hleft, hright, if_false, String.toList_append,
              List.append_cancel_left_eq] at hrest
            have hu := hu.resolve_left fun h => hleft h.1
            have hv := hv.resolve_left fun h => hright h.1
            rw [ih (by rw [hu]; rfl) (by rw [hv]; rfl) (String.ext hrest)]

end Task

namespace Playbook

/-- **The nodes are the tasks that positions lead to.** -/
theorem mem_nodes (p : Playbook) {n : TaskNode} : n ∈ p.nodes ↔ p.task? n.positions = some n.task := by
  rw [nodes, task?, Task.mem_nodesFrom]
  constructor
  · rintro ⟨i, rest, hpositions, hat⟩
    rwa [hpositions, Nat.zero_add]
  · intro hat
    cases hpositions : n.positions with
    | nil => simp [hpositions, Task.at?] at hat
    | cons i rest => exact ⟨i, rest, by rw [Nat.zero_add], hpositions ▸ hat⟩

/-- The identifiers of a playbook are those of its nodes. -/
theorem nodes_ids (p : Playbook) : p.nodes.map (fun n => n.task.id) = p.taskIds :=
  Task.nodesFrom_ids p.tasks 0

/-- Each node is listed once. -/
theorem nodup_nodes (p : Playbook) : p.nodes.Nodup :=
  List.Nodup.of_map TaskNode.positions (Task.nodup_positionsFrom p.tasks 0)

/-- **A path leads to one node.** -/
theorem path_injective (p : Playbook) {n m : TaskNode} (hn : n ∈ p.nodes) (hm : m ∈ p.nodes)
    (h : p.path n.positions = p.path m.positions) : n = m := by
  rw [mem_nodes] at hn hm
  have htrail : Task.trail p.tasks n.positions = Task.trail p.tasks m.positions := by
    have hchars := congrArg String.toList h
    simp only [path, String.toList_append, List.append_cancel_left_eq] at hchars
    exact String.ext hchars
  have hpositions : n.positions = m.positions :=
    Task.trail_injective (by rw [← task?, hn]; rfl) (by rw [← task?, hm]; rfl) htrail
  rw [hpositions, hm, Option.some.injEq] at hn
  obtain ⟨positions, t⟩ := n
  obtain ⟨positions', t'⟩ := m
  exact congrArg₂ TaskNode.mk hpositions hn.symm

end Playbook

end Runsheet
