import Runsheet.Proofs.Grammar

/-!
# Writing playbooks

A playbook is written as a map, and so is each of its tasks: first its identifier with its data, then its
settings and its children, and what is as in a fresh task may be left out.  The settings may stand in any
order, and the children of a task without data may stand under its identifier.  What is written so is read
as what it was.

* `Task.write`, `Playbook.write` — the usual form;
* `Loader.Writes`, `Loader.WritesPlaybook`, `Loader.WritesDocument` — all forms;
* `Loader.reads_of_writes` — a task is read back;
* `Loader.writes_write` — the usual form is one of the forms;
* `Loader.written_is_read` — the result.
-/

namespace Runsheet

namespace Table

variable {α : Type}

/-- An entry that comes after all others is put at the end. -/
theorem insert_of_forall_lt {key : String} {value : α} {t : Table α} (h : ∀ k ∈ keys t, k < key) :
    insert key value t = t ++ [(key, value)] := by
  induction t with
  | nil => rfl
  | cons entry rest ih =>
      obtain ⟨k, v⟩ := entry
      have hk : k < key := h k (List.mem_cons_self ..)
      have hne : k ≠ key := by
        intro heq
        rw [heq] at hk
        exact String.lt_irrefl key hk
      rw [insert, if_neg hne, if_neg (String.lt_asymm hk), ih fun k hk => h k (List.mem_cons_of_mem _ hk)]
      rfl

theorem override_of_sorted {base top : Table α} (h : (keys (base ++ top)).Pairwise (· < ·)) :
    override base top = base ++ top := by
  induction top generalizing base with
  | nil => exact (List.append_nil base).symm
  | cons entry rest ih =>
      have hbefore : ∀ k ∈ keys base, k < entry.1 := by
        intro k hk
        simp only [keys, List.map_append, List.map_cons, List.pairwise_append] at h
        exact h.2.2 k hk entry.1 (List.mem_cons_self ..)
      have hsplit : base ++ entry :: rest = base ++ [entry] ++ rest := by simp
      have hcons : override base (entry :: rest) = override (insert entry.1 entry.2 base) rest := rfl
      rw [hcons, insert_of_forall_lt hbefore, hsplit]
      rw [hsplit] at h
      exact ih h

/-- The table of entries in order is these entries. -/
theorem ofList_of_sorted {entries : Table α} (h : (keys entries).Pairwise (· < ·)) :
    ofList entries = entries := by
  have hnone : (keys ([] ++ entries)).Pairwise (· < ·) := h
  exact override_of_sorted hnone

end Table

/-- **A data value as such**: the fields of its objects are in order, and its numbers are finite. -/
inductive Json.IsProper : Json → Prop
  | null : IsProper .null
  | bool (b : Bool) : IsProper (.bool b)
  | int (n : Int) : IsProper (.number (.int n))
  | float {x : Binary64} (hx : x.isFinite = true) : IsProper (.number (.float x))
  | string (s : String) : IsProper (.string s)
  | array {items : List Json} (hitems : ∀ item ∈ items, IsProper item) : IsProper (.array items)
  | object {fields : List (String × Json)} (hsorted : (Table.keys fields).Pairwise (· < ·))
      (hfields : ∀ f ∈ fields, IsProper f.2) : IsProper (.object fields)

namespace Yaml.Value

mutual

/-- A data value, written down. -/
def ofJson : Json → Value
  | .null => .null
  | .bool b => .bool b
  | .number n => .number n
  | .string s => .string s
  | .array items => .list (ofItems items)
  | .object fields => .map (entriesOf (ofFields fields))

/-- Data values, written down. -/
def ofItems : List Json → List Value
  | [] => []
  | item :: rest => ofJson item :: ofItems rest

/-- The fields of an object, written down. -/
def ofFields : List (String × Json) → List (String × Value)
  | [] => []
  | (key, value) :: rest => (key, ofJson value) :: ofFields rest

end

theorem keys_ofFields (fields : List (String × Json)) :
    Table.keys (ofFields fields) = Table.keys fields := by
  induction fields with
  | nil => rfl
  | cons f rest ih => exact congrArg (f.1 :: ·) ih

theorem toJsonItems_ofItems {items : List Json} (h : ∀ item ∈ items, (ofJson item).toJson = .ok item) :
    toJsonItems (ofItems items) = .ok items := by
  induction items with
  | nil => rfl
  | cons item rest ih =>
      rw [List.forall_mem_cons] at h
      rw [ofItems, toJsonItems, h.1, ih h.2]
      rfl

theorem toJsonFields_ofFields {fields : List (String × Json)}
    (h : ∀ f ∈ fields, (ofJson f.2).toJson = .ok f.2) :
    toJsonFields (entriesOf (ofFields fields)) = .ok fields := by
  induction fields with
  | nil => rfl
  | cons f rest ih =>
      obtain ⟨key, value⟩ := f
      rw [List.forall_mem_cons] at h
      have hcons : toJsonFields (entriesOf (ofFields ((key, value) :: rest))) =
          (do
            let first ← (ofJson value).toJson
            let others ← toJsonFields (entriesOf (ofFields rest))
            pure ((key, first) :: others)) := rfl
      rw [hcons, h.1, ih h.2]
      rfl

theorem plain_ofItems {items : List Json} (h : ∀ item ∈ items, (ofJson item).Plain) :
    ∀ v ∈ ofItems items, v.Plain := by
  induction items with
  | nil => nofun
  | cons item rest ih =>
      rw [List.forall_mem_cons] at h
      exact List.forall_mem_cons.mpr ⟨h.1, ih h.2⟩

theorem plain_ofFields {fields : List (String × Json)} (h : ∀ f ∈ fields, (ofJson f.2).Plain) :
    ∀ f ∈ ofFields fields, f.2.Plain := by
  induction fields with
  | nil => nofun
  | cons f rest ih =>
      rw [List.forall_mem_cons] at h
      exact List.forall_mem_cons.mpr ⟨h.1, ih h.2⟩

/-- **Data is read as what was written.** -/
theorem toJson_ofJson {j : Json} (hj : j.IsProper) : (ofJson j).toJson = .ok j ∧ (ofJson j).Plain := by
  induction hj with
  | null => exact ⟨rfl, .null⟩
  | bool b => exact ⟨rfl, .bool b⟩
  | int n => exact ⟨rfl, .number _⟩
  | float hx => exact ⟨congrArg Except.ok (if_pos hx), .number _⟩
  | string s => exact ⟨rfl, .string s⟩
  | array _ ih =>
      refine ⟨?_, .list (plain_ofItems fun item hitem => (ih item hitem).2)⟩
      rw [ofJson, toJson, toJsonItems_ofItems fun item hitem => (ih item hitem).1]
      rfl
  | @object fields hsorted _ ih =>
      constructor
      · rw [ofJson, toJson, toJsonFields_ofFields fun f hf => (ih f hf).1]
        exact congrArg (fun fields => Except.ok (Json.object fields)) (Table.ofList_of_sorted hsorted)
      · rw [ofJson]
        apply plain_entriesOf
        · rw [keys_ofFields]
          exact Table.nodup_of_sorted hsorted
        · exact plain_ofFields fun f hf => (ih f hf).2

end Yaml.Value

/-! ### The usual form -/

open Yaml (Value)
open Yaml.Value (entriesOf ofJson ofFields)

/-- Variables, written down. -/
def Roster.write (r : Roster Json) : Value :=
  .map (entriesOf (ofFields r))

/-- A setting that is left out if it is the usual one. -/
def unlessUsual {α : Type} [DecidableEq α] (key : String) (usual : α) (write : α → Value) (x : α) :
    List (String × Value) :=
  if x = usual then [] else [(key, write x)]

/-- A text, or nothing. -/
def writeText : Option String → Value
  | none => .null
  | some s => .string s

/-- A natural number, written down. -/
def writeNatural (n : Nat) : Value :=
  .number (.int n)

namespace Task

/-- The settings of a task in their usual order. -/
def writeSettings (t : Task) : List (String × Value) :=
  unlessUsual "name" none writeText t.name ++ unlessUsual "vars" [] Roster.write t.vars ++
    unlessUsual "when" none writeText t.guard ++ unlessUsual "delay" 0 writeNatural t.delay ++
    unlessUsual "repeat" 0 writeNatural t.repetitions ++ unlessUsual "timeout" 10 writeNatural t.timeout ++
    unlessUsual "threads" 2 writeNatural t.threads

mutual

/-- A task in its usual form: its identifier with its data, its settings, and its children. -/
def write : Task → Value
  | ⟨id, name, data, vars, guard, delay, repetitions, timeout, threads, children⟩ =>
    .map (entriesOf ((id, writeText data) ::
      writeSettings ⟨id, name, data, vars, guard, delay, repetitions, timeout, threads, children⟩ ++
      if children.isEmpty then [] else [("tasks", .list (writeAll children))]))

/-- Tasks in their usual form. -/
def writeAll : List Task → List Value
  | [] => []
  | t :: rest => write t :: writeAll rest

end

end Task

/-- A playbook in its usual form. -/
def Playbook.write (p : Playbook) : Value :=
  .map (entriesOf (("id", .string p.id) :: unlessUsual "name" none writeText p.name ++
    unlessUsual "vars" [] Roster.write p.vars ++ [("workflow", .list (Task.writeAll p.tasks))]))

/-- Variables that can be written: each name is there once, and the values are data. -/
structure Roster.IsProper (r : Roster Json) : Prop where
  distinct : (Table.keys r).Nodup
  values : ∀ var ∈ r, var.2.IsProper

/-- **A task that can be written**: its identifier is no setting, or it is that of the guard and the task has
none, and its numbers have 64 bits. -/
inductive Task.IsProper : Task → Prop
  | mk {t : Task} (hid : t.id ∉ Loader.reservedKeys ∨ t.id = "when" ∧ t.guard = none)
      (hvars : t.vars.IsProper)
      (hnumbers : ∀ n ∈ [t.delay, t.repetitions, t.timeout, t.threads], n < Nat.pow 2 64)
      (hchildren : ∀ child ∈ t.children, child.IsProper) : IsProper t

/-- **A playbook that can be written**: its identifier is not blank, and its tasks can be written. -/
structure Playbook.IsProper (p : Playbook) : Prop where
  id : Text.isBlankText p.id = false
  vars : p.vars.IsProper
  tasks : ∀ t ∈ p.tasks, t.IsProper

namespace Loader

open Yaml.Value (IsText IsNatural Plain)

/-! ### All forms -/

/-- A text that is there, written down. -/
def IsWrittenText (v : Value) (text : Option String) : Prop :=
  ∃ s, text = some s ∧ v = .string s

/-- **Settings say what a task is like.**  They may stand in any order, and one that is as in a fresh task may
be left out.  What they say of children is left open. -/
structure SaysSettings (t : Task) (settings : List (String × Value)) : Prop where
  distinct : (Table.keys settings).Nodup
  keys : ∀ key ∈ Table.keys settings, key ∈ reservedKeys
  name : Given settings "name" IsWrittenText none t.name
  vars : Given settings "vars" (fun v r => v = Roster.write r) [] t.vars
  guard : Given settings "when" IsWrittenText none t.guard
  delay : Given settings "delay" (fun v n => v = writeNatural n) 0 t.delay
  repetitions : Given settings "repeat" (fun v n => v = writeNatural n) 0 t.repetitions
  timeout : Given settings "timeout" (fun v n => v = writeNatural n) 10 t.timeout
  threads : Given settings "threads" (fun v n => v = writeNatural n) 2 t.threads

/-- **A value writes a task**: the identifier comes first, with the data or with the children of the task, and
then the settings come, among them the children if they did not come before. -/
inductive Writes : Task → Value → Prop
  | leaf {t : Task} {settings : List (String × Value)} (hsettings : SaysSettings t settings)
      (hchildren : t.children = []) (hnone : Table.get? "tasks" settings = none) :
      Writes t (.map (entriesOf ((t.id, writeText t.data) :: settings)))
  | apart {t : Task} {settings : List (String × Value)} {items : List Value}
      (hsettings : SaysSettings t settings) (hchildren : List.Forall₂ Writes t.children items)
      (hplace : Table.get? "tasks" settings = some (.list items)) :
      Writes t (.map (entriesOf ((t.id, writeText t.data) :: settings)))
  | inline {t : Task} {settings : List (String × Value)} {items : List Value}
      (hsettings : SaysSettings t settings) (hdata : t.data = none)
      (hchildren : List.Forall₂ Writes t.children items) (hnone : Table.get? "tasks" settings = none) :
      Writes t (.map (entriesOf ((t.id, .list items) :: settings)))

/-! ### Tasks are read back -/

section

variable {path key : String} {t t' : Task} {settings fields : List (String × Value)} {r : Roster Json}

theorem Given.of_mem {α : Type} {means : Value → α → Prop} {old new : α} {v : Value}
    (h : Given fields key means old new) (hdistinct : (Table.keys fields).Nodup)
    (hmem : (key, v) ∈ fields) : means v new := by
  unfold Given at h
  rw [Table.get?_of_mem hdistinct hmem] at h
  exact h

theorem Given.cases {α : Type} {means : Value → α → Prop} {old new : α}
    (h : Given fields key means old new) : Table.get? key fields = none ∧ new = old ∨
      ∃ v, Table.get? key fields = some v ∧ means v new := by
  unfold Given at h
  split at h
  next v hv => exact Or.inr ⟨v, hv, h⟩
  next hv => exact Or.inl ⟨hv, h⟩

theorem names_ofFields {vars : List (String × Json)} (h : ∀ var ∈ vars, var.2.IsProper) :
    List.Forall₂ Names (ofFields vars) vars := by
  induction vars with
  | nil => exact .nil
  | cons var rest ih =>
      rw [List.forall_mem_cons] at h
      exact .cons ⟨rfl, (Yaml.Value.toJson_ofJson h.1).1⟩ (ih h.2)

theorem isVars_write (h : r.IsProper) : IsVars r.write r :=
  .map (names_ofFields h.values)

theorem plain_write (h : r.IsProper) : r.write.Plain := by
  apply Yaml.Value.plain_entriesOf
  · rw [Yaml.Value.keys_ofFields]
    exact h.distinct
  · exact Yaml.Value.plain_ofFields fun var hvar => (Yaml.Value.toJson_ofJson (h.values var hvar)).2

/-- A written setting is one that can be read. -/
theorem SaysSettings.isSetting (h : SaysSettings t settings) (ht : t.IsProper) {v : Value}
    (hmem : (key, v) ∈ settings) (hkey : key ≠ "tasks") : IsSetting (key, v) ∧ v.Plain := by
  obtain ⟨-, hvars, hnumbers, -⟩ := ht
  simp only [List.mem_cons, List.not_mem_nil, or_false, forall_eq_or_imp, forall_eq] at hnumbers
  obtain ⟨hdelay, hrepeat, htimeout, hthreads⟩ := hnumbers
  have hreserved : key ∈ reservedKeys := h.keys key (List.mem_map.mpr ⟨_, hmem, rfl⟩)
  simp only [reservedKeys, List.mem_cons, List.not_mem_nil, or_false] at hreserved
  rcases hreserved with rfl | rfl | rfl | rfl | rfl | rfl | rfl | rfl
  · obtain ⟨s, -, rfl⟩ := h.name.of_mem h.distinct hmem
    exact ⟨.name (.string s), .string s⟩
  · obtain rfl := h.vars.of_mem h.distinct hmem
    exact ⟨.vars (isVars_write hvars), plain_write hvars⟩
  · obtain ⟨s, -, rfl⟩ := h.guard.of_mem h.distinct hmem
    exact ⟨.guard (.string s), .string s⟩
  · obtain rfl := h.delay.of_mem h.distinct hmem
    exact ⟨.number (by decide) (.number hdelay), .number _⟩
  · obtain rfl := h.repetitions.of_mem h.distinct hmem
    exact ⟨.number (by decide) (.number hrepeat), .number _⟩
  · obtain rfl := h.timeout.of_mem h.distinct hmem
    exact ⟨.number (by decide) (.number htimeout), .number _⟩
  · obtain rfl := h.threads.of_mem h.distinct hmem
    exact ⟨.number (by decide) (.number hthreads), .number _⟩
  · exact (hkey rfl).elim

/-! #### What is read is what was said -/

theorem isSome_unique (v : Value) (x y : Option String) (hx : IsSome v x) (hy : IsSome v y) : x = y := by
  obtain ⟨s, hs, rfl⟩ := hx
  obtain ⟨s', hs', rfl⟩ := hy
  cases hs <;> cases hs' <;> rfl

theorem isNatural_unique (v : Value) (m n : Nat) (hm : v.IsNatural m) (hn : v.IsNatural n) : m = n := by
  cases hm
  cases hn
  rfl

theorem names_unique {vars vars' : List (String × Json)} (h : List.Forall₂ Names fields vars)
    (h' : List.Forall₂ Names fields vars') : vars = vars' := by
  induction h generalizing vars' with
  | nil => cases h'; rfl
  | cons hname _ ih =>
      cases h' with
      | cons hname' hrest' =>
          obtain ⟨hkey, hvalue⟩ := hname
          obtain ⟨hkey', hvalue'⟩ := hname'
          have hsame := Except.ok.inj (hvalue.symm.trans hvalue')
          exact congrArg₂ List.cons (Prod.ext (hkey.symm.trans hkey') hsame) (ih hrest')

theorem isVars_unique {v : Value} {vars vars' : List (String × Json)} (h : IsVars v vars)
    (h' : IsVars v vars') : vars = vars' := by
  cases h with
  | null =>
      generalize hv : Value.null = v at h'
      cases h' with
      | null => rfl
      | map => cases hv
  | @map fields _ hnamed =>
      generalize hv : Value.map (entriesOf fields) = v at h'
      cases h' with
      | null => cases hv
      | map hnamed' =>
          rw [← entriesOf_injective (Value.map.inj hv)] at hnamed'
          exact names_unique hnamed hnamed'

/-- Under settings, only that of the variables gives variables. -/
theorem flatten_of_gives {named : List (List (String × Json))} (hdistinct : (Table.keys fields).Nodup)
    (hkeys : ∀ key ∈ Table.keys fields, key ∈ reservedKeys) (h : List.Forall₂ Gives fields named)
    (hvars : Given fields "vars" IsVars [] r) : named.flatten = r := by
  induction h generalizing r with
  | nil => exact hvars.symm
  | @cons f vars fields named hgives _ ih =>
      obtain ⟨key, v⟩ := f
      have hcons : Table.keys ((key, v) :: fields) = key :: Table.keys fields := rfl
      rw [hcons, List.forall_mem_cons] at hkeys
      rw [hcons, List.nodup_cons] at hdistinct
      rw [given_cons] at hvars
      rw [List.flatten_cons]
      by_cases hkey : key = "vars"
      · rw [if_pos hkey] at hvars
        subst hkey
        rw [ih hdistinct.2 hkeys.2 ((given_of_notMem hdistinct.1).mpr rfl), List.append_nil]
        cases hgives with
        | within hnamed => exact isVars_unique hnamed hvars
        | itself hown => exact (hown hkeys.1).elim
        | nothing _ hne => exact (hne rfl).elim
      · rw [if_neg hkey] at hvars
        rw [ih hdistinct.2 hkeys.2 hvars]
        cases hgives with
        | within => exact (hkey rfl).elim
        | itself hown => exact (hown hkeys.1).elim
        | nothing => rfl

/-- What the settings of a task make of its identifier, data and children is the task. -/
theorem SaysSettings.eq_of_entered (h : SaysSettings t settings) (ht : t.IsProper) {inline : List Task}
    (hentered : Entered path settings { id := t.id, data := t.data, children := inline } t')
    (hchildren : t'.children = t.children) : t' = t := by
  obtain ⟨-, hvars, hnumbers, -⟩ := ht
  simp only [List.mem_cons, List.not_mem_nil, or_false, forall_eq_or_imp, forall_eq] at hnumbers
  obtain ⟨hdelay, hrepeat, htimeout, hthreads⟩ := hnumbers
  have htext {key : String} {text : Option String} (hx : Given settings key IsWrittenText none text) :
      Given settings key IsSome none text := by
    refine hx.imp fun v _ hv => ?_
    obtain ⟨s, rfl, rfl⟩ := hv
    exact ⟨s, .string s, rfl⟩
  have hnumber {key : String} {usual n : Nat} (hn : n < Nat.pow 2 64)
      (hx : Given settings key (fun v n => v = writeNatural n) usual n) :
      Given settings key Value.IsNatural usual n := by
    refine hx.imp fun v _ hv => ?_
    rw [hv]
    exact .number hn
  have hname := given_unique isSome_unique hentered.name (htext h.name)
  have hguard := given_unique isSome_unique hentered.guard (htext h.guard)
  have hdelays := given_unique isNatural_unique hentered.delay (hnumber hdelay h.delay)
  have hrepeats := given_unique isNatural_unique hentered.repetitions (hnumber hrepeat h.repetitions)
  have htimeouts := given_unique isNatural_unique hentered.timeout (hnumber htimeout h.timeout)
  have hpools := given_unique isNatural_unique hentered.threads (hnumber hthreads h.threads)
  have hroster : t'.vars = t.vars := by
    obtain ⟨named, hgives, hput⟩ := hentered.vars
    have hgiven : Given settings "vars" IsVars [] t.vars := by
      refine h.vars.imp fun v _ hv => ?_
      rw [hv]
      exact isVars_write hvars
    rw [hput, flatten_of_gives h.distinct h.keys hgives hgiven]
    exact Roster.ofList_of_nodup hvars.distinct
  have hid := hentered.id
  have hdata := hentered.data
  cases t
  cases t'
  simp_all

/-- An identifier stands before its settings as one that names the task. -/
theorem SaysSettings.namesTask (h : SaysSettings t settings) (ht : t.IsProper) :
    NamesTask [] t.id settings ∧ t.id ∉ Table.keys settings := by
  obtain ⟨hown | ⟨hwhen, hguard⟩, -⟩ := ht
  · exact ⟨.first hown nofun, fun hmem => hown (h.keys _ hmem)⟩
  · refine ⟨.guard hwhen h.keys, fun hmem => ?_⟩
    obtain ⟨⟨key, v⟩, hentry, hkey⟩ := List.mem_map.mp hmem
    dsimp only at hkey
    rw [hkey, hwhen] at hentry
    obtain ⟨s, hs, -⟩ := h.guard.of_mem h.distinct hentry
    rw [hguard] at hs
    cases hs

/-- **An identifier with its settings is read as the task**, if what stands under the identifier and under
`tasks` is read as its data and children. -/
theorem SaysSettings.reads (h : SaysSettings t settings) (ht : t.IsProper) {head : Value}
    {inline : List Task} (hhead : ∀ path,
      Heads path t.id head { id := t.id, data := t.data, children := inline })
    (htasks : ∀ path, Given settings "tasks" (fun v ts => taskList path v = .ok ts) inline t.children)
    (hfree : "tasks" ∈ Table.keys settings → inline = []) (hheadPlain : head.Plain)
    (htasksPlain : ∀ v, ("tasks", v) ∈ settings → v.Plain) :
    (Value.map (entriesOf ((t.id, head) :: settings))).Plain ∧
      Reads (.map (entriesOf ((t.id, head) :: settings))) t := by
  obtain ⟨hnames, hfresh⟩ := h.namesTask ht
  have hdistinct : (Table.keys ((t.id, head) :: settings)).Nodup := List.nodup_cons.mpr ⟨hfresh, h.distinct⟩
  have hplain : ∀ f ∈ settings, f.2.Plain := by
    rintro ⟨key, v⟩ hf
    by_cases hkey : key = "tasks"
    · rw [hkey] at hf
      exact htasksPlain v hf
    · exact (h.isSetting ht hf hkey).2
  refine ⟨Yaml.Value.plain_entriesOf hdistinct (List.forall_mem_cons.mpr ⟨hheadPlain, hplain⟩), fun path => ?_⟩
  have henter : ∀ f ∈ settings, Enterable (innerPath path t.id) f := by
    rintro ⟨key, v⟩ hf
    by_cases hkey : key = "tasks"
    · rw [hkey] at hf
      exact Or.inr ⟨hkey, _, (htasks _).of_mem h.distinct hf⟩
    · exact Or.inl (h.isSetting ht hf hkey).1
  obtain ⟨t', ht'⟩ := exists_foldlM_enter h.distinct hplain henter
    { id := t.id, data := t.data, children := inline } hfree
  have hentered := Entered.of_foldlM h.distinct hplain ht'
  have hchildren : t'.children = t.children :=
    given_unique (fun v x y hx hy => Except.ok.inj (hx.symm.trans hy)) hentered.children (htasks _)
  rw [h.eq_of_entered ht hentered hchildren] at ht'
  have hread : task path (.map (entriesOf ([] ++ (t.id, head) :: settings))) =
      headValue path t.id head >>= ([] ++ settings).foldlM (enter (innerPath path t.id)) :=
    task_entriesOf hdistinct hnames
  exact hread.trans (bind_eq_ok.mpr ⟨_, headValue_eq_ok.mpr (hhead path), ht'⟩)

theorem heads_writeText (path id : String) (data : Option String) :
    Heads path id (writeText data) { id, data } := by
  cases data with
  | none => exact .nothing
  | some text => exact .data (.string text)

theorem plain_writeText (text : Option String) : (writeText text).Plain := by
  cases text with
  | none => exact .null
  | some s => exact .string s

theorem forall₂_reads {ts : List Task} {items : List Value} (h : List.Forall₂ Writes ts items)
    (hread : ∀ t ∈ ts, ∀ v, Writes t v → v.Plain ∧ Reads v t) :
    (Value.list items).Plain ∧ List.Forall₂ Reads items ts := by
  suffices hitems : (∀ item ∈ items, item.Plain) ∧ List.Forall₂ Reads items ts from
    ⟨.list hitems.1, hitems.2⟩
  induction h with
  | nil => exact ⟨nofun, .nil⟩
  | cons hwrites _ ih =>
      rw [List.forall_mem_cons] at hread
      obtain ⟨hplain, hreads⟩ := hread.1 _ hwrites
      obtain ⟨hplains, hall⟩ := ih hread.2
      exact ⟨List.forall_mem_cons.mpr ⟨hplain, hplains⟩, .cons hreads hall⟩

/-- **A task is read from whatever writes it**, at every depth. -/
theorem reads_of_writes (ht : t.IsProper) {v : Value} (h : Writes t v) : v.Plain ∧ Reads v t := by
  induction ht generalizing v with
  | @mk t hid hvars hnumbers hchildren ih =>
      have ht : t.IsProper := .mk hid hvars hnumbers hchildren
      have hread : ∀ child ∈ t.children, ∀ v, Writes child v → v.Plain ∧ Reads v child :=
        fun child hchild v hv => ih child hchild hv
      cases h with
      | leaf hsettings hleaf hnone =>
          rw [Table.get?_eq_none_iff] at hnone
          refine hsettings.reads ht (fun path => heads_writeText path t.id t.data) (fun path => ?_)
            (fun _ => rfl) (plain_writeText _) fun v hv => (hnone (List.mem_map.mpr ⟨_, hv, rfl⟩)).elim
          exact (given_of_notMem hnone).mpr hleaf
      | @apart _ settings items hsettings hitems hplace =>
          obtain ⟨hplain, hreads⟩ := forall₂_reads hitems hread
          refine hsettings.reads ht (fun path => heads_writeText path t.id t.data) (fun path => ?_)
            (fun _ => rfl) (plain_writeText _) fun v hv => ?_
          · unfold Given
            rw [hplace]
            exact tasks_of_reads hreads 0
          · rw [Table.get?_of_mem hsettings.distinct hv] at hplace
            cases hplace
            exact hplain
      | @inline _ settings items hsettings hdata hitems hnone =>
          obtain ⟨hplain, hreads⟩ := forall₂_reads hitems hread
          rw [Table.get?_eq_none_iff] at hnone
          have hfree : "tasks" ∈ Table.keys settings → t.children = [] := fun hmem => (hnone hmem).elim
          have hno (v : Value) (hv : ("tasks", v) ∈ settings) : v.Plain :=
            (hnone (List.mem_map.mpr ⟨_, hv, rfl⟩)).elim
          refine hsettings.reads ht (fun path => ?_) (fun path => ?_) hfree hplain hno
          · rw [hdata]
            exact .children (tasks_of_reads hreads 0)
          · exact (given_of_notMem hnone).mpr rfl

end

/-! ### Playbooks and documents are read back -/

/-- **A value writes a playbook**: its entries may stand in any order, and the tasks may stand under either
key. -/
inductive WritesPlaybook (p : Playbook) : Value → Prop
  | mk {fields : List (String × Value)} {items : List Value}
      (hid : Table.get? "id" fields = some (.string p.id))
      (hname : Given fields "name" IsWrittenText none p.name)
      (hvars : Given fields "vars" (fun v r => v = Roster.write r) [] p.vars)
      (htasks : List.Forall₂ Writes p.tasks items)
      (hplace : Table.get? "workflow" fields = some (.list items) ∨
        Table.get? "workflow" fields = none ∧ Table.get? "tasks" fields = some (.list items)) :
      WritesPlaybook p (.map (entriesOf fields))

/-- **A document writes playbooks**: none if it is empty, one, or those of a list. -/
inductive WritesDocument : List Playbook → Value → Prop
  | empty : WritesDocument [] .null
  | one {p : Playbook} {v : Value} (h : WritesPlaybook p v) : WritesDocument [p] v
  | list {ps : List Playbook} {items : List Value} (h : List.Forall₂ WritesPlaybook ps items) :
      WritesDocument ps (.list items)

section

variable {path key : String} {p : Playbook} {fields : List (String × Value)}

theorem entry_entriesOf (fields : List (String × Value)) (key : String) :
    entry key (entriesOf fields) = Table.get? key fields := by
  induction fields with
  | nil => rfl
  | cons f rest ih =>
      obtain ⟨k, v⟩ := f
      have hcons : entry key (entriesOf ((k, v) :: rest)) =
          if k = key then some v else entry key (entriesOf rest) := rfl
      rw [hcons, ih]
      rfl

/-- **A playbook is read from whatever writes it.** -/
theorem playbook_of_writes (hp : p.IsProper) {v : Value} (h : WritesPlaybook p v) : playbook v = .ok p := by
  obtain ⟨hid, hname, hvars, htasks, hplace⟩ := h
  rename_i fields items
  obtain ⟨hplain, hreads⟩ := forall₂_reads htasks fun t ht v hv => reads_of_writes (hp.tasks t ht) hv
  have hread : taskList p.id (.list items) = .ok p.tasks := tasks_of_reads hreads 0
  have hworkflow : ((Table.get? "workflow" fields).orElse fun _ => Table.get? "tasks" fields) =
      some (.list items) := by
    rcases hplace with hplace | ⟨hnone, hplace⟩
    · rw [hplace]
      rfl
    · rw [hnone]
      exact hplace
  have hown : vars p.id p.vars.write = .ok p.vars :=
    (vars_eq_ok (plain_write hp.vars)).mpr (isVars_write hp.vars)
  unfold playbook
  simp only [Value.untagged, entry_entriesOf, hid, hworkflow]
  have hnamed : Table.get? "name" fields = none ∧ p.name = none ∨
      ∃ s, Table.get? "name" fields = some (.string s) ∧ p.name = some s := by
    rcases hname.cases with ⟨hnone, hfresh⟩ | ⟨v, hsome, s, hs, rfl⟩
    · exact Or.inl ⟨hnone, hfresh⟩
    · exact Or.inr ⟨s, hsome, hs⟩
  have hgiven : Table.get? "vars" fields = none ∧ p.vars = [] ∨
      Table.get? "vars" fields = some p.vars.write := by
    rcases hvars.cases with ⟨hnone, hfresh⟩ | ⟨v, hsome, rfl⟩
    · exact Or.inl ⟨hnone, hfresh⟩
    · exact Or.inr hsome
  obtain ⟨hblank, -, -⟩ := hp
  obtain ⟨id, name, own, tasks⟩ := p
  dsimp only at *
  rcases hnamed with ⟨hn, rfl⟩ | ⟨s, hn, rfl⟩ <;> rcases hgiven with ⟨hv, rfl⟩ | hv <;>
    simp [hn, hv, hblank, hown, hread, scalarText, bind, Except.bind, pure, Except.pure, Functor.map,
      Except.map]

theorem playbooks_of_writes {ps : List Playbook} {items : List Value} (hps : ∀ p ∈ ps, p.IsProper)
    (h : List.Forall₂ WritesPlaybook ps items) : playbooks items = .ok ps := by
  induction h with
  | nil => rfl
  | cons hwrites _ ih =>
      rw [List.forall_mem_cons] at hps
      rw [playbooks, playbook_of_writes hps.1 hwrites, ih hps.2]
      rfl

theorem document_of_writes {ps : List Playbook} {v : Value} (hps : ∀ p ∈ ps, p.IsProper)
    (h : WritesDocument ps v) : document v = .ok ps := by
  cases h with
  | empty => rfl
  | one hwrites =>
      have hread := playbook_of_writes (hps _ (List.mem_singleton_self _)) hwrites
      cases hwrites
      rw [document, hread]
      · rfl
      all_goals nofun
  | list hwrites => exact playbooks_of_writes hps hwrites

theorem documents_of_writes {found : List (List Playbook)} {values : List Value}
    (hfound : ∀ ps ∈ found, ∀ p ∈ ps, p.IsProper) (h : List.Forall₂ WritesDocument found values) :
    documents values = .ok found.flatten := by
  induction h with
  | nil => rfl
  | cons hwrites _ ih =>
      rw [List.forall_mem_cons] at hfound
      rw [documents, document_of_writes hfound.1 hwrites, ih hfound.2]
      rfl

end

/-! ### The usual form is one of the forms -/

section

variable {α : Type} [DecidableEq α] {key k : String} {usual x : α} {write : α → Value}
variable {β : Type} {means : Value → β → Prop} {old new : β} {rest : List (String × Value)}
variable {later : List String}

theorem sublist_unlessUsual (h : (Table.keys rest).Sublist later) :
    (Table.keys (unlessUsual key usual write x ++ rest)).Sublist (key :: later) := by
  unfold unlessUsual
  by_cases hx : x = usual
  · rw [if_pos hx]
    exact h.cons key
  · rw [if_neg hx]
    exact h.cons_cons key

theorem given_unlessUsual {means : Value → α → Prop} (hrest : (Table.keys rest).Sublist later)
    (hlater : key ∉ later) (hmeans : x ≠ usual → means (write x) x) :
    Given (unlessUsual key usual write x ++ rest) key means usual x := by
  unfold unlessUsual
  by_cases hx : x = usual
  · rw [if_pos hx]
    exact (given_of_notMem fun hmem => hlater (hrest.subset hmem)).mpr hx
  · rw [if_neg hx, List.singleton_append, given_cons, if_pos rfl]
    exact hmeans hx

theorem get?_unlessUsual_append (hne : k ≠ key) :
    Table.get? key (unlessUsual k usual write x ++ rest) = Table.get? key rest := by
  unfold unlessUsual
  by_cases hx : x = usual
  · rw [if_pos hx, List.nil_append]
  · rw [if_neg hx, List.singleton_append, Table.get?, if_neg hne]

theorem given_unlessUsual_append (hne : k ≠ key) :
    Given (unlessUsual k usual write x ++ rest) key means old new ↔ Given rest key means old new := by
  unfold Given
  rw [get?_unlessUsual_append hne]

end

theorem isWrittenText_of_ne {text : Option String} (h : text ≠ none) : IsWrittenText (writeText text) text := by
  obtain ⟨s, rfl⟩ := Option.ne_none_iff_exists'.mp h
  exact ⟨s, rfl, rfl⟩

/-- The settings in their usual order say what a task is like, and children may come after them. -/
theorem saysSettings_writeSettings (t : Task) {more : List (String × Value)}
    (hmore : (Table.keys more).Sublist ["tasks"]) : SaysSettings t (t.writeSettings ++ more) := by
  have hthreads : (Table.keys (unlessUsual "threads" 2 writeNatural t.threads ++ more)).Sublist
      ["threads", "tasks"] := sublist_unlessUsual hmore
  have htimeout : (Table.keys (unlessUsual "timeout" 10 writeNatural t.timeout ++ _)).Sublist
      ["timeout", "threads", "tasks"] := sublist_unlessUsual hthreads
  have hrepeat : (Table.keys (unlessUsual "repeat" 0 writeNatural t.repetitions ++ _)).Sublist
      ["repeat", "timeout", "threads", "tasks"] := sublist_unlessUsual htimeout
  have hdelay : (Table.keys (unlessUsual "delay" 0 writeNatural t.delay ++ _)).Sublist
      ["delay", "repeat", "timeout", "threads", "tasks"] := sublist_unlessUsual hrepeat
  have hguard : (Table.keys (unlessUsual "when" none writeText t.guard ++ _)).Sublist
      ["when", "delay", "repeat", "timeout", "threads", "tasks"] := sublist_unlessUsual hdelay
  have hvars : (Table.keys (unlessUsual "vars" [] Roster.write t.vars ++ _)).Sublist
      ["vars", "when", "delay", "repeat", "timeout", "threads", "tasks"] := sublist_unlessUsual hguard
  have hname : (Table.keys (unlessUsual "name" none writeText t.name ++ _)).Sublist reservedKeys :=
    sublist_unlessUsual hvars
  simp only [Task.writeSettings, List.append_assoc]
  refine ⟨hname.nodup (by decide), fun key hkey => hname.subset hkey, ?_, ?_, ?_, ?_, ?_, ?_, ?_⟩
  · exact given_unlessUsual hvars (by decide) isWrittenText_of_ne
  · iterate 1 rw [given_unlessUsual_append (by decide)]
    exact given_unlessUsual hguard (by decide) fun _ => rfl
  · iterate 2 rw [given_unlessUsual_append (by decide)]
    exact given_unlessUsual hdelay (by decide) isWrittenText_of_ne
  · iterate 3 rw [given_unlessUsual_append (by decide)]
    exact given_unlessUsual hrepeat (by decide) fun _ => rfl
  · iterate 4 rw [given_unlessUsual_append (by decide)]
    exact given_unlessUsual htimeout (by decide) fun _ => rfl
  · iterate 5 rw [given_unlessUsual_append (by decide)]
    exact given_unlessUsual hthreads (by decide) fun _ => rfl
  · iterate 6 rw [given_unlessUsual_append (by decide)]
    exact given_unlessUsual hmore (by decide) fun _ => rfl

theorem get?_writeSettings_append (t : Task) (more : List (String × Value)) :
    Table.get? "tasks" (t.writeSettings ++ more) = Table.get? "tasks" more := by
  simp only [Task.writeSettings, List.append_assoc]
  iterate 7 rw [get?_unlessUsual_append (by decide)]

theorem forall₂_writeAll {ts : List Task} (h : ∀ t ∈ ts, Writes t t.write) :
    List.Forall₂ Writes ts (Task.writeAll ts) := by
  induction ts with
  | nil => exact .nil
  | cons t rest ih =>
      rw [List.forall_mem_cons] at h
      exact .cons h.1 (ih h.2)

/-- **The usual form of a task writes it.** -/
theorem writes_write (t : Task) : Writes t t.write := by
  cases t with
  | mk id name data vars guard delay repetitions timeout threads children =>
      have hall : List.Forall₂ Writes children (Task.writeAll children) := by
        refine forall₂_writeAll fun child hchild => ?_
        have hlt := List.sizeOf_lt_of_mem hchild
        exact writes_write child
      rw [Task.write]
      cases children with
      | nil =>
          refine .leaf (saysSettings_writeSettings _ (List.nil_sublist _)) rfl ?_
          exact get?_writeSettings_append _ []
      | cons first rest =>
          refine .apart (saysSettings_writeSettings _ (List.Sublist.refl _)) hall ?_
          exact get?_writeSettings_append _ _
termination_by sizeOf t

/-- **The usual form of a playbook writes it.** -/
theorem writesPlaybook_write (p : Playbook) : WritesPlaybook p p.write := by
  have hworkflow : (Table.keys [("workflow", Value.list (Task.writeAll p.tasks))]).Sublist ["workflow"] :=
    List.Sublist.refl _
  have hvars : (Table.keys (unlessUsual "vars" [] Roster.write p.vars ++ _)).Sublist ["vars", "workflow"] :=
    sublist_unlessUsual hworkflow
  rw [Playbook.write, List.cons_append, List.cons_append, List.append_assoc]
  refine .mk rfl ?_ ?_ (forall₂_writeAll fun t _ => writes_write t) (Or.inl ?_)
  · rw [given_cons, if_neg (by decide)]
    exact given_unlessUsual hvars (by decide) isWrittenText_of_ne
  · rw [given_cons, if_neg (by decide), given_unlessUsual_append (by decide)]
    exact given_unlessUsual hworkflow (by decide) fun _ => rfl
  · rw [Table.get?, if_neg (by decide), get?_unlessUsual_append (by decide),
      get?_unlessUsual_append (by decide)]
    rfl

/-- **What is written is read as what it was**: a playbook in its usual form and in any other, and a stream of
documents that write playbooks as all of them in order. -/
theorem written_is_read {found : List (List Playbook)} {values : List Value}
    (hfound : ∀ ps ∈ found, ∀ p ∈ ps, p.IsProper) (h : List.Forall₂ WritesDocument found values) :
    stream ⟨values, true⟩ = .ok found.flatten ∧
      ∀ p ∈ found.flatten, playbook p.write = .ok p ∧ ∀ v, WritesPlaybook p v → playbook v = .ok p := by
  constructor
  · rw [stream, documents_of_writes hfound h]
    rfl
  · intro p hp
    obtain ⟨ps, hps, hmem⟩ := List.mem_flatten.mp hp
    have hproper : p.IsProper := hfound ps hps p hmem
    exact ⟨playbook_of_writes hproper (writesPlaybook_write p), fun v hv => playbook_of_writes hproper hv⟩

/-- A playbook whose container has a task that is called like a setting. -/
def nested : Playbook where
  id := "main"
  vars := [("x", .object [("a", .null)])]
  tasks := [{
    id := "block"
    vars := [("n", .ofInt 1)]
    delay := 3
    children := [{ id := "when", data := some "n > 0", name := some "gate" }] }]

/-- The container with its children under its identifier and its settings the other way round. -/
def nestedOtherwise : Value :=
  .map (entriesOf [("id", .string "main"), ("vars", .map (entriesOf [("x", .map (entriesOf [("a", .null)]))])),
    ("tasks", .list [.map (entriesOf [
      ("block", .list [.map (entriesOf [("when", .string "n > 0"), ("name", .string "gate")])]),
      ("delay", .number (.int 3)), ("vars", .map (entriesOf [("n", .number (.int 1))]))])])])

/-- The playbook is read from a stream with an empty document, both forms and a list. -/
theorem written_is_read_nested :
    (∀ ps ∈ [[], [nested], [nested, nested]], ∀ p ∈ ps, p.IsProper) ∧
      stream ⟨[.null, nestedOtherwise, .list [nested.write, nestedOtherwise]], true⟩ =
        .ok [nested, nested, nested] := by
  have hproper : nested.IsProper := by
    have hgate : Task.IsProper { id := "when", data := some "n > 0", name := some "gate" } :=
      .mk (by decide) ⟨by decide, nofun⟩ (by decide) nofun
    have hblock : ∀ t ∈ nested.tasks, t.IsProper :=
      List.forall_mem_singleton.mpr (.mk (by decide) ⟨by decide, List.forall_mem_singleton.mpr (.int 1)⟩
        (by decide) (List.forall_mem_singleton.mpr hgate))
    have hx : (Json.object [("a", .null)]).IsProper :=
      .object (List.pairwise_singleton ..) (List.forall_mem_singleton.mpr .null)
    exact ⟨by decide, ⟨by decide, List.forall_mem_singleton.mpr hx⟩, hblock⟩
  have hfound : ∀ ps ∈ [[], [nested], [nested, nested]], ∀ p ∈ ps, p.IsProper := by
    simp [hproper]
  have hotherwise : WritesPlaybook nested nestedOtherwise := by
    have hgate : Writes { id := "when", data := some "n > 0", name := some "gate" }
        (.map (entriesOf [("when", .string "n > 0"), ("name", .string "gate")])) :=
      writes_write { id := "when", data := some "n > 0", name := some "gate" }
    refine .mk rfl rfl rfl (.cons (.inline ?_ rfl (.cons hgate .nil) rfl) .nil) (Or.inr ⟨rfl, rfl⟩)
    exact ⟨by decide, by decide, rfl, rfl, rfl, rfl, rfl, rfl, rfl⟩
  exact ⟨hfound, (written_is_read hfound
    (.cons .empty (.cons (.one hotherwise) (.cons (.list (.cons (writesPlaybook_write nested)
      (.cons hotherwise .nil))) .nil)))).1⟩

end Loader

end Runsheet
