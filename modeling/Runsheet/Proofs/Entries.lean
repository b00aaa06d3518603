import Mathlib.Data.List.Forall2
import Mathlib.Data.List.Nodup
import Runsheet.Playbook.Loader

/-!
# Entries of tasks

A task that is written as a map is read in two steps: the entry that names it gives its identifier with
its data or children, and the other entries are then entered one after the other.  What comes of this
is described field by field, so that nothing depends on the order of the entries but the order of the
variables.

* `Loader.task_eq_ok` — a map is read by its identifier and its other entries;
* `Loader.Entered.of_foldlM` — what the other entries make of a task;
* `Loader.exists_foldlM_enter` — other entries that can all be read make some task.
-/

namespace Runsheet

section

variable {ε ζ α β : Type} {x : Except ε α}

theorem bind_eq_ok {f : α → Except ε β} {b : β} :
    x >>= f = .ok b ↔ ∃ a, x = .ok a ∧ f a = .ok b := by
  cases x with
  | error problem => simp [bind, Except.bind]
  | ok a => simp [bind, Except.bind]

theorem bind_eq_error {f : α → Except ε β} {problem : ε} :
    x >>= f = .error problem ↔ x = .error problem ∨ ∃ a, x = .ok a ∧ f a = .error problem := by
  cases x with
  | error first => simp [bind, Except.bind]
  | ok a => simp [bind, Except.bind]

theorem map_eq_ok {f : α → β} {b : β} : f <$> x = .ok b ↔ ∃ a, x = .ok a ∧ f a = b := by
  cases x with
  | error problem => simp [Functor.map, Except.map]
  | ok a => simp [Functor.map, Except.map]

theorem mapError_eq_ok {f : ε → ζ} {a : α} : x.mapError f = .ok a ↔ x = .ok a := by
  cases x <;> simp [Except.mapError]

theorem pure_eq_ok {a b : α} : (pure a : Except ε α) = .ok b ↔ a = b := by
  simp [pure, Except.pure]

end

namespace Roster

variable {α : Type}

theorem put_of_notMem {key : String} {value : α} {r : Roster α} (h : key ∉ Table.keys r) :
    put key value r = r ++ [(key, value)] := by
  induction r with
  | nil => rfl
  | cons entry rest ih =>
      obtain ⟨k, v⟩ := entry
      have hne : k ≠ key := fun heq => h (by simp [Table.keys, heq])
      have hrest : key ∉ Table.keys rest := fun hmem => h (List.mem_cons_of_mem _ hmem)
      rw [put, if_neg hne, ih hrest]
      rfl

theorem putAll_of_nodup {r entries : Roster α} (h : (Table.keys (r ++ entries)).Nodup) :
    putAll r entries = r ++ entries := by
  induction entries generalizing r with
  | nil => simp [putAll]
  | cons entry rest ih =>
      obtain ⟨key, value⟩ := entry
      have hkey : key ∉ Table.keys r := by
        intro hmem
        simp only [Table.keys, List.map_append, List.map_cons, List.nodup_append] at h
        exact h.2.2 key hmem key (List.mem_cons_self ..) rfl
      have hput : put key value r = r ++ [(key, value)] := put_of_notMem hkey
      have hsplit : r ++ (key, value) :: rest = r ++ [(key, value)] ++ rest := by simp
      rw [hsplit] at h
      rw [putAll, List.foldl_cons, hput, hsplit]
      exact ih h

theorem putAll_append (r entries more : Roster α) :
    putAll r (entries ++ more) = putAll (putAll r entries) more :=
  List.foldl_append

/-- Entries with different keys count, and where there is none what was there. -/
theorem get?_putAll_of_nodup {key : String} {value : α} {entries : Roster α}
    (h : (Table.keys entries).Nodup) (r : Roster α) :
    Table.get? key (putAll r entries) = some value ↔
      (key, value) ∈ entries ∨ key ∉ Table.keys entries ∧ Table.get? key r = some value := by
  induction entries generalizing r with
  | nil => simp [putAll, Table.keys]
  | cons entry rest ih =>
      obtain ⟨k, v⟩ := entry
      have hkeys : Table.keys ((k, v) :: rest) = k :: Table.keys rest := rfl
      rw [hkeys] at h
      obtain ⟨hk, hrest⟩ := List.nodup_cons.mp h
      have hcons : putAll r ((k, v) :: rest) = putAll (put k v r) rest := rfl
      rw [hcons, ih hrest, get?_put, hkeys, List.mem_cons, List.mem_cons, Prod.mk.injEq]
      by_cases hkey : k = key
      · subst hkey
        have hnone : (k, value) ∉ rest := fun hmem => hk (List.mem_map.mpr ⟨_, hmem, rfl⟩)
        simp [hk, hnone, eq_comm]
      · simp [hkey, Ne.symm hkey]

/-- A roster of entries with different keys is these entries. -/
theorem ofList_of_nodup {entries : Roster α} (h : (Table.keys entries).Nodup) :
    ofList entries = entries :=
  putAll_of_nodup (r := []) h

end Roster

namespace Yaml.Value

/-- The text of a scalar. -/
inductive IsText : Value → String → Prop
  | string (s : String) : IsText (.string s) s
  | number (n : Number) : IsText (.number n) n.text
  | bool (b : Bool) : IsText (.bool b) (if b then "true" else "false")

/-- A natural number of 64 bits. -/
inductive IsNatural : Value → Nat → Prop
  | number {n : Nat} (hn : n < Nat.pow 2 64) : IsNatural (.number (.int n)) n

/-- The entries of a map whose keys are strings. -/
def entriesOf (fields : List (String × Value)) : List (Value × Value) :=
  fields.map fun f => (.string f.1, f.2)

/-- **A value as a document without tags has it**: no key of a map is there twice. -/
inductive Plain : Value → Prop
  | null : Plain .null
  | bool (b : Bool) : Plain (.bool b)
  | number (n : Number) : Plain (.number n)
  | string (s : String) : Plain (.string s)
  | list {items : List Value} (hitems : ∀ item ∈ items, Plain item) : Plain (.list items)
  | map {entries : List (Value × Value)} (hdistinct : (entries.map Prod.fst).Nodup)
      (hkeys : ∀ e ∈ entries, Plain e.1) (hvalues : ∀ e ∈ entries, Plain e.2) : Plain (.map entries)

theorem Plain.untagged {v : Value} (hv : v.Plain) : v.untagged = v := by
  cases hv <;> rfl

theorem keys_nodup_of_entriesOf {fields : List (String × Value)}
    (h : ((entriesOf fields).map Prod.fst).Nodup) : (Table.keys fields).Nodup := by
  unfold entriesOf at h
  rw [List.map_map] at h
  have hmap : fields.map (Prod.fst ∘ fun f => (Value.string f.1, f.2)) =
      (Table.keys fields).map Value.string := by simp [Table.keys]
  rw [hmap] at h
  exact (List.nodup_map_iff fun _ _ => Value.string.inj).mp h

/-- A map from names is plain if its keys are different and its values are plain. -/
theorem plain_entriesOf {fields : List (String × Value)} (hdistinct : (Table.keys fields).Nodup)
    (hplain : ∀ f ∈ fields, f.2.Plain) : (Value.map (entriesOf fields)).Plain := by
  refine .map ?_ ?_ ?_
  · have hkeys : (entriesOf fields).map Prod.fst = (Table.keys fields).map Value.string := by
      simp [entriesOf, Table.keys]
    rw [hkeys]
    exact (List.nodup_map_iff fun _ _ => Value.string.inj).mpr hdistinct
  · intro e he
    obtain ⟨f, _, rfl⟩ := List.mem_map.mp he
    exact .string _
  · intro e he
    obtain ⟨f, hf, rfl⟩ := List.mem_map.mp he
    exact hplain f hf

end Yaml.Value

namespace Loader

open Yaml (Value)
open Yaml.Value (IsText IsNatural Plain entriesOf)

variable {path key id : String} {v : Value} {t t' s : Task} {fields : List (String × Value)}
variable {f : String × Value}

/-! ### Values of one kind -/

theorem scalarText_eq_ok {s : String} : scalarText path v = .ok s ↔ v.IsText s := by
  constructor
  · intro h
    cases v with
    | string s =>
        cases h
        exact .string s
    | number n =>
        cases h
        exact .number n
    | bool b =>
        cases h
        exact .bool b
    | _ => cases h
  · intro h
    cases h <;> rfl

theorem natural_eq_ok {n : Nat} (hv : v.Plain) : natural path key v = .ok n ↔ v.IsNatural n := by
  unfold natural
  rw [hv.untagged]
  constructor
  · intro h
    split at h
    next m _ =>
      split at h
      next hm =>
        cases h
        exact .number hm
      next => cases h
    next => cases h
  · intro h
    cases h with
    | number hn => exact if_pos hn

theorem data_eq_ok {j : Json} : data path v = .ok j ↔ v.toJson = .ok j :=
  mapError_eq_ok

/-! ### Variables -/

/-- An entry gives a variable of its own name. -/
def Names (f : String × Value) (var : String × Json) : Prop :=
  f.1 = var.1 ∧ f.2.toJson = .ok var.2

/-- The variables that a value gives: none, or those of a map from names. -/
inductive IsVars : Value → List (String × Json) → Prop
  | null : IsVars .null []
  | map {fields : List (String × Value)} {named : List (String × Json)}
      (hnamed : List.Forall₂ Names fields named) : IsVars (.map (entriesOf fields)) named

theorem varEntries_eq_ok {named : List (String × Json)} :
    varEntries path (entriesOf fields) = .ok named ↔ List.Forall₂ Names fields named := by
  induction fields generalizing named with
  | nil =>
      rw [List.forall₂_nil_left_iff]
      exact ⟨fun h => (Except.ok.inj h).symm, fun h => congrArg Except.ok h.symm⟩
  | cons f rest ih =>
      obtain ⟨name, v⟩ := f
      have hcons : varEntries path (entriesOf ((name, v) :: rest)) =
          (do
            let value ← data path v
            let more ← varEntries path (entriesOf rest)
            pure ((name, value) :: more)) := rfl
      rw [hcons, List.forall₂_cons_left_iff]
      simp only [bind_eq_ok, pure_eq_ok, data_eq_ok, ih]
      constructor
      · rintro ⟨j, hj, more, hmore, rfl⟩
        exact ⟨_, _, ⟨rfl, hj⟩, hmore, rfl⟩
      · rintro ⟨⟨_, j⟩, more, ⟨rfl, hj⟩, hmore, rfl⟩
        exact ⟨j, hj, more, hmore, rfl⟩

/-- If the keys of a map can be read as strings, the entries are those of strings. -/
theorem exists_fields {entries : List (Value × Value)} (hplain : ∀ e ∈ entries, e.1.Plain)
    (hstrings : ∀ e ∈ entries, ∃ key, e.1.untagged = .string key) :
    ∃ fields, entries = entriesOf fields := by
  induction entries with
  | nil => exact ⟨[], rfl⟩
  | cons e rest ih =>
      obtain ⟨k, v⟩ := e
      obtain ⟨key, hkey⟩ := hstrings (k, v) (List.mem_cons_self ..)
      have hk : k = .string key := by
        rw [← hkey]
        exact (hplain (k, v) (List.mem_cons_self ..)).untagged.symm
      obtain ⟨fields, rfl⟩ := ih (fun e he => hplain e (List.mem_cons_of_mem _ he))
        fun e he => hstrings e (List.mem_cons_of_mem _ he)
      exact ⟨(key, v) :: fields, by rw [hk]; rfl⟩

theorem strings_of_varEntries {entries : List (Value × Value)} {named : List (String × Json)}
    (h : varEntries path entries = .ok named) :
    ∀ e ∈ entries, ∃ key, e.1.untagged = .string key := by
  induction entries generalizing named with
  | nil => nofun
  | cons e rest ih =>
      obtain ⟨k, v⟩ := e
      rw [varEntries] at h
      split at h
      next name hname =>
        simp only [bind_eq_ok] at h
        obtain ⟨j, _, more, hmore, _⟩ := h
        intro e he
        rcases List.mem_cons.mp he with rfl | he
        · exact ⟨name, hname⟩
        · exact ih hmore e he
      next => cases h

theorem keys_of_names {named : List (String × Json)} (h : List.Forall₂ Names fields named) :
    Table.keys named = Table.keys fields := by
  induction h with
  | nil => rfl
  | cons hname _ ih => exact congrArg₂ List.cons hname.1.symm ih

/-- **What is read as variables**: each name is there once. -/
theorem vars_eq_ok {r : Roster Json} (hv : v.Plain) : vars path v = .ok r ↔ IsVars v r := by
  have hmap {fields : List (String × Value)} {named : List (String × Json)}
      (hdistinct : ((entriesOf fields).map Prod.fst).Nodup)
      (hnamed : List.Forall₂ Names fields named) : Roster.ofList named = named := by
    apply Roster.ofList_of_nodup
    rw [keys_of_names hnamed]
    exact Yaml.Value.keys_nodup_of_entriesOf hdistinct
  constructor
  · intro h
    cases hv with
    | null =>
        cases h
        exact .null
    | @map entries hdistinct hkeys hvalues =>
        obtain ⟨named, hnamed, rfl⟩ := map_eq_ok.mp h
        obtain ⟨fields, rfl⟩ := exists_fields hkeys (strings_of_varEntries hnamed)
        rw [varEntries_eq_ok] at hnamed
        rw [hmap hdistinct hnamed]
        exact .map hnamed
    | _ => cases h
  · intro h
    cases h with
    | null => rfl
    | map hnamed =>
        cases hv with
        | map hdistinct =>
            refine map_eq_ok.mpr ⟨_, varEntries_eq_ok.mpr hnamed, ?_⟩
            exact hmap hdistinct hnamed

/-! ### One entry after the other -/

/-- Enters one entry, besides the one that names the task, into a task. -/
def enter (path : String) (t : Task) (f : String × Value) : Loaded Task :=
  if f.1 = "tasks" then
    if t.children.isEmpty then do
      let children ← taskList path f.2
      pure { t with children }
    else .error (.format (.childrenTwice path))
  else setting path f.1 f.2 t

theorem settings_cons {passed : Option Nat} (hpassed : passed ≠ some 0) (t : Task)
    (rest : List (String × Value)) :
    settings path passed t (entriesOf (f :: rest)) =
      enter path t f >>= fun t => settings path (passed.map (· - 1)) t (entriesOf rest) := by
  obtain ⟨key, v⟩ := f
  have hcons : entriesOf ((key, v) :: rest) = (.string key, v) :: entriesOf rest := rfl
  rw [hcons, settings.eq_def]
  dsimp only [enter]
  split
  next => exact (hpassed rfl).elim
  next =>
    by_cases hkey : key = "tasks"
    · subst hkey
      simp only [Value.untagged, if_true]
      split
      · simp only [bind_assoc, pure_bind]
      · rfl
    · rw [if_neg hkey]
      split
      next heq => exact (hkey (Value.string.inj heq)).elim
      next heq =>
        cases heq
        rfl
      next hother => exact (hother key rfl).elim

theorem settings_none (fields : List (String × Value)) (t : Task) :
    settings path none t (entriesOf fields) = fields.foldlM (enter path) t := by
  induction fields generalizing t with
  | nil => rfl
  | cons f rest ih =>
      have hnone : (none : Option Nat) ≠ some 0 := nofun
      rw [settings_cons hnone, List.foldlM_cons]
      exact congrArg _ (funext fun t => ih t)

/-- All entries but the one that names the task are entered, one after the other. -/
theorem settings_some (before after : List (String × Value)) (t : Task) :
    settings path (some before.length) t (entriesOf (before ++ f :: after)) =
      (before ++ after).foldlM (enter path) t := by
  induction before generalizing t with
  | nil => exact settings_none after t
  | cons g rest ih =>
      have hlater : some (g :: rest).length ≠ some 0 := by simp
      rw [List.cons_append, settings_cons hlater, List.cons_append, List.foldlM_cons]
      exact congrArg _ (funext fun t => ih t)

/-- **What entering one entry does** to a task: it changes the field of its key. -/
inductive Enters (path : String) : String × Value → Task → Task → Prop
  | name {v : Value} {text : String} {t : Task} (hv : v.IsText text) :
      Enters path ("name", v) t { t with name := some text }
  | vars {v : Value} {named : List (String × Json)} {t : Task} (hv : IsVars v named) :
      Enters path ("vars", v) t { t with vars := Roster.putAll t.vars named }
  | guard {v : Value} {text : String} {t : Task} (hv : v.IsText text) :
      Enters path ("when", v) t { t with guard := some text }
  | delay {v : Value} {n : Nat} {t : Task} (hv : v.IsNatural n) :
      Enters path ("delay", v) t { t with delay := n }
  | repetitions {v : Value} {n : Nat} {t : Task} (hv : v.IsNatural n) :
      Enters path ("repeat", v) t { t with repetitions := n }
  | timeout {v : Value} {n : Nat} {t : Task} (hv : v.IsNatural n) :
      Enters path ("timeout", v) t { t with timeout := n }
  | threads {v : Value} {n : Nat} {t : Task} (hv : v.IsNatural n) :
      Enters path ("threads", v) t { t with threads := n }
  | children {v : Value} {ts : List Task} {t : Task} (hfree : t.children = [])
      (hts : taskList path v = .ok ts) : Enters path ("tasks", v) t { t with children := ts }
  | own {key : String} {v : Value} {j : Json} {t : Task} (hkey : key ∉ reservedKeys)
      (hj : v.toJson = .ok j) : Enters path (key, v) t { t with vars := Roster.put key j t.vars }

theorem enter_eq_ok (hf : f.2.Plain) : enter path t f = .ok t' ↔ Enters path f t t' := by
  obtain ⟨key, v⟩ := f
  dsimp only at hf
  constructor
  · intro h
    unfold enter at h
    dsimp only at h
    split at h
    next htasks =>
      subst htasks
      split at h
      next hfree =>
        obtain ⟨ts, hts, rfl⟩ := map_eq_ok.mp h
        exact .children (List.isEmpty_iff.mp hfree) hts
      next => cases h
    next htasks =>
      unfold setting at h
      split at h
      next =>
        obtain ⟨text, htext, rfl⟩ := map_eq_ok.mp h
        exact .name (scalarText_eq_ok.mp htext)
      next =>
        obtain ⟨named, hnamed, rfl⟩ := map_eq_ok.mp h
        exact .vars ((vars_eq_ok hf).mp hnamed)
      next =>
        obtain ⟨text, htext, rfl⟩ := map_eq_ok.mp h
        exact .guard (scalarText_eq_ok.mp htext)
      next =>
        obtain ⟨n, hn, rfl⟩ := map_eq_ok.mp h
        exact .delay ((natural_eq_ok hf).mp hn)
      next =>
        obtain ⟨n, hn, rfl⟩ := map_eq_ok.mp h
        exact .repetitions ((natural_eq_ok hf).mp hn)
      next =>
        obtain ⟨n, hn, rfl⟩ := map_eq_ok.mp h
        exact .timeout ((natural_eq_ok hf).mp hn)
      next =>
        obtain ⟨n, hn, rfl⟩ := map_eq_ok.mp h
        exact .threads ((natural_eq_ok hf).mp hn)
      next hname hvars hguard hdelay hrepeat htimeout hthreads =>
        obtain ⟨j, hj, rfl⟩ := map_eq_ok.mp h
        refine .own ?_ (data_eq_ok.mp hj)
        simp only [reservedKeys, List.mem_cons, List.not_mem_nil, or_false]
        rintro (h | h | h | h | h | h | h | h)
        exacts [hname h, hvars h, hguard h, hdelay h, hrepeat h, htimeout h, hthreads h, htasks h]
  · intro h
    cases h with
    | name hv => exact map_eq_ok.mpr ⟨_, scalarText_eq_ok.mpr hv, rfl⟩
    | vars hv => exact map_eq_ok.mpr ⟨_, (vars_eq_ok hf).mpr hv, rfl⟩
    | guard hv => exact map_eq_ok.mpr ⟨_, scalarText_eq_ok.mpr hv, rfl⟩
    | delay hv => exact map_eq_ok.mpr ⟨_, (natural_eq_ok hf).mpr hv, rfl⟩
    | repetitions hv => exact map_eq_ok.mpr ⟨_, (natural_eq_ok hf).mpr hv, rfl⟩
    | timeout hv => exact map_eq_ok.mpr ⟨_, (natural_eq_ok hf).mpr hv, rfl⟩
    | threads hv => exact map_eq_ok.mpr ⟨_, (natural_eq_ok hf).mpr hv, rfl⟩
    | children hfree hts =>
        unfold enter
        rw [if_pos rfl, hfree]
        exact map_eq_ok.mpr ⟨_, hts, rfl⟩
    | own hkey hj =>
        have hne {k : String} (hk : k ∈ reservedKeys) : key ≠ k := by
          intro heq
          rw [heq] at hkey
          exact hkey hk
        unfold enter setting
        rw [if_neg (hne (by decide))]
        split
        iterate 7
          next heq => exact (hne (by decide) heq).elim
        next => exact map_eq_ok.mpr ⟨_, data_eq_ok.mpr hj, rfl⟩

/-- **What entries say of one field**: the value under its key means what the field is then, and without
such a value the field is what it was. -/
def Given {α : Type} (fields : List (String × Value)) (key : String) (means : Value → α → Prop)
    (old new : α) : Prop :=
  match Table.get? key fields with
  | some v => means v new
  | none => new = old

/-- The variables that an entry gives: those of a map of variables, and one under a key that is no setting. -/
inductive Gives : String × Value → List (String × Json) → Prop
  | within {v : Value} {named : List (String × Json)} (hnamed : IsVars v named) : Gives ("vars", v) named
  | itself {key : String} {v : Value} {j : Json} (hkey : key ∉ reservedKeys) (hj : v.toJson = .ok j) :
      Gives (key, v) [(key, j)]
  | nothing {key : String} {v : Value} (hkey : key ∈ reservedKeys) (hvars : key ≠ "vars") : Gives (key, v) []

/-- A text that is there. -/
def IsSome (v : Value) (text : Option String) : Prop :=
  ∃ s, v.IsText s ∧ text = some s

/-- **What entries make of a task.** -/
structure Entered (path : String) (fields : List (String × Value)) (t t' : Task) : Prop where
  id : t'.id = t.id
  data : t'.data = t.data
  name : Given fields "name" IsSome t.name t'.name
  guard : Given fields "when" IsSome t.guard t'.guard
  delay : Given fields "delay" Value.IsNatural t.delay t'.delay
  repetitions : Given fields "repeat" Value.IsNatural t.repetitions t'.repetitions
  timeout : Given fields "timeout" Value.IsNatural t.timeout t'.timeout
  threads : Given fields "threads" Value.IsNatural t.threads t'.threads
  children : Given fields "tasks" (fun v ts => taskList path v = .ok ts) t.children t'.children
  vars : ∃ named, List.Forall₂ Gives fields named ∧ t'.vars = Roster.putAll t.vars named.flatten

section

variable {α : Type} {means : Value → α → Prop} {old new mid : α}

theorem given_nil : Given [] key means old new ↔ new = old :=
  Iff.rfl

theorem given_cons : Given ((id, v) :: fields) key means old new ↔
    if id = key then means v new else Given fields key means old new := by
  unfold Given
  rw [Table.get?]
  by_cases hid : id = key
  · rw [if_pos hid, if_pos hid]
  · rw [if_neg hid, if_neg hid]

theorem given_of_notMem (h : key ∉ Table.keys fields) :
    Given fields key means old new ↔ new = old := by
  unfold Given
  rw [Table.get?_eq_none_of_notMem h]

theorem given_unique (hmeans : ∀ v x y, means v x → means v y → x = y)
    (hnew : Given fields key means old new) (hmid : Given fields key means old mid) : new = mid := by
  unfold Given at hnew hmid
  split at hnew
  next v hv =>
    rw [hv] at hmid
    exact hmeans v new mid hnew hmid
  next hv =>
    rw [hv] at hmid
    exact hnew.trans hmid.symm

theorem Given.imp {means' : Value → α → Prop} (h : Given fields key means old new)
    (himp : ∀ v, (key, v) ∈ fields → means v new → means' v new) : Given fields key means' old new := by
  unfold Given at h ⊢
  split
  next v hv =>
    rw [hv] at h
    exact himp v (Table.mem_of_get? hv) h
  next hv =>
    rw [hv] at h
    exact h

/-- One entry, and then others under other keys. -/
theorem Given.cons (hone : Given [f] key means old mid) (hrest : Given fields key means mid new)
    (hf : f.1 ∉ Table.keys fields) : Given (f :: fields) key means old new := by
  obtain ⟨id, v⟩ := f
  rw [given_cons] at hone ⊢
  by_cases hid : id = key
  · subst hid
    rw [given_of_notMem hf] at hrest
    rw [hrest]
    simpa using hone
  · rw [if_neg hid, given_nil] at hone
    rw [if_neg hid, ← hone]
    exact hrest

end

/-- What one entry makes of a task. -/
theorem Enters.entered (h : Enters path f t t') : Entered path [f] t t' := by
  cases h with
  | @own key v j t hkey hj =>
      have hother {α : Type} {means : Value → α → Prop} {x : α} {k : String} (hk : k ∈ reservedKeys) :
          Given [(key, v)] k means x x := by
        have hne : key ≠ k := by
          intro heq
          rw [heq] at hkey
          exact hkey hk
        rw [given_cons, if_neg hne]
        rfl
      refine ⟨rfl, rfl, ?_, ?_, ?_, ?_, ?_, ?_, ?_, [[(key, j)]], .cons (.itself hkey hj) .nil, rfl⟩ <;>
        exact hother (by decide)
  | vars hnamed =>
      refine ⟨rfl, rfl, ?_, ?_, ?_, ?_, ?_, ?_, ?_, _, .cons (.within hnamed) .nil, by simp⟩ <;>
        simp [Given, Table.get?]
  | _ =>
      refine ⟨rfl, rfl, ?_, ?_, ?_, ?_, ?_, ?_, ?_, [[]], .cons (.nothing (by decide) (by decide)) .nil,
        rfl⟩ <;> simp_all [Given, Table.get?, IsSome]

/-- **What entries under different keys make of a task.** -/
theorem Entered.of_foldlM (hdistinct : (Table.keys fields).Nodup) (hplain : ∀ f ∈ fields, f.2.Plain)
    (h : fields.foldlM (enter path) t = .ok t') : Entered path fields t t' := by
  induction fields generalizing t with
  | nil =>
      cases h
      exact ⟨rfl, rfl, rfl, rfl, rfl, rfl, rfl, rfl, rfl, [], .nil, rfl⟩
  | cons f rest ih =>
      obtain ⟨hf, hrest⟩ := List.nodup_cons.mp hdistinct
      rw [List.foldlM_cons] at h
      obtain ⟨s, hs, hafter⟩ := bind_eq_ok.mp h
      have hone : Entered path [f] t s := ((enter_eq_ok (hplain f (List.mem_cons_self ..))).mp hs).entered
      have hmore : Entered path rest s t' :=
        ih hrest (fun g hg => hplain g (List.mem_cons_of_mem _ hg)) hafter
      obtain ⟨first, hfirst, hvars⟩ := hone.vars
      obtain ⟨others, hothers, hvars'⟩ := hmore.vars
      refine ⟨hmore.id.trans hone.id, hmore.data.trans hone.data, hone.name.cons hmore.name hf,
        hone.guard.cons hmore.guard hf, hone.delay.cons hmore.delay hf,
        hone.repetitions.cons hmore.repetitions hf, hone.timeout.cons hmore.timeout hf,
        hone.threads.cons hmore.threads hf, hone.children.cons hmore.children hf, ?_⟩
      obtain ⟨named, _, hnamed, hnil, rfl⟩ := List.forall₂_cons_left_iff.mp hfirst
      rw [List.forall₂_nil_left_iff] at hnil
      subst hnil
      refine ⟨named :: others, .cons hnamed hothers, ?_⟩
      rw [hvars', hvars]
      simp [Roster.putAll]

/-- What may stand under a key that is not that of the children. -/
inductive IsSetting : String × Value → Prop
  | name {v : Value} {text : String} (hv : v.IsText text) : IsSetting ("name", v)
  | guard {v : Value} {text : String} (hv : v.IsText text) : IsSetting ("when", v)
  | number {key : String} {v : Value} {n : Nat} (hkey : key ∈ ["delay", "repeat", "timeout", "threads"])
      (hv : v.IsNatural n) : IsSetting (key, v)
  | vars {v : Value} {named : List (String × Json)} (hv : IsVars v named) : IsSetting ("vars", v)
  | own {key : String} {v : Value} {j : Json} (hkey : key ∉ reservedKeys) (hv : v.toJson = .ok j) :
      IsSetting (key, v)

/-- An entry that can be entered into tasks without children. -/
def Enterable (path : String) (f : String × Value) : Prop :=
  IsSetting f ∨ f.1 = "tasks" ∧ ∃ ts, taskList path f.2 = .ok ts

theorem Enters.enterable (h : Enters path f t t') : Enterable path f := by
  cases h with
  | name hv => exact Or.inl (.name hv)
  | vars hv => exact Or.inl (.vars hv)
  | guard hv => exact Or.inl (.guard hv)
  | delay hv => exact Or.inl (.number (by decide) hv)
  | repetitions hv => exact Or.inl (.number (by decide) hv)
  | timeout hv => exact Or.inl (.number (by decide) hv)
  | threads hv => exact Or.inl (.number (by decide) hv)
  | children _ hts => exact Or.inr ⟨rfl, _, hts⟩
  | own hkey hj => exact Or.inl (.own hkey hj)

/-- Children are entered only where there are none. -/
theorem Enters.free (h : Enters path f t t') (hkey : f.1 = "tasks") : t.children = [] := by
  cases h with
  | children hfree _ => exact hfree
  | own hown _ =>
      dsimp only at hkey
      rw [hkey] at hown
      exact (hown (by decide)).elim
  | _ => simp at hkey

theorem Enterable.enters (hf : Enterable path f) (hfree : f.1 = "tasks" → t.children = []) :
    ∃ t', Enters path f t t' := by
  obtain ⟨key, v⟩ := f
  rcases hf with hsetting | ⟨hkey, ts, hts⟩
  · cases hsetting with
    | name hv => exact ⟨_, .name hv⟩
    | guard hv => exact ⟨_, .guard hv⟩
    | vars hv => exact ⟨_, .vars hv⟩
    | own hkey hj => exact ⟨_, .own hkey hj⟩
    | number hkey hv =>
        simp only [List.mem_cons, List.not_mem_nil, or_false] at hkey
        rcases hkey with rfl | rfl | rfl | rfl
        · exact ⟨_, .delay hv⟩
        · exact ⟨_, .repetitions hv⟩
        · exact ⟨_, .timeout hv⟩
        · exact ⟨_, .threads hv⟩
  · dsimp only at hkey
    subst hkey
    exact ⟨_, .children (hfree rfl) hts⟩

/-- **Entries under different keys that can all be entered** make a task, unless there are children in the
way. -/
theorem exists_foldlM_enter (hdistinct : (Table.keys fields).Nodup)
    (hplain : ∀ f ∈ fields, f.2.Plain) (hfields : ∀ f ∈ fields, Enterable path f) (t : Task)
    (hchildren : "tasks" ∈ Table.keys fields → t.children = []) :
    ∃ t', fields.foldlM (enter path) t = .ok t' := by
  induction fields generalizing t with
  | nil => exact ⟨t, rfl⟩
  | cons f rest ih =>
      obtain ⟨hf, hrest⟩ := List.nodup_cons.mp hdistinct
      obtain ⟨s, hs⟩ := (hfields f (List.mem_cons_self ..)).enters fun hkey =>
        hchildren (by simp [Table.keys, hkey])
      have hlater : "tasks" ∈ Table.keys rest → s.children = [] := by
        intro hmem
        have hne : "tasks" ∉ Table.keys [f] := by
          intro hone
          rw [← List.mem_singleton.mp hone] at hf
          exact hf hmem
        have hkept := hs.entered.children
        rw [given_of_notMem hne] at hkept
        rw [hkept]
        exact hchildren (List.mem_cons_of_mem _ hmem)
      obtain ⟨t', ht'⟩ := ih hrest (fun g hg => hplain g (List.mem_cons_of_mem _ hg))
        (fun g hg => hfields g (List.mem_cons_of_mem _ hg)) s hlater
      refine ⟨t', ?_⟩
      rw [List.foldlM_cons, bind_eq_ok]
      exact ⟨s, (enter_eq_ok (hplain f (List.mem_cons_self ..))).mpr hs, ht'⟩

/-- If entries make a task, each of them can be entered, and no children were in the way. -/
theorem enterable_of_foldlM (hdistinct : (Table.keys fields).Nodup) (hplain : ∀ f ∈ fields, f.2.Plain)
    (h : fields.foldlM (enter path) t = .ok t') :
    (∀ f ∈ fields, Enterable path f) ∧ ("tasks" ∈ Table.keys fields → t.children = []) := by
  induction fields generalizing t with
  | nil => exact ⟨nofun, nofun⟩
  | cons f rest ih =>
      obtain ⟨hf, hrest⟩ := List.nodup_cons.mp hdistinct
      rw [List.foldlM_cons] at h
      obtain ⟨s, hs, hafter⟩ := bind_eq_ok.mp h
      rw [enter_eq_ok (hplain f (List.mem_cons_self ..))] at hs
      obtain ⟨hfields, hchildren⟩ := ih hrest (fun g hg => hplain g (List.mem_cons_of_mem _ hg)) hafter
      refine ⟨List.forall_mem_cons.mpr ⟨hs.enterable, hfields⟩, fun hmem => ?_⟩
      by_cases hkey : f.1 = "tasks"
      · exact hs.free hkey
      · have hkept := hs.entered.children
        rw [given_of_notMem fun hone => hkey (List.mem_singleton.mp hone).symm] at hkept
        rw [← hkept]
        refine hchildren ((List.mem_cons.mp hmem).resolve_left fun heq => hkey heq.symm)

/-! ### The entry that names a task -/

/-- **A key names a task** if it is the first one that is no setting, or if it is that of the guard and all
keys are settings. -/
inductive NamesTask (before : List (String × Value)) (id : String) (after : List (String × Value)) : Prop
  | first (hid : id ∉ reservedKeys) (hbefore : ∀ k ∈ Table.keys before, k ∈ reservedKeys)
  | guard (hid : id = "when") (hothers : ∀ k ∈ Table.keys (before ++ after), k ∈ reservedKeys)

theorem findIdx?_middle {α : Type} {p : α → Bool} {xs ys : List α} {x : α} :
    (xs ++ x :: ys).findIdx? p = some xs.length ↔ p x = true ∧ ∀ y ∈ xs, p y = false := by
  induction xs with
  | nil => simp [List.findIdx?_cons]
  | cons y rest ih =>
      rw [List.cons_append, List.findIdx?_cons]
      cases hy : p y with
      | true => simp [hy]
      | false =>
          simp only [Bool.false_eq_true, if_false, List.length_cons, List.mem_cons, forall_eq_or_imp, hy,
            true_and]
          rw [← ih]
          cases (rest ++ x :: ys).findIdx? p <;> simp

theorem idPlace?_eq_some {before after : List (String × Value)}
    (hdistinct : (Table.keys (before ++ (id, v) :: after)).Nodup) :
    idPlace? (Table.keys (before ++ (id, v) :: after)) = some before.length ↔
      NamesTask before id after := by
  have hkeys : Table.keys (before ++ (id, v) :: after) = Table.keys before ++ id :: Table.keys after := by
    simp [Table.keys]
  have hlength : before.length = (Table.keys before).length := by simp [Table.keys]
  have hpassed : Table.keys (before ++ after) = Table.keys before ++ Table.keys after := by
    simp [Table.keys]
  rw [hkeys] at hdistinct
  unfold idPlace?
  rw [hkeys, hlength]
  cases hfirst : (Table.keys before ++ id :: Table.keys after).findIdx? fun k =>
      !reservedKeys.contains k with
  | some i =>
      have hsome : some i = some (Table.keys before).length ↔
          id ∉ reservedKeys ∧ ∀ k ∈ Table.keys before, k ∈ reservedKeys := by
        rw [← hfirst, findIdx?_middle]
        simp
      refine hsome.trans ?_
      constructor
      · rintro ⟨hid, hbefore⟩
        exact .first hid hbefore
      · intro hnames
        cases hnames with
        | first hid hbefore => exact ⟨hid, hbefore⟩
        | guard hid hothers =>
            have hnone : (Table.keys before ++ id :: Table.keys after).findIdx?
                (fun k => !reservedKeys.contains k) = none := by
              rw [List.findIdx?_eq_none_iff]
              intro k hk
              rw [hpassed] at hothers
              rcases List.mem_append.mp hk with hk | hk
              · simpa using hothers k (List.mem_append_left _ hk)
              · rcases List.mem_cons.mp hk with rfl | hk
                · rw [hid]
                  decide
                · simpa using hothers k (List.mem_append_right _ hk)
            rw [hnone] at hfirst
            cases hfirst
  | none =>
      have hall : ∀ k ∈ Table.keys before ++ id :: Table.keys after, k ∈ reservedKeys := by
        intro k hk
        simpa using List.findIdx?_eq_none_iff.mp hfirst k hk
      have hwhen : (Table.keys before ++ id :: Table.keys after).findIdx? (fun k => k = "when") =
          some (Table.keys before).length ↔ id = "when" ∧ ∀ k ∈ Table.keys before, k ≠ "when" := by
        rw [findIdx?_middle]
        simp
      refine hwhen.trans ?_
      constructor
      · rintro ⟨hid, -⟩
        refine .guard hid fun k hk => hall k ?_
        rw [hpassed] at hk
        exact (List.mem_append.mp hk).elim (List.mem_append_left _)
          fun hk => List.mem_append_right _ (List.mem_cons_of_mem _ hk)
      · intro hnames
        cases hnames with
        | first hid hbefore =>
            exact (hid (hall id (List.mem_append_right _ (List.mem_cons_self ..)))).elim
        | guard hid hothers =>
            refine ⟨hid, fun k hk heq => ?_⟩
            rw [List.nodup_append] at hdistinct
            exact hdistinct.2.2 k hk id (List.mem_cons_self ..) (heq.trans hid.symm)

/-- The place of the key that names a task is within the map. -/
theorem exists_split_of_idPlace? {place : Nat} (h : idPlace? (Table.keys fields) = some place) :
    ∃ before f after, fields = before ++ f :: after ∧ place = before.length := by
  have hlt : place < fields.length := by
    have hlength : (Table.keys fields).length = fields.length := by simp [Table.keys]
    rw [← hlength]
    unfold idPlace? at h
    cases hfirst : (Table.keys fields).findIdx? fun k => !reservedKeys.contains k with
    | some i =>
        rw [hfirst] at h
        cases h
        exact (List.findIdx?_eq_some_iff_getElem.mp hfirst).1
    | none =>
        rw [hfirst] at h
        exact (List.findIdx?_eq_some_iff_getElem.mp h).1
  refine ⟨fields.take place, fields[place], fields.drop (place + 1), ?_, ?_⟩
  · rw [← List.drop_eq_getElem_cons hlt, List.take_append_drop]
  · rw [List.length_take]
    omega

/-- **What stands under the key that names a task**: nothing, its children, or its data. -/
inductive Heads (path id : String) : Value → Task → Prop
  | nothing : Heads path id .null { id }
  | children {items : List Value} {children : List Task}
      (hchildren : tasks (innerPath path id) 0 items = .ok children) :
      Heads path id (.list items) { id, children }
  | data {v : Value} {text : String} (hv : v.IsText text) : Heads path id v { id, data := some text }

theorem headValue_eq_ok : headValue path id v = .ok t ↔ Heads path id v t := by
  constructor
  · intro h
    rw [headValue.eq_def] at h
    split at h
    next =>
      cases h
      exact .nothing
    next items =>
      obtain ⟨children, hchildren, rfl⟩ := map_eq_ok.mp h
      exact .children hchildren
    next =>
      obtain ⟨text, htext, rfl⟩ := map_eq_ok.mp h
      exact .data (scalarText_eq_ok.mp htext)
  · intro h
    cases h with
    | nothing => rfl
    | children hchildren => exact map_eq_ok.mpr ⟨_, hchildren, rfl⟩
    | data hv =>
        rw [headValue.eq_def]
        cases hv <;> rfl

theorem head_eq_headValue (before after : List (String × Value)) :
    head path id before.length (entriesOf (before ++ f :: after)) = headValue path id f.2 := by
  induction before with
  | nil => rfl
  | cons g rest ih => exact ih

theorem keyNames_entriesOf (fields : List (String × Value)) :
    keyNames path (entriesOf fields) = .ok (Table.keys fields) := by
  induction fields with
  | nil => rfl
  | cons f rest ih => exact map_eq_ok.mpr ⟨_, ih, rfl⟩

theorem strings_of_keyNames {entries : List (Value × Value)} {keys : List String}
    (h : keyNames path entries = .ok keys) :
    ∀ e ∈ entries, ∃ key, e.1.untagged = .string key := by
  induction entries generalizing keys with
  | nil => nofun
  | cons e rest ih =>
      obtain ⟨k, v⟩ := e
      rw [keyNames] at h
      split at h
      next key hkey =>
        obtain ⟨more, hmore, -⟩ := map_eq_ok.mp h
        intro e he
        rcases List.mem_cons.mp he with rfl | he
        · exact ⟨key, hkey⟩
        · exact ih hmore e he
      next => cases h

/-- A map with a key that names a task is read by the entry under this key and the other entries. -/
theorem task_entriesOf {before after : List (String × Value)}
    (hdistinct : (Table.keys (before ++ (id, v) :: after)).Nodup) (hnames : NamesTask before id after) :
    task path (.map (entriesOf (before ++ (id, v) :: after))) =
      headValue path id v >>= (before ++ after).foldlM (enter (innerPath path id)) := by
  have hplace : idPlace? (Table.keys (before ++ (id, v) :: after)) = some before.length :=
    (idPlace?_eq_some hdistinct).mpr hnames
  have hid : (Table.keys (before ++ (id, v) :: after)).getD before.length "" = id := by
    simp [Table.keys]
  have hrest (t : Task) : settings (innerPath path id) (some before.length) t
      (entriesOf (before ++ (id, v) :: after)) = (before ++ after).foldlM (enter (innerPath path id)) t :=
    settings_some before after t
  rw [task, keyNames_entriesOf]
  simp only [bind, Except.bind, hplace, hid, head_eq_headValue, hrest]

/-- **A map is read as a task** by the entry that names it and the other entries. -/
theorem task_eq_ok {entries : List (Value × Value)} (hplain : (Value.map entries).Plain) :
    task path (.map entries) = .ok t ↔ ∃ before id v after named,
      entries = entriesOf (before ++ (id, v) :: after) ∧ NamesTask before id after ∧
      Heads path id v named ∧
      (before ++ after).foldlM (enter (innerPath path id)) named = .ok t := by
  cases hplain with
  | map hdistinct hkeys hvalues =>
      constructor
      · intro h
        have hread := h
        rw [task] at hread
        obtain ⟨keys, hread, hplace⟩ := bind_eq_ok.mp hread
        obtain ⟨fields, rfl⟩ := exists_fields hkeys (strings_of_keyNames hread)
        rw [keyNames_entriesOf] at hread
        cases hread
        split at hplace
        next => cases hplace
        next place hfound =>
          obtain ⟨before, ⟨id, v⟩, after, rfl, rfl⟩ := exists_split_of_idPlace? hfound
          have hnodup := Yaml.Value.keys_nodup_of_entriesOf hdistinct
          have hnames : NamesTask before id after := (idPlace?_eq_some hnodup).mp hfound
          rw [task_entriesOf hnodup hnames, bind_eq_ok] at h
          obtain ⟨named, hhead, hothers⟩ := h
          exact ⟨before, id, v, after, named, rfl, hnames, headValue_eq_ok.mp hhead, hothers⟩
      · rintro ⟨before, id, v, after, named, rfl, hnames, hhead, hothers⟩
        rw [task_entriesOf (Yaml.Value.keys_nodup_of_entriesOf hdistinct) hnames, bind_eq_ok]
        exact ⟨named, headValue_eq_ok.mpr hhead, hothers⟩

/-! ### Lists of tasks -/

section

variable {items : List Value} {index : Nat}

/-- Each task of a list is read from its item. -/
theorem forall₂_of_tasks {ts : List Task} (h : tasks path index items = .ok ts) :
    List.Forall₂ (fun item t => ∃ path, task path item = .ok t) items ts := by
  induction items generalizing index ts with
  | nil =>
      cases h
      exact .nil
  | cons item rest ih =>
      rw [tasks, bind_eq_ok] at h
      obtain ⟨t, ht, hrest⟩ := h
      obtain ⟨more, hmore, rfl⟩ := map_eq_ok.mp hrest
      exact .cons ⟨_, ht⟩ (ih hmore)

/-- Each item of a list of tasks is read as a task. -/
theorem exists_task_of_mem {ts : List Task} (h : tasks path index items = .ok ts) {item : Value}
    (hitem : item ∈ items) : ∃ path t, task path item = .ok t := by
  have hall := forall₂_of_tasks h
  clear h
  induction hall with
  | nil => cases hitem
  | cons hread _ ih =>
      rcases List.mem_cons.mp hitem with rfl | hitem
      · obtain ⟨path, ht⟩ := hread
        exact ⟨path, _, ht⟩
      · exact ih hitem

/-- Items that can be read as tasks wherever they stand make a list of tasks. -/
theorem exists_tasks (hitems : ∀ item ∈ items, ∀ path, ∃ t, task path item = .ok t) :
    ∃ ts, tasks path index items = .ok ts := by
  induction items generalizing index with
  | nil => exact ⟨[], rfl⟩
  | cons item rest ih =>
      obtain ⟨t, ht⟩ := hitems item (List.mem_cons_self ..) (itemPath path index)
      obtain ⟨more, hmore⟩ := @ih (index + 1) fun item hitem => hitems item (List.mem_cons_of_mem _ hitem)
      refine ⟨t :: more, ?_⟩
      rw [tasks, bind_eq_ok]
      exact ⟨t, ht, map_eq_ok.mpr ⟨more, hmore, rfl⟩⟩

end

end Loader

end Runsheet
