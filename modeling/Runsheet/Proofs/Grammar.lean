import Runsheet.Proofs.Entries

/-!
# The grammar of tasks

A value is a task if it is a name or a map of a certain form, which is given by rules of its own.  In a map
the meaning of a key depends on the others: the first key that is no setting names the task, or that of the
guard if all keys are settings; the rest are settings and variables, and none of them is lost.

* `Loader.IsTask` — the grammar;
* `Loader.isTask_of_ok`, `Loader.exists_task` — what is read is of this form, and all of this form is read;
* `Loader.Entered.described` — what a task is made of;
* `Loader.task_grammar` — the result.
-/

namespace Runsheet

namespace Yaml.Value

/-- What can be the key of a field of data. -/
inductive IsKey : Value → Prop
  | string (s : String) : IsKey (.string s)
  | bool (b : Bool) : IsKey (.bool b)
  | int (n : Int) : IsKey (.number (.int n))
  | float {x : Binary64} (hx : x.isFinite = true) : IsKey (.number (.float x))

/-- **What can be taken for data**: everything but maps with other keys. -/
inductive IsData : Value → Prop
  | null : IsData .null
  | bool (b : Bool) : IsData (.bool b)
  | number (n : Number) : IsData (.number n)
  | string (s : String) : IsData (.string s)
  | list {items : List Value} (hitems : ∀ item ∈ items, IsData item) : IsData (.list items)
  | map {entries : List (Value × Value)} (hkeys : ∀ e ∈ entries, IsKey e.1)
      (hvalues : ∀ e ∈ entries, IsData e.2) : IsData (.map entries)

theorem sizeOf_value {entries : List (Value × Value)} {e : Value × Value} (h : e ∈ entries) :
    sizeOf e.2 < 1 + sizeOf entries := by
  have hlt := List.sizeOf_lt_of_mem h
  obtain ⟨k, v⟩ := e
  rw [Prod.mk.sizeOf_spec] at hlt
  dsimp only
  omega

theorem keyText_ok_iff {k : Value} : (∃ name, k.keyText = .ok name) ↔ k.IsKey := by
  constructor
  · rintro ⟨name, h⟩
    cases k with
    | string s => exact .string s
    | bool b => exact .bool b
    | number n =>
        cases n with
        | int n => exact .int n
        | float x =>
            rw [keyText] at h
            split at h
            next hx => exact .float hx
            next => cases h
    | _ => cases h
  · intro h
    cases h with
    | float hx => exact ⟨_, if_pos hx⟩
    | _ => exact ⟨_, rfl⟩

theorem toJsonItems_ok_iff {items : List Value} :
    (∃ js, toJsonItems items = .ok js) ↔ ∀ item ∈ items, ∃ j, item.toJson = .ok j := by
  induction items with
  | nil => exact ⟨fun _ => nofun, fun _ => ⟨[], rfl⟩⟩
  | cons item rest ih =>
      rw [List.forall_mem_cons, ← ih, toJsonItems]
      constructor
      · rintro ⟨js, h⟩
        obtain ⟨j, hj, hrest⟩ := bind_eq_ok.mp h
        obtain ⟨more, hmore, -⟩ := bind_eq_ok.mp hrest
        exact ⟨⟨j, hj⟩, more, hmore⟩
      · rintro ⟨⟨j, hj⟩, more, hmore⟩
        exact ⟨j :: more, bind_eq_ok.mpr ⟨j, hj, bind_eq_ok.mpr ⟨more, hmore, rfl⟩⟩⟩

theorem toJsonFields_ok_iff {entries : List (Value × Value)} :
    (∃ fields, toJsonFields entries = .ok fields) ↔
      (∀ e ∈ entries, e.1.IsKey) ∧ ∀ e ∈ entries, ∃ j, e.2.toJson = .ok j := by
  induction entries with
  | nil => exact ⟨fun _ => ⟨nofun, nofun⟩, fun _ => ⟨[], rfl⟩⟩
  | cons e rest ih =>
      obtain ⟨k, v⟩ := e
      rw [List.forall_mem_cons, List.forall_mem_cons, and_and_and_comm, ← ih, ← keyText_ok_iff,
        toJsonFields]
      constructor
      · rintro ⟨fields, h⟩
        obtain ⟨name, hname, hrest⟩ := bind_eq_ok.mp h
        obtain ⟨j, hj, hrest⟩ := bind_eq_ok.mp hrest
        obtain ⟨more, hmore, -⟩ := bind_eq_ok.mp hrest
        exact ⟨⟨⟨name, hname⟩, j, hj⟩, more, hmore⟩
      · rintro ⟨⟨⟨name, hname⟩, j, hj⟩, more, hmore⟩
        exact ⟨(name, j) :: more, bind_eq_ok.mpr ⟨name, hname, bind_eq_ok.mpr ⟨j, hj,
          bind_eq_ok.mpr ⟨more, hmore, rfl⟩⟩⟩⟩

/-- **Data is what can be taken for data.** -/
theorem toJson_ok_iff (v : Value) (hv : v.Plain) : (∃ j, v.toJson = .ok j) ↔ v.IsData := by
  match v with
  | .null => exact ⟨fun _ => .null, fun _ => ⟨_, rfl⟩⟩
  | .bool b => exact ⟨fun _ => .bool b, fun _ => ⟨_, rfl⟩⟩
  | .number n => exact ⟨fun _ => .number n, fun _ => by cases n <;> exact ⟨_, rfl⟩⟩
  | .string s => exact ⟨fun _ => .string s, fun _ => ⟨_, rfl⟩⟩
  | .list items =>
      cases hv with
      | list hplain =>
          have hall : (∃ js, toJsonItems items = .ok js) ↔ ∀ item ∈ items, item.IsData := by
            rw [toJsonItems_ok_iff]
            refine forall₂_congr fun item hitem => ?_
            have hlt := List.sizeOf_lt_of_mem hitem
            exact toJson_ok_iff item (hplain item hitem)
          have hlist : (∃ j, (Value.list items).toJson = .ok j) ↔ ∃ js, toJsonItems items = .ok js := by
            rw [toJson]
            simp only [bind_eq_ok, pure_eq_ok]
            exact ⟨fun ⟨_, js, hjs, _⟩ => ⟨js, hjs⟩, fun ⟨js, hjs⟩ => ⟨_, js, hjs, rfl⟩⟩
          rw [hlist, hall]
          exact ⟨.list, fun h => by cases h; assumption⟩
  | .map entries =>
      cases hv with
      | map _ _ hplain =>
          have hall : (∃ fields, toJsonFields entries = .ok fields) ↔
              (∀ e ∈ entries, e.1.IsKey) ∧ ∀ e ∈ entries, e.2.IsData := by
            rw [toJsonFields_ok_iff]
            refine and_congr_right fun _ => forall₂_congr fun e he => ?_
            have hlt := sizeOf_value he
            exact toJson_ok_iff e.2 (hplain e he)
          have hmap : (∃ j, (Value.map entries).toJson = .ok j) ↔
              ∃ fields, toJsonFields entries = .ok fields := by
            rw [toJson]
            simp only [bind_eq_ok, pure_eq_ok]
            exact ⟨fun ⟨_, fields, hfields, _⟩ => ⟨fields, hfields⟩,
              fun ⟨fields, hfields⟩ => ⟨_, fields, hfields, rfl⟩⟩
          rw [hmap, hall]
          exact ⟨fun h => .map h.1 h.2, fun h => by cases h; exact ⟨‹_›, ‹_›⟩⟩
  | .tagged tag value => cases hv
termination_by sizeOf v

end Yaml.Value

namespace Loader

open Yaml (Value)
open Yaml.Value (IsText IsNatural IsData Plain entriesOf)

mutual

/-- **The values that are tasks.** -/
inductive IsTask : Value → Prop
  | name (id : String) : IsTask (.string id)
  | map {before after : List (String × Value)} {id : String} {head : Value}
      (hnames : NamesTask before id after) (hhead : IsHead head)
      (hothers : ∀ key v, (key, v) ∈ before ++ after → IsOther head key v) :
      IsTask (.map (entriesOf (before ++ (id, head) :: after)))

/-- What may stand under the key that names a task: nothing, its data, or its children. -/
inductive IsHead : Value → Prop
  | nothing : IsHead .null
  | data {v : Value} {text : String} (hv : v.IsText text) : IsHead v
  | children {items : List Value} (hitems : ∀ item ∈ items, IsTask item) : IsHead (.list items)

/-- What may stand under any other key, where `head` stands under the key that names the task. -/
inductive IsOther : Value → String → Value → Prop
  | text {head : Value} {key : String} {v : Value} {text : String} (hkey : key = "name" ∨ key = "when")
      (hv : v.IsText text) : IsOther head key v
  | number {head : Value} {key : String} {n : Nat}
      (hkey : key = "delay" ∨ key = "repeat" ∨ key = "timeout" ∨ key = "threads") (hn : n < Nat.pow 2 64) :
      IsOther head key (.number (.int n))
  | noVars {head : Value} : IsOther head "vars" .null
  | vars {head : Value} {fields : List (String × Value)} (hfields : ∀ f ∈ fields, f.2.IsData) :
      IsOther head "vars" (.map (entriesOf fields))
  | noChildren {head : Value} (hfree : ∀ first rest, head ≠ .list (first :: rest)) :
      IsOther head "tasks" .null
  | children {head : Value} {items : List Value} (hfree : ∀ first rest, head ≠ .list (first :: rest))
      (hitems : ∀ item ∈ items, IsTask item) : IsOther head "tasks" (.list items)
  | own {head : Value} {key : String} {v : Value} (hkey : key ∉ reservedKeys) (hv : v.IsData) :
      IsOther head key v

end

/-! ### What is read, and what can be read -/

section

variable {path key id : String} {v head : Value} {t : Task} {fields : List (String × Value)}

theorem mem_entriesOf {f : String × Value} (h : f ∈ fields) : (.string f.1, f.2) ∈ entriesOf fields :=
  List.mem_map.mpr ⟨f, h, rfl⟩

theorem plain_fields (hplain : (Value.map (entriesOf fields)).Plain) :
    (Table.keys fields).Nodup ∧ ∀ f ∈ fields, f.2.Plain := by
  cases hplain with
  | map hdistinct _ hvalues =>
      exact ⟨Yaml.Value.keys_nodup_of_entriesOf hdistinct, fun f hf => hvalues _ (mem_entriesOf hf)⟩

theorem isData_of_names {named : List (String × Json)} (hplain : ∀ f ∈ fields, f.2.Plain)
    (h : List.Forall₂ Names fields named) : ∀ f ∈ fields, f.2.IsData := by
  induction h with
  | nil => nofun
  | cons hname _ ih =>
      rw [List.forall_mem_cons] at hplain ⊢
      exact ⟨(Yaml.Value.toJson_ok_iff _ hplain.1).mp ⟨_, hname.2⟩, ih hplain.2⟩

theorem exists_names (hplain : ∀ f ∈ fields, f.2.Plain) (h : ∀ f ∈ fields, f.2.IsData) :
    ∃ named, List.Forall₂ Names fields named := by
  induction fields with
  | nil => exact ⟨[], .nil⟩
  | cons f rest ih =>
      rw [List.forall_mem_cons] at hplain h
      obtain ⟨j, hj⟩ := (Yaml.Value.toJson_ok_iff _ hplain.1).mpr h.1
      obtain ⟨named, hnamed⟩ := ih hplain.2 h.2
      exact ⟨(f.1, j) :: named, .cons ⟨rfl, hj⟩ hnamed⟩

/-- What can be entered under a key is of the form for this key. -/
theorem Enterable.isOther (hv : v.Plain) (hentry : Enterable path (key, v))
    (hfree : key = "tasks" → ∀ first rest, head ≠ .list (first :: rest))
    (hitems : ∀ items, v = .list items → ∀ item ∈ items, ∀ path t, task path item = .ok t → IsTask item) :
    IsOther head key v := by
  rcases hentry with hsetting | ⟨rfl, ts, hts⟩
  · cases hsetting with
    | name hv => exact .text (Or.inl rfl) hv
    | guard hv => exact .text (Or.inr rfl) hv
    | number hkey hn =>
        cases hn with
        | number hn => exact .number (by simpa using hkey) hn
    | vars hvars =>
        cases hvars with
        | null => exact .noVars
        | map hnamed => exact .vars (isData_of_names (plain_fields hv).2 hnamed)
    | own hkey hj => exact .own hkey ((Yaml.Value.toJson_ok_iff v hv).mp ⟨_, hj⟩)
  · dsimp only at hts
    cases v with
    | null => exact .noChildren (hfree rfl)
    | list items =>
        refine .children (hfree rfl) fun item hitem => ?_
        obtain ⟨path, t, ht⟩ := exists_task_of_mem hts hitem
        exact hitems items rfl item hitem path t ht
    | _ => cases hts

/-- What is of the form for a key can be entered under it. -/
theorem IsOther.enterable (hv : v.Plain) (hother : IsOther head key v)
    (hitems : ∀ items, v = .list items → ∀ item ∈ items, IsTask item → ∀ path, ∃ t, task path item = .ok t) :
    Enterable path (key, v) := by
  cases hother with
  | text hkey hv =>
      rcases hkey with rfl | rfl
      · exact Or.inl (.name hv)
      · exact Or.inl (.guard hv)
  | number hkey hn => exact Or.inl (.number (by simpa using hkey) (.number hn))
  | noVars => exact Or.inl (.vars .null)
  | vars hfields =>
      obtain ⟨named, hnamed⟩ := exists_names (plain_fields hv).2 hfields
      exact Or.inl (.vars (.map hnamed))
  | noChildren => exact Or.inr ⟨rfl, [], rfl⟩
  | @children _ items _ htasks =>
      exact Or.inr ⟨rfl, exists_tasks fun item hitem => hitems items rfl item hitem (htasks item hitem)⟩
  | own hkey hdata =>
      obtain ⟨j, hj⟩ := (Yaml.Value.toJson_ok_iff v hv).mpr hdata
      exact Or.inl (.own hkey hj)

theorem mem_middle {α : Type} {xs ys : List α} {x y : α} (h : y ∈ xs ++ ys) : y ∈ xs ++ x :: ys := by
  rw [List.mem_append] at h ⊢
  exact h.imp_right (List.mem_cons_of_mem _)

theorem nodup_others {before after : List (String × Value)}
    (h : (Table.keys (before ++ (id, v) :: after)).Nodup) : (Table.keys (before ++ after)).Nodup := by
  refine h.sublist (List.Sublist.map _ ?_)
  exact List.Sublist.append_left (List.sublist_cons_self ..) before

/-- The items under a key of a map are smaller than the map. -/
theorem sizeOf_item {entries : List (Value × Value)} {f : String × Value} {items : List Value} {item : Value}
    (hentries : entries = entriesOf fields) (hf : f ∈ fields) (hitems : f.2 = .list items)
    (hitem : item ∈ items) : sizeOf item < sizeOf (Value.map entries) := by
  have hvalue := Yaml.Value.sizeOf_value (mem_entriesOf hf)
  have hlt := List.sizeOf_lt_of_mem hitem
  dsimp only at hvalue
  rw [hitems, Value.list.sizeOf_spec] at hvalue
  rw [hentries, Value.map.sizeOf_spec]
  omega

theorem plain_item {items : List Value} {item : Value} (hv : v.Plain) (hitems : v = .list items)
    (hitem : item ∈ items) : item.Plain := by
  rw [hitems] at hv
  cases hv with
  | list hplain => exact hplain item hitem

theorem IsTask.exists_entries {entries : List (Value × Value)} (h : IsTask (.map entries)) :
    ∃ before id head after, entries = entriesOf (before ++ (id, head) :: after) ∧
      NamesTask before id after ∧ IsHead head ∧
      ∀ key v, (key, v) ∈ before ++ after → IsOther head key v := by
  cases h with
  | map hnames hhead hothers => exact ⟨_, _, _, _, rfl, hnames, hhead, hothers⟩

/-- Children stand under `tasks` only if no others stand under the key that names the task. -/
theorem IsOther.free (h : IsOther head key v) (hkey : key = "tasks") (first : Value) (rest : List Value) :
    head ≠ .list (first :: rest) := by
  cases h with
  | noChildren hfree => exact hfree first rest
  | children hfree => exact hfree first rest
  | text htext => simp [hkey] at htext
  | number hnumber => simp [hkey] at hnumber
  | noVars => simp at hkey
  | vars => simp at hkey
  | own hown =>
      rw [hkey] at hown
      exact (hown (by decide)).elim

theorem Heads.children_eq_nil (h : Heads path id head t) (hfree : ∀ first rest, head ≠ .list (first :: rest)) :
    t.children = [] := by
  cases h with
  | @children items children hchildren =>
      cases items with
      | nil =>
          cases hchildren
          rfl
      | cons first rest => exact (hfree first rest rfl).elim
  | _ => rfl

/-- **What is read as a task is one.** -/
theorem isTask_of_ok (v : Value) (hv : v.Plain) {path : String} {t : Task} (h : task path v = .ok t) :
    IsTask v := by
  match v with
  | .string id => exact .name id
  | .map entries =>
      obtain ⟨before, id, head, after, named, hentries, hnames, hhead, hothers⟩ := (task_eq_ok hv).mp h
      have hmap := hv
      rw [hentries] at hmap
      obtain ⟨hdistinct, hplain⟩ := plain_fields hmap
      have hitems (f : String × Value) (hf : f ∈ before ++ (id, head) :: after) (items : List Value)
          (hlist : f.2 = .list items) (item : Value) (hitem : item ∈ items) (path : String) (t : Task)
          (ht : task path item = .ok t) : IsTask item :=
        have hlt := sizeOf_item hentries hf hlist hitem
        isTask_of_ok item (plain_item (hplain f hf) hlist hitem) ht
      have hothersPlain (f : String × Value) (hf : f ∈ before ++ after) : f.2.Plain :=
        hplain f (mem_middle hf)
      obtain ⟨hentered, hfree⟩ := enterable_of_foldlM (nodup_others hdistinct) hothersPlain hothers
      rw [hentries]
      refine .map hnames ?_ fun key v hmem => ?_
      · cases hhead with
        | nothing => exact .nothing
        | data htext => exact .data htext
        | @children items _ hchildren =>
            refine .children fun item hitem => ?_
            obtain ⟨path, t, ht⟩ := exists_task_of_mem hchildren hitem
            exact hitems (id, .list items) (List.mem_append_right _ (List.mem_cons_self ..)) items rfl item
              hitem path t ht
      · refine (hentered _ hmem).isOther (hothersPlain _ hmem) (fun hkey first rest hlist => ?_)
          (hitems _ (mem_middle hmem))
        subst hlist
        cases hhead with
        | children hchildren =>
            have hnone := hfree (by rw [← hkey]; exact List.mem_map.mpr ⟨_, hmem, rfl⟩)
            dsimp only at hnone
            rw [hnone] at hchildren
            cases forall₂_of_tasks hchildren
        | data htext => cases htext
  | .null | .bool _ | .number _ | .list _ => cases h
  | .tagged _ _ => cases hv
termination_by sizeOf v
decreasing_by exact hlt

/-- **What is a task is read as one**, wherever it stands. -/
theorem exists_task (v : Value) (hv : v.Plain) (htask : IsTask v) (path : String) :
    ∃ t, task path v = .ok t := by
  match v with
  | .string id => exact ⟨_, rfl⟩
  | .map entries =>
      obtain ⟨before, id, head, after, hentries, hnames, hhead, hothers⟩ := htask.exists_entries
      have hmap := hv
      rw [hentries] at hmap
      obtain ⟨hdistinct, hplain⟩ := plain_fields hmap
      have hitems (f : String × Value) (hf : f ∈ before ++ (id, head) :: after) (items : List Value)
          (hlist : f.2 = .list items) (item : Value) (hitem : item ∈ items) (htask : IsTask item)
          (path : String) : ∃ t, task path item = .ok t :=
        have hlt := sizeOf_item hentries hf hlist hitem
        exists_task item (plain_item (hplain f hf) hlist hitem) htask path
      have hnamed : ∃ named, Heads path id head named := by
        cases hhead with
        | nothing => exact ⟨_, .nothing⟩
        | data htext => exact ⟨_, .data htext⟩
        | @children items htasks =>
            obtain ⟨children, hchildren⟩ := exists_tasks fun item hitem =>
              hitems (id, .list items) (List.mem_append_right _ (List.mem_cons_self ..)) items rfl item hitem
                (htasks item hitem)
            exact ⟨_, .children hchildren⟩
      obtain ⟨named, hnamed⟩ := hnamed
      have hfree (hmem : "tasks" ∈ Table.keys (before ++ after)) : named.children = [] := by
        obtain ⟨⟨_, v⟩, hf, rfl⟩ := List.mem_map.mp hmem
        exact hnamed.children_eq_nil ((hothers _ _ hf).free rfl)
      obtain ⟨t, ht⟩ := exists_foldlM_enter (nodup_others hdistinct)
        (fun f hf => hplain f (mem_middle hf))
        (fun f hf => (hothers f.1 f.2 hf).enterable (hplain f (mem_middle hf)) (hitems f (mem_middle hf)))
        named hfree
      exact ⟨t, (task_eq_ok hv).mpr ⟨before, id, head, after, named, hentries, hnames, hnamed, ht⟩⟩
  | .null | .bool _ | .number _ | .list _ => cases htask
  | .tagged _ _ => cases hv
termination_by sizeOf v
decreasing_by exact hlt

end

/-! ### Where a task stands does not matter -/

/-- **A value is read as a task** wherever it stands. -/
def Reads (v : Value) (t : Task) : Prop :=
  ∀ path, task path v = .ok t

section

variable {path path' key id : String} {v head : Value} {t t' : Task} {fields : List (String × Value)}

theorem tasks_of_reads {items : List Value} {ts : List Task} (h : List.Forall₂ Reads items ts)
    (index : Nat) : tasks path index items = .ok ts := by
  induction h generalizing index with
  | nil => rfl
  | cons hread _ ih =>
      rw [tasks, bind_eq_ok]
      exact ⟨_, hread _, map_eq_ok.mpr ⟨_, ih (index + 1), rfl⟩⟩

theorem reads_of_tasks {items : List Value} {ts : List Task} {index : Nat}
    (hitems : ∀ item ∈ items, ∀ path t, task path item = .ok t → Reads item t)
    (h : tasks path index items = .ok ts) : List.Forall₂ Reads items ts := by
  have hall := forall₂_of_tasks h
  clear h
  induction hall with
  | nil => exact .nil
  | cons hread _ ih =>
      rw [List.forall_mem_cons] at hitems
      obtain ⟨path, ht⟩ := hread
      exact .cons (hitems.1 path _ ht) (ih hitems.2)

theorem Enters.elsewhere {f : String × Value} (h : Enters path f t t')
    (hlist : ∀ ts, taskList path f.2 = .ok ts → taskList path' f.2 = .ok ts) : Enters path' f t t' := by
  cases h with
  | name hv => exact .name hv
  | vars hv => exact .vars hv
  | guard hv => exact .guard hv
  | delay hv => exact .delay hv
  | repetitions hv => exact .repetitions hv
  | timeout hv => exact .timeout hv
  | threads hv => exact .threads hv
  | children hfree hts => exact .children hfree (hlist _ hts)
  | own hkey hj => exact .own hkey hj

theorem foldlM_elsewhere (hplain : ∀ f ∈ fields, f.2.Plain)
    (hlist : ∀ f ∈ fields, ∀ ts, taskList path f.2 = .ok ts → taskList path' f.2 = .ok ts)
    (h : fields.foldlM (enter path) t = .ok t') : fields.foldlM (enter path') t = .ok t' := by
  induction fields generalizing t with
  | nil => exact h
  | cons f rest ih =>
      rw [List.foldlM_cons, bind_eq_ok] at h ⊢
      rw [List.forall_mem_cons] at hplain hlist
      obtain ⟨s, hs, hrest⟩ := h
      rw [enter_eq_ok hplain.1] at hs
      exact ⟨s, (enter_eq_ok hplain.1).mpr (hs.elsewhere hlist.1), ih hplain.2 hlist.2 hrest⟩

/-- **What is read as a task somewhere is read so everywhere.** -/
theorem reads_of_ok (v : Value) (hv : v.Plain) {path : String} {t : Task} (h : task path v = .ok t) :
    Reads v t := by
  match v with
  | .string id => exact fun _ => h
  | .map entries =>
      intro path'
      obtain ⟨before, id, head, after, named, hentries, hnames, hhead, hothers⟩ := (task_eq_ok hv).mp h
      have hmap := hv
      rw [hentries] at hmap
      obtain ⟨hdistinct, hplain⟩ := plain_fields hmap
      have hitems (f : String × Value) (hf : f ∈ before ++ (id, head) :: after) (items : List Value)
          (hlist : f.2 = .list items) (item : Value) (hitem : item ∈ items) (path : String) (t : Task)
          (ht : task path item = .ok t) : Reads item t :=
        have hlt := sizeOf_item hentries hf hlist hitem
        reads_of_ok item (plain_item (hplain f hf) hlist hitem) ht
      refine (task_eq_ok hv).mpr ⟨before, id, head, after, named, hentries, hnames, ?_, ?_⟩
      · cases hhead with
        | nothing => exact .nothing
        | data htext => exact .data htext
        | @children items _ hchildren =>
            have hread := reads_of_tasks
              (hitems (id, .list items) (List.mem_append_right _ (List.mem_cons_self ..)) items rfl) hchildren
            exact .children (tasks_of_reads hread 0)
      · refine foldlM_elsewhere (fun f hf => hplain f (mem_middle hf)) (fun f hf ts hts => ?_) hothers
        obtain ⟨key, value⟩ := f
        cases value with
        | null => exact hts
        | list items =>
            exact tasks_of_reads (reads_of_tasks (hitems _ (mem_middle hf) items rfl) hts) 0
        | _ => cases hts
  | .null | .bool _ | .number _ | .list _ => cases h
  | .tagged _ _ => cases hv
termination_by sizeOf v
decreasing_by exact hlt

end

/-! ### What a task is made of -/

/-- **An entry gives a variable**: one under a key that is no setting gives the variable of this name, and
that of the variables gives those of its map. -/
inductive GivesVar : String × Value → String → Json → Prop
  | own {name : String} {v : Value} {j : Json} (hname : name ∉ reservedKeys) (hj : v.toJson = .ok j) :
      GivesVar (name, v) name j
  | within {fields : List (String × Value)} {name : String} {v : Value} {j : Json}
      (hmem : (name, v) ∈ fields) (hj : v.toJson = .ok j) : GivesVar ("vars", .map (entriesOf fields)) name j

/-- An entry gives a variable, and no later entry does. -/
def GivenLast (fields : List (String × Value)) (name : String) (j : Json) : Prop :=
  ∃ first f rest, fields = first ++ f :: rest ∧ GivesVar f name j ∧ ∀ g ∈ rest, ∀ j', ¬GivesVar g name j'

section

variable {path key id name : String} {v head : Value} {t t' : Task} {fields : List (String × Value)}
variable {f : String × Value} {j : Json}

theorem mem_of_names {named : List (String × Json)} (h : List.Forall₂ Names fields named) :
    (name, j) ∈ named ↔ ∃ v, (name, v) ∈ fields ∧ v.toJson = .ok j := by
  induction h with
  | nil => simp
  | @cons f var fields named hname _ ih =>
      obtain ⟨key, v⟩ := f
      obtain ⟨key', j'⟩ := var
      obtain ⟨rfl, hj⟩ := hname
      dsimp only at hj
      rw [List.mem_cons, ih]
      constructor
      · rintro (heq | ⟨w, hmem, hw⟩)
        · cases heq
          exact ⟨v, List.mem_cons_self .., hj⟩
        · exact ⟨w, List.mem_cons_of_mem _ hmem, hw⟩
      · rintro ⟨w, hmem, hw⟩
        rcases List.mem_cons.mp hmem with heq | hmem
        · cases heq
          rw [hj] at hw
          cases hw
          exact Or.inl rfl
        · exact Or.inr ⟨w, hmem, hw⟩

/-- The variables that an entry gives have different names. -/
theorem Gives.nodup {named : List (String × Json)} (hf : f.2.Plain) (h : Gives f named) :
    (Table.keys named).Nodup := by
  cases h with
  | within hvars =>
      cases hvars with
      | null => exact List.nodup_nil
      | map hnamed =>
          rw [keys_of_names hnamed]
          exact (plain_fields hf).1
  | itself => exact List.nodup_singleton _
  | nothing => exact List.nodup_nil

theorem entriesOf_injective : Function.Injective entriesOf := by
  refine List.map_injective_iff.mpr fun f g h => ?_
  obtain ⟨hkey, hvalue⟩ := Prod.mk.inj h
  exact Prod.ext (Value.string.inj hkey) hvalue

theorem givesVar_iff : GivesVar (key, v) name j ↔
    key = name ∧ name ∉ reservedKeys ∧ v.toJson = .ok j ∨
      key = "vars" ∧ ∃ fields w, v = .map (entriesOf fields) ∧ (name, w) ∈ fields ∧ w.toJson = .ok j := by
  constructor
  · intro h
    cases h with
    | own hname hj => exact Or.inl ⟨rfl, hname, hj⟩
    | within hmem hj => exact Or.inr ⟨rfl, _, _, rfl, hmem, hj⟩
  · rintro (⟨rfl, hname, hj⟩ | ⟨rfl, fields, w, rfl, hmem, hj⟩)
    · exact .own hname hj
    · exact .within hmem hj

/-- What is read from an entry is what the entry gives. -/
theorem Gives.mem_iff {named : List (String × Json)} (h : Gives f named) :
    (name, j) ∈ named ↔ GivesVar f name j := by
  cases h with
  | within hvars =>
      rw [givesVar_iff]
      cases hvars with
      | null =>
          refine ⟨nofun, ?_⟩
          rintro (⟨rfl, hname, -⟩ | ⟨-, _, _, hnull, -⟩)
          · exact (hname (by decide)).elim
          · cases hnull
      | map hnamed =>
          rw [mem_of_names hnamed]
          constructor
          · rintro ⟨v, hmem, hj⟩
            exact Or.inr ⟨rfl, _, v, rfl, hmem, hj⟩
          · rintro (⟨rfl, hname, -⟩ | ⟨-, fields, w, hfields, hmem, hj⟩)
            · exact (hname (by decide)).elim
            · rw [entriesOf_injective (Value.map.inj hfields)]
              exact ⟨w, hmem, hj⟩
  | itself hkey hj =>
      rw [givesVar_iff, List.mem_singleton, Prod.mk.injEq]
      constructor
      · rintro ⟨rfl, rfl⟩
        exact Or.inl ⟨rfl, hkey, hj⟩
      · rintro (⟨rfl, -, hj'⟩ | ⟨rfl, -⟩)
        · rw [hj] at hj'
          exact ⟨rfl, (Except.ok.inj hj').symm⟩
        · exact (hkey (by decide)).elim
  | nothing hkey hvars =>
      rw [givesVar_iff]
      refine ⟨nofun, ?_⟩
      rintro (⟨rfl, hname, -⟩ | ⟨hname, -⟩)
      · exact (hname hkey).elim
      · exact (hvars hname).elim

/-- **What one entry does to the variables**: those it gives are those, and the others are what they were. -/
theorem Gives.get?_putAll {named : List (String × Json)} (hf : f.2.Plain) (h : Gives f named)
    (r : Roster Json) : Table.get? name (Roster.putAll r named) = some j ↔
      GivesVar f name j ∨ (∀ j', ¬GivesVar f name j') ∧ Table.get? name r = some j := by
  have hnone : name ∉ Table.keys named ↔ ∀ j', ¬GivesVar f name j' := by
    simp [Table.keys, h.mem_iff]
  rw [Roster.get?_putAll_of_nodup (h.nodup hf), h.mem_iff, hnone]

theorem givenLast_cons : GivenLast (f :: fields) name j ↔
    GivenLast fields name j ∨ GivesVar f name j ∧ ∀ g ∈ fields, ∀ j', ¬GivesVar g name j' := by
  constructor
  · rintro ⟨first, g, rest, hsplit, hgives, hlast⟩
    cases first with
    | nil =>
        obtain ⟨rfl, rfl⟩ := List.cons.inj hsplit
        exact Or.inr ⟨hgives, hlast⟩
    | cons _ first =>
        obtain ⟨rfl, rfl⟩ := List.cons.inj hsplit
        exact Or.inl ⟨first, g, rest, rfl, hgives, hlast⟩
  · rintro (⟨first, g, rest, rfl, hgives, hlast⟩ | ⟨hgives, hlast⟩)
    · exact ⟨f :: first, g, rest, rfl, hgives, hlast⟩
    · exact ⟨[], f, fields, rfl, hgives, hlast⟩

/-- **What entries do to the variables**: the last entry that gives a variable counts. -/
theorem get?_putAll_of_gives {named : List (List (String × Json))} (hplain : ∀ f ∈ fields, f.2.Plain)
    (h : List.Forall₂ Gives fields named) (r : Roster Json) :
    Table.get? name (Roster.putAll r named.flatten) = some j ↔
      GivenLast fields name j ∨
        (∀ f ∈ fields, ∀ j', ¬GivesVar f name j') ∧ Table.get? name r = some j := by
  induction h generalizing r with
  | nil =>
      have hnone : ¬GivenLast [] name j := by
        rintro ⟨first, f, rest, hsplit, -⟩
        cases first <;> cases hsplit
      simp [hnone, Roster.putAll]
  | @cons f first fields named hgives _ ih =>
      rw [List.forall_mem_cons] at hplain
      rw [List.flatten_cons, Roster.putAll_append, ih hplain.2, hgives.get?_putAll hplain.1,
        givenLast_cons, List.forall_mem_cons]
      tauto

/-- A variable that a single entry gives has the value of this entry, wherever it stands. -/
theorem givenLast_of_unique (hf : f ∈ fields) (hgives : GivesVar f name j)
    (hunique : ∀ g ∈ fields, ∀ j', GivesVar g name j' → g = f) (hdistinct : (Table.keys fields).Nodup) :
    GivenLast fields name j := by
  obtain ⟨first, rest, rfl⟩ := List.append_of_mem hf
  refine ⟨first, f, rest, rfl, hgives, fun g hg j' hother => ?_⟩
  have heq := hunique g (List.mem_append_right _ (List.mem_cons_of_mem _ hg)) j' hother
  have hsplit : Table.keys (first ++ f :: rest) = Table.keys first ++ f.1 :: Table.keys rest := by
    simp [Table.keys]
  rw [hsplit, List.nodup_append, List.nodup_cons] at hdistinct
  exact hdistinct.2.1.1 (List.mem_map.mpr ⟨g, hg, congrArg Prod.fst heq⟩)

end

/-- The data that stands under the key that names a task, if any. -/
inductive HoldsData : Value → Option String → Prop
  | text {v : Value} {text : String} (hv : v.IsText text) : HoldsData v (some text)
  | nothing : HoldsData .null none
  | children (items : List Value) : HoldsData (.list items) none

/-- The children that stand under the key that names a task. -/
inductive HoldsChildren : Value → List Task → Prop
  | text {v : Value} {text : String} (hv : v.IsText text) : HoldsChildren v []
  | nothing : HoldsChildren .null []
  | children {items : List Value} {ts : List Task} (hread : List.Forall₂ Reads items ts) :
      HoldsChildren (.list items) ts

/-- The children that stand under `tasks`. -/
inductive ListsChildren : Value → List Task → Prop
  | nothing : ListsChildren .null []
  | children {items : List Value} {ts : List Task} (hread : List.Forall₂ Reads items ts) :
      ListsChildren (.list items) ts

/-- **What a task is made of**: what stands under the key that names it, and what the other entries say. -/
structure Described (id : String) (head : Value) (others : List (String × Value)) (t : Task) : Prop where
  id : t.id = id
  data : HoldsData head t.data
  name : Given others "name" IsSome none t.name
  guard : Given others "when" IsSome none t.guard
  delay : Given others "delay" Value.IsNatural 0 t.delay
  repetitions : Given others "repeat" Value.IsNatural 0 t.repetitions
  timeout : Given others "timeout" Value.IsNatural 10 t.timeout
  threads : Given others "threads" Value.IsNatural 2 t.threads
  children : ∃ inline, HoldsChildren head inline ∧ Given others "tasks" ListsChildren inline t.children
  distinct : (Table.keys t.vars).Nodup
  vars : ∀ name j, Table.get? name t.vars = some j ↔ GivenLast others name j
  alone : ∀ f ∈ others, ∀ name j, GivesVar f name j →
    (∀ g ∈ others, ∀ j', GivesVar g name j' → g = f) → Table.get? name t.vars = some j

section

variable {path id : String} {head : Value} {t named : Task} {fields : List (String × Value)}

theorem reads_of_plain {items : List Value} {ts : List Task} (hitems : (Value.list items).Plain)
    (h : tasks path 0 items = .ok ts) : List.Forall₂ Reads items ts :=
  reads_of_tasks (fun item hitem _ _ ht => reads_of_ok item (plain_item hitems rfl hitem) ht) h

theorem listsChildren_of_ok {v : Value} {ts : List Task} (hv : v.Plain) (h : taskList path v = .ok ts) :
    ListsChildren v ts := by
  cases v with
  | null =>
      cases h
      exact .nothing
  | list items => exact .children (reads_of_plain hv h)
  | _ => cases h

theorem Heads.exists_eq (hhead : head.Plain) (h : Heads path id head named) :
    ∃ data children, named = { id, data, children } ∧ HoldsData head data ∧ HoldsChildren head children := by
  cases h with
  | nothing => exact ⟨none, [], rfl, .nothing, .nothing⟩
  | @children items children hts =>
      exact ⟨none, children, rfl, .children items, .children (reads_of_plain hhead hts)⟩
  | @data _ text htext => exact ⟨some text, [], rfl, .text htext, .text htext⟩

theorem Entered.described {inner : String} (hdistinct : (Table.keys fields).Nodup)
    (hplain : ∀ f ∈ fields, f.2.Plain) (hhead : head.Plain) (hnamed : Heads path id head named)
    (h : Entered inner fields named t) : Described id head fields t := by
  obtain ⟨data, inline, rfl, hdata, hinline⟩ := hnamed.exists_eq hhead
  obtain ⟨vars, hgives, hvars⟩ := h.vars
  have hchildren := h.children.imp fun v hmem => listsChildren_of_ok (hplain ("tasks", v) hmem)
  have hlast (name : String) (j : Json) :
      Table.get? name t.vars = some j ↔ GivenLast fields name j := by
    rw [hvars, get?_putAll_of_gives hplain hgives]
    simp
  obtain ⟨hid, hdata', hname, hguard, hdelay, hrepeat, htimeout, hthreads, -, -⟩ := h
  refine ⟨hid, ?_, hname, hguard, hdelay, hrepeat, htimeout, hthreads, ⟨inline, hinline, hchildren⟩, ?_,
    hlast, fun f hf name j hgives hunique => ?_⟩
  · rw [hdata']
    exact hdata
  · rw [hvars]
    exact Roster.nodup_ofList _
  · exact (hlast name j).mpr (givenLast_of_unique hf hgives hunique hdistinct)

end

/-- **The grammar of tasks**: a value is read as a task if and only if it is one, and then nothing of it is
lost. -/
theorem task_grammar (path : String) (v : Value) (hv : v.Plain) :
    ((∃ t, task path v = .ok t) ↔ IsTask v) ∧
      ∀ t, task path v = .ok t →
        (∃ id, v = .string id ∧ t = { id }) ∨
        ∃ before id head after, v = .map (entriesOf (before ++ (id, head) :: after)) ∧
          NamesTask before id after ∧ Described id head (before ++ after) t := by
  refine ⟨⟨fun ⟨t, ht⟩ => isTask_of_ok v hv ht, fun htask => exists_task v hv htask path⟩, fun t ht => ?_⟩
  have htask := isTask_of_ok v hv ht
  cases htask with
  | name id =>
      cases ht
      exact Or.inl ⟨id, rfl, rfl⟩
  | map =>
      obtain ⟨before, id, head, after, named, hentries, hnames, hhead, hothers⟩ := (task_eq_ok hv).mp ht
      rw [hentries] at hv ⊢
      obtain ⟨hdistinct, hplain⟩ := plain_fields hv
      have hothersPlain (f : String × Value) (hf : f ∈ before ++ after) : f.2.Plain :=
        hplain f (mem_middle hf)
      have hentered := Entered.of_foldlM (nodup_others hdistinct) hothersPlain hothers
      exact Or.inr ⟨before, id, head, after, rfl, hnames, hentered.described
        (nodup_others hdistinct) hothersPlain (hplain _ (List.mem_append_right _ (List.mem_cons_self ..))) hhead⟩

/-- The entries of a task whose name stands among its settings, and which gives a variable twice. -/
def amongSettings : List (String × Value) :=
  [("vars", .map (entriesOf [("x", .number (.int 1)), ("y", .null)])), ("echo", .string "hi"),
    ("x", .number (.int 3)),
    ("tasks", .list [.string "noop", .map (entriesOf [("name", .string "last"), ("when", .null)])])]

/-- A task is read whose name stands among its settings: the variable is the later one, and a child of which
all keys are settings is a guard. -/
theorem task_grammar_amongSettings :
    (Value.map (entriesOf amongSettings)).Plain ∧ IsTask (.map (entriesOf amongSettings)) ∧
      ∃ t, task "main[0]" (.map (entriesOf amongSettings)) = .ok t ∧
        Table.get? "x" t.vars = some (.ofInt 3) ∧ t.children.map Task.id = ["noop", "when"] := by
  have hplain : (Value.map (entriesOf amongSettings)).Plain := by
    have hvars : (Value.map (entriesOf [("x", .number (.int 1)), ("y", .null)])).Plain :=
      Yaml.Value.plain_entriesOf (by decide) (by simp [Plain.number, Plain.null])
    have hlast : (Value.map (entriesOf [("name", .string "last"), ("when", .null)])).Plain :=
      Yaml.Value.plain_entriesOf (by decide) (by simp [Plain.string, Plain.null])
    have hchildren : (Value.list [.string "noop",
        .map (entriesOf [("name", .string "last"), ("when", .null)])]).Plain :=
      .list (by simp [Plain.string, hlast])
    exact Yaml.Value.plain_entriesOf (by decide) (by simp [amongSettings, Plain.string, Plain.number, *])
  exact ⟨hplain, (task_grammar "main[0]" _ hplain).1.mp ⟨_, rfl⟩, _, rfl, rfl, rfl⟩

end Loader

end Runsheet
