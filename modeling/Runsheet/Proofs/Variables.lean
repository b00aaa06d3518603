import Mathlib.Data.List.TakeWhile
import Runsheet.CommandLine.Commands
import Runsheet.Proofs.Entries
import Runsheet.Proofs.Plans
import Runsheet.Proofs.Seeding

/-!
# Where a variable of a run comes from

A run that is begun by a command takes its variables from three sources: the arguments of the command,
the configuration, and the playbook.  Of the arguments the last one for a name counts; an argument
counts more than the configuration, and both count more than the playbook.  An argument that assigns
nothing stops the command before the file with the playbook is read.

* `readVariable_eq_ok`, `readVariable_eq_error` — what one argument assigns, and when it assigns nothing;
* `readVariables_of_first`, `readVariables_of_all` — a list of arguments;
* `get?_initialContext` — the context of the chosen values;
* `begins_iff` — the context in which the work of a plan begins;
* `nodup_vars_of_readAll` — the playbooks of a file have each variable once;
* `arguments_over_configuration_over_playbook` — the result.
-/

namespace Runsheet

namespace Text

theorem trim_eq_empty_iff {s : String} : trim s = "" ↔ ∀ c ∈ s.toList, isBlank c = true := by
  have hlist : trim s = "" ↔ trimChars isBlank s.toList = [] := by
    rw [trim, ← String.toList_inj, String.toList_ofList]
    rfl
  rw [hlist, trimChars, dropRightWhile, List.reverse_eq_nil_iff, List.dropWhile_eq_nil_iff]
  constructor
  · intro hall
    -- What is left after the blanks at the front begins with a character that is not blank.
    by_cases hnone : s.toList.dropWhile isBlank = []
    · exact List.dropWhile_eq_nil_iff.mp hnone
    · have hhead := List.head_dropWhile_not isBlank hnone
      have hblank := hall _ (List.mem_reverse.mpr (List.head_mem hnone))
      rw [hblank] at hhead
      cases hhead
  · intro hall c hc
    rw [List.dropWhile_eq_nil_iff.mpr hall] at hc
    cases hc

end Text

namespace CommandLine

variable {arg name text : String} {args : List String}

/-! ### One argument -/

/-- **An argument assigns a text to a name**: the name stands before the first equals sign, perhaps with
blanks around it, and all that stands behind the sign is the text. -/
def Assigns (arg name text : String) : Prop :=
  ∃ before, arg = before ++ "=" ++ text ∧ '=' ∉ before.toList ∧ Text.trim before = name ∧ name ≠ ""

/-- **An argument assigns nothing** if it has no equals sign, or nothing but blanks before the first. -/
def AssignsNothing (arg : String) : Prop :=
  '=' ∉ arg.toList ∨ ∃ before text, arg = before ++ "=" ++ text ∧ '=' ∉ before.toList ∧
    ∀ c ∈ before.toList, Text.isBlank c = true

/-- The parts around the first equals sign. -/
theorem cutAt_eq_some {before text : String} : Text.cutAt '=' arg.toList =
    some (before.toList, text.toList) ↔ arg = before ++ "=" ++ text ∧ '=' ∉ before.toList := by
  have hparts : arg = before ++ "=" ++ text ↔ arg.toList = before.toList ++ '=' :: text.toList := by
    rw [← String.toList_inj]
    simp
  rw [hparts]
  constructor
  · exact Text.eq_of_cutAt
  · rintro ⟨heq, hfirst⟩
    rw [heq]
    exact Text.cutAt_append hfirst _

/-- What is read off an argument with an equals sign. -/
theorem readVariable_of_cut {before text : String} (heq : arg = before ++ "=" ++ text)
    (hfirst : '=' ∉ before.toList) : readVariable arg =
      if Text.trim before = "" then .error (variableProblem arg) else .ok (Text.trim before, text) := by
  have hcut := cutAt_eq_some.mpr ⟨heq, hfirst⟩
  unfold readVariable
  rw [hcut]
  simp only [String.ofList_toList]

/-- An argument has no equals sign, or parts around the first. -/
theorem cut_cases (arg : String) : '=' ∉ arg.toList ∨
    ∃ before text, arg = before ++ "=" ++ text ∧ '=' ∉ before.toList := by
  cases hcut : Text.cutAt '=' arg.toList with
  | none => exact Or.inl (Text.cutAt_eq_none_iff.mp hcut)
  | some parts =>
      obtain ⟨before, text⟩ := parts
      refine Or.inr ⟨String.ofList before, String.ofList text, cutAt_eq_some.mp ?_⟩
      rw [String.toList_ofList, String.toList_ofList]
      exact hcut

theorem readVariable_eq_ok : readVariable arg = .ok (name, text) ↔ Assigns arg name text := by
  constructor
  · intro hread
    rcases cut_cases arg with hnone | ⟨before, after, heq, hfirst⟩
    · unfold readVariable at hread
      rw [Text.cutAt_eq_none_iff.mpr hnone] at hread
      cases hread
    · rw [readVariable_of_cut heq hfirst] at hread
      split at hread
      · cases hread
      · next hname =>
        cases hread
        exact ⟨before, heq, hfirst, rfl, hname⟩
  · rintro ⟨before, heq, hfirst, rfl, hname⟩
    rw [readVariable_of_cut heq hfirst, if_neg hname]

theorem readVariable_eq_error {problem : String} : readVariable arg = .error problem ↔
    AssignsNothing arg ∧ problem = variableProblem arg := by
  rcases cut_cases arg with hnone | ⟨before, after, heq, hfirst⟩
  · have hread : readVariable arg = .error (variableProblem arg) := by
      unfold readVariable
      rw [Text.cutAt_eq_none_iff.mpr hnone]
    rw [hread]
    constructor
    · rintro ⟨⟩
      exact ⟨Or.inl hnone, rfl⟩
    · rintro ⟨-, rfl⟩
      rfl
  · rw [readVariable_of_cut heq hfirst]
    constructor
    · intro hread
      split at hread
      · next hname =>
        cases hread
        exact ⟨Or.inr ⟨before, after, heq, hfirst, Text.trim_eq_empty_iff.mp hname⟩, rfl⟩
      · cases hread
    · rintro ⟨hnothing, rfl⟩
      have hname : Text.trim before = "" := by
        rcases hnothing with hnone | ⟨before', after', heq', hfirst', hblank⟩
        · rw [heq] at hnone
          simp at hnone
        · have hsame := (cutAt_eq_some.mpr ⟨heq, hfirst⟩).symm.trans
            (cutAt_eq_some.mpr ⟨heq', hfirst'⟩)
          simp only [Option.some.injEq, Prod.mk.injEq, String.toList_inj] at hsame
          rw [hsame.1]
          exact Text.trim_eq_empty_iff.mpr hblank
      rw [if_pos hname]

/-- An argument that assigns something can be read. -/
theorem exists_assigns (hsome : ¬ AssignsNothing arg) :
    ∃ entry : String × String, readVariable arg = .ok entry ∧ Assigns arg entry.1 entry.2 := by
  cases hread : readVariable arg with
  | error problem => exact (hsome (readVariable_eq_error.mp hread).1).elim
  | ok entry => exact ⟨entry, rfl, readVariable_eq_ok.mp hread⟩

theorem Assigns.not_assignsNothing (h : Assigns arg name text) : ¬ AssignsNothing arg := by
  intro hnothing
  have hsame := (readVariable_eq_ok.mpr h).symm.trans (readVariable_eq_error.mpr ⟨hnothing, rfl⟩)
  cases hsame

theorem Assigns.unique {name' text' : String} (h : Assigns arg name text)
    (h' : Assigns arg name' text') : name = name' ∧ text = text' := by
  have hsame := (readVariable_eq_ok.mpr h).symm.trans (readVariable_eq_ok.mpr h')
  cases hsame
  exact ⟨rfl, rfl⟩

/-! ### A list of arguments -/

/-- **The last text for a name** among arguments. -/
def GivenLast (args : List String) (name text : String) : Prop :=
  ∃ earlier arg later, args = earlier ++ arg :: later ∧ Assigns arg name text ∧
    ∀ b ∈ later, ∀ other, ¬ Assigns b name other

theorem givenLast_cons : GivenLast (arg :: args) name text ↔
    GivenLast args name text ∨
      (Assigns arg name text ∧ ∀ b ∈ args, ∀ other, ¬ Assigns b name other) := by
  constructor
  · rintro ⟨earlier, b, later, hsplit, hassigns, hnone⟩
    cases earlier with
    | nil =>
        cases hsplit
        exact Or.inr ⟨hassigns, hnone⟩
    | cons first earlier =>
        cases hsplit
        exact Or.inl ⟨earlier, b, later, rfl, hassigns, hnone⟩
  · rintro (⟨earlier, b, later, rfl, hassigns, hnone⟩ | ⟨hassigns, hnone⟩)
    · exact ⟨arg :: earlier, b, later, rfl, hassigns, hnone⟩
    · exact ⟨[], arg, args, rfl, hassigns, hnone⟩

/-- Of arguments for a name there is a last one. -/
theorem exists_givenLast (h : ∃ b ∈ args, ∃ text, Assigns b name text) :
    ∃ text, GivenLast args name text := by
  induction args with
  | nil =>
      obtain ⟨b, hb, -⟩ := h
      cases hb
  | cons arg rest ih =>
      by_cases hrest : ∃ b ∈ rest, ∃ text, Assigns b name text
      · obtain ⟨text, hlast⟩ := ih hrest
        exact ⟨text, givenLast_cons.mpr (Or.inl hlast)⟩
      · have hnone : ∀ b ∈ rest, ∀ other, ¬ Assigns b name other :=
          fun b hb other hassigns => hrest ⟨b, hb, other, hassigns⟩
        obtain ⟨b, hb, text, hassigns⟩ := h
        rcases List.mem_cons.mp hb with rfl | hb
        · exact ⟨text, givenLast_cons.mpr (Or.inr ⟨hassigns, hnone⟩)⟩
        · exact (hnone b hb text hassigns).elim

/-- The first argument that assigns nothing is the problem. -/
theorem readVariables_of_first {earlier later : List String}
    (hearlier : ∀ b ∈ earlier, ¬ AssignsNothing b) (hnothing : AssignsNothing arg) :
    readVariables (earlier ++ arg :: later) = .error (variableProblem arg) := by
  have hproblem : (earlier ++ arg :: later).mapM readVariable = .error (variableProblem arg) := by
    induction earlier with
    | nil =>
        rw [List.nil_append, List.mapM_cons, readVariable_eq_error.mpr ⟨hnothing, rfl⟩]
        rfl
    | cons b rest ih =>
        obtain ⟨entry, hentry, -⟩ := exists_assigns (hearlier b (List.mem_cons_self ..))
        have hrest := ih fun b hb => hearlier b (List.mem_cons_of_mem _ hb)
        rw [List.cons_append, List.mapM_cons, hentry, hrest]
        rfl
  rw [readVariables, hproblem]
  rfl

/-- Arguments that all assign something are read one after the other. -/
theorem readVariables_of_all (hall : ∀ b ∈ args, ¬ AssignsNothing b) :
    ∃ entries, readVariables args = .ok (Table.ofList entries) ∧
      List.Forall₂ (fun arg entry => Assigns arg entry.1 entry.2) args entries := by
  have hread : ∃ entries, args.mapM readVariable = .ok entries ∧
      List.Forall₂ (fun arg entry => Assigns arg entry.1 entry.2) args entries := by
    induction args with
    | nil => exact ⟨[], rfl, .nil⟩
    | cons b rest ih =>
        obtain ⟨entry, hentry, hassigns⟩ := exists_assigns (hall b (List.mem_cons_self ..))
        obtain ⟨entries, hrest, hothers⟩ := ih fun b hb => hall b (List.mem_cons_of_mem _ hb)
        refine ⟨entry :: entries, ?_, .cons hassigns hothers⟩
        rw [List.mapM_cons, hentry, hrest]
        rfl
  obtain ⟨entries, hentries, hassign⟩ := hread
  refine ⟨entries, ?_, hassign⟩
  rw [readVariables, hentries]
  rfl

section

variable {entries : List (String × String)}

/-- A name without an entry is one that no argument assigns a text to. -/
theorem notMem_keys_iff (h : List.Forall₂ (fun arg entry => Assigns arg entry.1 entry.2) args entries) :
    name ∉ Table.keys entries ↔ ∀ b ∈ args, ∀ text, ¬ Assigns b name text := by
  induction h with
  | nil => simp [Table.keys]
  | @cons arg entry args entries hassigns _ ih =>
      have hkeys : name ∉ Table.keys (entry :: entries) ↔
          name ≠ entry.1 ∧ name ∉ Table.keys entries := by
        simp [Table.keys]
      rw [hkeys, ih, List.forall_mem_cons]
      refine and_congr_left fun _ => ?_
      constructor
      · intro hne text hassigns'
        exact hne (hassigns'.unique hassigns).1
      · rintro hno rfl
        exact hno entry.2 hassigns

/-- The last entry under a name is that of the last argument for it. -/
theorem lastUnder_iff (h : List.Forall₂ (fun arg entry => Assigns arg entry.1 entry.2) args entries) :
    Table.LastUnder name text entries ↔ GivenLast args name text := by
  induction h with
  | nil =>
      constructor
      · rintro ⟨earlier, later, hsplit, -⟩
        simp at hsplit
      · rintro ⟨earlier, arg, later, hsplit, -⟩
        simp at hsplit
  | @cons arg entry args entries hassigns hothers ih =>
      rw [Table.lastUnder_cons, givenLast_cons, ih, notMem_keys_iff hothers]
      refine or_congr_right (and_congr_left fun _ => ?_)
      constructor
      · rintro rfl
        exact hassigns
      · intro hassigns'
        exact Prod.ext (hassigns.unique hassigns').1 (hassigns.unique hassigns').2

end

/-! ### The context of the chosen values -/

/-- **What arguments and a configuration choose** for a name: the value of the last text that an argument
assigns to it and, if none does, the value of the text that is configured. -/
inductive Chosen (args : List String) (configured : Table String) (name : String) : Json → Prop
  | argument {text : String} (hlast : GivenLast args name text) :
      Chosen args configured name (variableValue text)
  | configured {text : String} (hnone : ∀ arg ∈ args, ∀ other, ¬ Assigns arg name other)
      (htext : Table.get? name configured = some text) :
      Chosen args configured name (variableValue text)

/-- Whoever is assigned a text or has one in the configuration gets a value. -/
theorem exists_chosen {configured : Table String}
    (h : (∃ b ∈ args, ∃ text, Assigns b name text) ∨ name ∈ Table.keys configured) :
    ∃ v, Chosen args configured name v := by
  by_cases hgiven : ∃ b ∈ args, ∃ text, Assigns b name text
  · obtain ⟨text, hlast⟩ := exists_givenLast hgiven
    exact ⟨_, .argument hlast⟩
  · have hnone : ∀ b ∈ args, ∀ other, ¬ Assigns b name other :=
      fun b hb other hassigns => hgiven ⟨b, hb, other, hassigns⟩
    have hkey : name ∈ Table.keys configured := h.resolve_left hgiven
    cases htext : Table.get? name configured with
    | some text => exact ⟨_, .configured hnone htext⟩
    | none => exact (Table.get?_eq_none_iff.mp htext hkey).elim

/-- The value of a text is a truth value, a number or a string. -/
theorem variableValue_cases (text : String) : (∃ b, variableValue text = .bool b) ∨
    (∃ n, variableValue text = .number n) ∨ ∃ s, variableValue text = .string s := by
  unfold variableValue
  split
  next v _ =>
    cases v with
    | bool b => exact Or.inl ⟨b, rfl⟩
    | string s => exact Or.inr (Or.inr ⟨s, rfl⟩)
    | number n =>
        cases n with
        | int n => exact Or.inr (Or.inl ⟨_, rfl⟩)
        | float x =>
            by_cases hfinite : x.isFinite = true
            · exact Or.inr (Or.inl ⟨_, if_pos hfinite⟩)
            · exact Or.inr (Or.inr ⟨_, if_neg hfinite⟩)
    | null | list _ | map _ | tagged _ _ => exact Or.inr (Or.inr ⟨text, rfl⟩)
  next => exact Or.inr (Or.inr ⟨text, rfl⟩)

theorem variableValue_isNull (text : String) : (variableValue text).isNull = false := by
  rcases variableValue_cases text with ⟨b, hvalue⟩ | ⟨n, hvalue⟩ | ⟨s, hvalue⟩
  · rw [hvalue]
    rfl
  · rw [hvalue]
    rfl
  · rw [hvalue]
    rfl

/-- Values of which none is null are all stored, the first one under each key. -/
theorem get?_seed_of_ne_null {entries : List (String × Json)}
    (hvalues : ∀ entry ∈ entries, entry.2.isNull = false) (c : Context) (key : String) :
    (c.seed entries).get? key = (c.get? key).or (Table.get? key entries) := by
  induction entries generalizing c with
  | nil => exact (Option.or_none ..).symm
  | cons entry rest ih =>
      obtain ⟨k, v⟩ := entry
      have hv : v.isNull = false := hvalues (k, v) (List.mem_cons_self ..)
      have hrest := ih fun entry hentry => hvalues entry (List.mem_cons_of_mem _ hentry)
      have hcons : c.seed ((k, v) :: rest) = (c.putAbsent k v).seed rest := rfl
      rw [hcons, hrest, Context.get?_putAbsent, hv, Table.get?]
      by_cases hk : k = key
      · rw [if_pos hk, if_pos hk, Option.or_assoc]
        rfl
      · rw [if_neg hk, if_neg hk]

theorem get?_initialContext (c : Configuration) (name : String) :
    (initialContext c).get? name = (Table.get? name c.vars).map variableValue := by
  have hvalues : ∀ entry ∈ Table.mapValues variableValue c.vars, entry.2.isNull = false := by
    intro entry hentry
    obtain ⟨var, -, rfl⟩ := List.mem_map.mp hentry
    exact variableValue_isNull var.2
  rw [← Table.get?_mapValues]
  exact get?_seed_of_ne_null hvalues {} name

/-- The context of the variables that arguments and a configuration give holds what they choose. -/
theorem chosen_iff {entries : List (String × String)}
    (h : List.Forall₂ (fun arg entry => Assigns arg entry.1 entry.2) args entries)
    (c : Configuration) {v : Json} :
    (initialContext (c.withVars (Table.ofList entries))).get? name = some v ↔
      Chosen args c.vars name v := by
  have hvars : Table.get? name (c.withVars (Table.ofList entries)).vars =
      (Table.get? name entries.reverse).or (Table.get? name c.vars) :=
    Table.get?_override_ofList name c.vars entries
  have hlast (text : String) : Table.get? name entries.reverse = some text ↔
      GivenLast args name text := by
    rw [Table.get?_reverse_eq_some_iff_last]
    exact lastUnder_iff h
  have hnone : Table.get? name entries.reverse = none ↔
      ∀ b ∈ args, ∀ other, ¬ Assigns b name other := by
    rw [Table.get?_eq_none_iff, ← notMem_keys_iff h, Table.keys, List.map_reverse, List.mem_reverse]
    rfl
  rw [get?_initialContext, hvars, Option.map_eq_some_iff]
  constructor
  · rintro ⟨text, htext, rfl⟩
    cases hfound : Table.get? name entries.reverse with
    | some found =>
        rw [hfound] at htext
        cases htext
        exact .argument ((hlast _).mp hfound)
    | none =>
        rw [hfound] at htext
        exact .configured (hnone.mp hfound) htext
  · intro hchosen
    cases hchosen with
    | @argument text hgiven =>
        rw [(hlast text).mpr hgiven]
        exact ⟨text, rfl, rfl⟩
    | @configured text hno htext =>
        rw [hnone.mpr hno, Option.none_or]
        exact ⟨text, htext, rfl⟩

/-! ### The context in which the work begins -/

/-- **What the work of a run finds** under a name in the beginning: what arguments and configuration
choose and, if they choose nothing, what the variable of the playbook stands for over the context of all
that they choose. -/
inductive Begins (g : Engine) (args : List String) (configured : Table String) (p : Playbook)
    (start : Context) (name : String) : Json → Prop
  | chosen {v : Json} (hchosen : Chosen args configured name v) :
      Begins g args configured p start name v
  | playbook {given v : Json} (hfree : ∀ other, ¬ Chosen args configured name other)
      (hvar : (name, given) ∈ p.vars) (hstands : g.StandsFor start.values given v) :
      Begins g args configured p start name v

theorem begins_iff {g : Engine} {configured : Table String} {p : Playbook} {plan : Plan}
    {start : Context} {v : Json} (hvars : (Table.keys p.vars).Nodup)
    (hstart : ∀ name v, start.get? name = some v ↔ Chosen args configured name v) :
    (g.prepare p plan { context := start }).context.get? name = some v ↔
      Begins g args configured p start name v := by
  rw [Engine.prepare_context, Engine.get?_seed g hvars]
  dsimp only
  cases hfound : start.get? name with
  | some found =>
      have hchosen := (hstart name found).mp hfound
      rw [Option.some_or]
      constructor
      · rintro ⟨⟩
        exact .chosen hchosen
      · intro hbegins
        cases hbegins with
        | chosen hother => rw [← hfound, (hstart name v).mpr hother]
        | playbook hfree _ _ => exact (hfree found hchosen).elim
  | none =>
      have hfree (other : Json) : ¬ Chosen args configured name other := by
        intro hchosen
        rw [(hstart name other).mpr hchosen] at hfound
        cases hfound
      rw [Option.none_or, Option.bind_eq_some_iff]
      constructor
      · rintro ⟨given, hgiven, hoffered⟩
        exact .playbook hfree (Table.mem_of_get? hgiven) (g.offered?_eq_some.mp hoffered)
      · intro hbegins
        cases hbegins with
        | chosen hchosen => exact (hfree v hchosen).elim
        | @playbook given _ _ hvar hstands =>
            exact ⟨given, Table.get?_of_mem hvars hvar, g.offered?_eq_some.mpr hstands⟩

end CommandLine

/-! ### The variables of a playbook -/

namespace Loader

open Yaml (Value)

theorem nodup_vars {path : String} {v : Value} {own : Roster Json} (h : vars path v = .ok own) :
    (Table.keys own).Nodup := by
  unfold vars at h
  split at h
  · cases h
    exact List.nodup_nil
  · obtain ⟨named, -, rfl⟩ := map_eq_ok.mp h
    exact Roster.nodup_ofList named
  · cases h

/-- A playbook has each of its variables once. -/
theorem nodup_vars_of_playbook {v : Value} {p : Playbook} (h : playbook v = .ok p) :
    (Table.keys p.vars).Nodup := by
  unfold playbook at h
  split at h
  next entries _ =>
    -- What is read last does not change the variables.
    have hlast {id : String} {name : Option String} {own : Roster Json} {tasks : Loaded (List Task)}
        (hown : (Table.keys own).Nodup)
        (h : (do
          let tasks ← tasks
          pure { id, name, vars := own, tasks }) = (.ok p : Loaded Playbook)) :
        (Table.keys p.vars).Nodup := by
      obtain ⟨tasks, -, h⟩ := bind_eq_ok.mp h
      cases h
      exact hown
    have hnone : (Table.keys ([] : Roster Json)).Nodup := List.nodup_nil
    dsimp only at h
    split at h
    · obtain ⟨id, -, h⟩ := bind_eq_ok.mp h
      split at h
      · cases h
      · split at h
        all_goals
          obtain ⟨name, -, h⟩ := bind_eq_ok.mp h
          split at h
          · obtain ⟨own, hown, h⟩ := bind_eq_ok.mp h
            split at h
            · exact hlast (nodup_vars hown) h
            · cases h
          · split at h
            · exact hlast hnone h
            · cases h
    · cases h
  next => cases h

theorem playbooks_mem {items : List Value} {ps : List Playbook} (h : playbooks items = .ok ps)
    {p : Playbook} (hp : p ∈ ps) : ∃ v, playbook v = .ok p := by
  induction items generalizing ps with
  | nil =>
      cases h
      cases hp
  | cons v rest ih =>
      obtain ⟨first, hfirst, h⟩ := bind_eq_ok.mp h
      obtain ⟨more, hmore, h⟩ := bind_eq_ok.mp h
      cases h
      rcases List.mem_cons.mp hp with rfl | hp
      · exact ⟨v, hfirst⟩
      · exact ih hmore hp

theorem document_mem {v : Value} {ps : List Playbook} (h : document v = .ok ps) {p : Playbook}
    (hp : p ∈ ps) : ∃ v, playbook v = .ok p := by
  unfold document at h
  split at h
  · cases h
    cases hp
  · exact playbooks_mem h hp
  · obtain ⟨only, honly, rfl⟩ := map_eq_ok.mp h
    obtain rfl := List.mem_singleton.mp hp
    exact ⟨v, honly⟩

theorem documents_mem {values : List Value} {ps : List Playbook} (h : documents values = .ok ps)
    {p : Playbook} (hp : p ∈ ps) : ∃ v, playbook v = .ok p := by
  induction values generalizing ps with
  | nil =>
      cases h
      cases hp
  | cons v rest ih =>
      obtain ⟨first, hfirst, h⟩ := bind_eq_ok.mp h
      obtain ⟨more, hmore, h⟩ := bind_eq_ok.mp h
      cases h
      rcases List.mem_append.mp hp with hp | hp
      · exact document_mem hfirst hp
      · exact ih hmore hp

end Loader

/-- **The playbooks of a file** have each variable once. -/
theorem Playbook.nodup_vars_of_readAll {text : String} {ps : List Playbook}
    (h : readAll text = .ok ps) {p : Playbook} (hp : p ∈ ps) : (Table.keys p.vars).Nodup := by
  obtain ⟨found, hfound, h⟩ := bind_eq_ok.mp h
  split at h
  · cases h
    obtain ⟨v, hv⟩ := Loader.documents_mem hfound hp
    exact Loader.nodup_vars_of_playbook hv
  · cases h

/-! ### The command -/

namespace CommandLine

section

variable {m : Type → Type} [Monad m] (sh : Shell m)

/-- Compiles a playbook or, if that is asked for, runs it on a context and tells how it ended. -/
def launch (s : Surroundings) (o : RunOptions) (p : Playbook) (start : Context) :
    ExceptT String m Unit := do
  let g : Engine := { evaluator := .standard s.setting }
  if o.dryRun then
    let _ ← orFail (fun f => "Playbook '" ++ p.id ++ "' is invalid: " ++ f.message) (g.plan p)
    sh.say ("✓ Playbook '" ++ p.id ++ "' is valid")
  else
    match g.run p start with
    | none => throw ("Playbook '" ++ p.id ++ "' gives no outcome")
    | some (outcome, w) =>
      sh.wait w.now
      let r ← orFail (fun f => "Playbook '" ++ p.id ++ "' could not run: " ++ f.message) outcome
      sayAll sh (endingLines p r)
      match o.output with
      | none => pure ()
      | some path =>
        orFail (fun e => "Failed to write output file '" ++ path ++ "': " ++ e.describe)
          (← sh.write path (summary p r w.context))
      if r.isFailed then throw ("Playbook '" ++ p.id ++ "' failed")

/-- To run a playbook of a file is to read the file, to select the playbook, and to launch it on the
context of the configuration. -/
theorem runPlaybook_eq (s : Surroundings) (c : Configuration) (o : RunOptions) :
    runPlaybook sh s c o = (do
      let ps ← loadPlaybooks sh o.file
      let p ← orFail id (selectPlaybook ps o.playbook)
      launch sh s o p (initialContext c)) :=
  rfl

end

/-- What is seen of the end of a run besides its log. -/
def seen (ending : Outcome × World) : Outcome × Context × Nat :=
  (ending.1, ending.2.context, ending.2.now)

/-- A run of a playbook with a plan is the work of the plan, unless the program breaks off before it; it only
notes in the log that it is over. -/
theorem run_seen {g : Engine} {p : Playbook} {plan : Plan} (hplan : g.plan p = .ok plan) (c : Context) :
    (g.run p c).map seen = if g.breaksOff c.values p.vars then none
      else ((plan.work g.evaluator).run patience (g.prepare p plan { context := c })).map seen := by
  unfold Engine.run
  rw [hplan]
  dsimp only
  by_cases hbreaks : g.breaksOff c.values p.vars = true
  · rw [if_pos hbreaks, if_pos hbreaks]
    rfl
  · rw [if_neg hbreaks, if_neg hbreaks]
    split
    next r w hwork =>
      rw [hwork]
      rfl
    next => rfl

section

variable {m : Type → Type} [Monad m] [LawfulMonad m]

theorem orFail_error_bind {ε α β : Type} (text : ε → String) (e : ε) (k : α → ExceptT String m β) :
    (orFail text (.error e : Except ε α) >>= k) = throw (text e) := by
  apply ExceptT.ext
  simp [orFail]

/-- **Arguments over configuration over playbook.**  For the command that runs a playbook of a file:

* if an argument assigns nothing, the command reads the configuration and then fails with the text of the
  first such argument, so that the file is not read and nothing runs;
* otherwise the run is launched on a context that depends on the configuration alone, and holds under each
  name the value of the last text that an argument assigns to it and, without one, of the configured text;
* the work of the plan begins with a context that holds, under each name, what has been chosen so and, if
  nothing has, what the variable of the playbook stands for over the context of the chosen values, unless
  the program breaks off while it evaluates one of them;
* a playbook of a file has each variable once; each name that is assigned or configured gets a value, and
  the value of a text is neither null nor a list or an object. -/
theorem arguments_over_configuration_over_playbook (sh : Shell m) (s : Surroundings) {a : Arguments}
    {o : RunOptions} (ha : a.command = .run o) :
    (∀ earlier arg later, o.vars = earlier ++ arg :: later → (∀ b ∈ earlier, ¬ AssignsNothing b) →
      AssignsNothing arg → perform sh s a = do
        let _ ← loadConfiguration sh s a.config
        throw ("Invalid variable format '" ++ arg ++ "'. Expected 'key=value'")) ∧
    ((∀ b ∈ o.vars, ¬ AssignsNothing b) → ∃ start : Configuration → Context,
      (perform sh s a = do
        let c ← loadConfiguration sh s a.config
        let ps ← loadPlaybooks sh o.file
        let p ← orFail id (selectPlaybook ps o.playbook)
        launch sh s o p (start c)) ∧
      ∀ c, (∀ name v, (start c).get? name = some v ↔ Chosen o.vars c.vars name v) ∧
        ∀ p plan, (Table.keys p.vars).Nodup →
          Engine.plan { evaluator := .standard s.setting } p = .ok plan → ∃ w,
            (∀ name v, w.context.get? name = some v ↔
              Begins { evaluator := .standard s.setting } o.vars c.vars p (start c) name v) ∧
            (Engine.run { evaluator := .standard s.setting } p (start c)).map seen =
              if Engine.breaksOff { evaluator := .standard s.setting } (start c).values p.vars then none
              else ((plan.work (.standard s.setting)).run patience w).map seen) ∧
    (∀ text ps p, Playbook.readAll text = .ok ps → p ∈ ps → (Table.keys p.vars).Nodup) ∧
    (∀ configured name, (∃ b ∈ o.vars, ∃ text, Assigns b name text) ∨ name ∈ Table.keys configured →
      ∃ v, Chosen o.vars configured name v) ∧
    ∀ text, (∃ b, variableValue text = .bool b) ∨ (∃ n, variableValue text = .number n) ∨
      ∃ t, variableValue text = .string t := by
  have hperform : perform sh s a = (do
      let c ← loadConfiguration sh s a.config
      let vars ← orFail id (readVariables o.vars)
      runPlaybook sh s (c.withVars vars) o) := by
    unfold perform
    rw [ha]
  refine ⟨?_, ?_, fun _ _ _ hread hp => Playbook.nodup_vars_of_readAll hread hp,
    fun _ _ hname => exists_chosen hname, variableValue_cases⟩
  · intro earlier arg later hsplit hearlier hnothing
    rw [hperform, hsplit, readVariables_of_first hearlier hnothing]
    simp only [orFail_error_bind]
    rfl
  · intro hall
    obtain ⟨entries, hread, hassign⟩ := readVariables_of_all hall
    refine ⟨fun c => initialContext (c.withVars (Table.ofList entries)), ?_, fun c => ?_⟩
    · rw [hperform, hread]
      simp only [orFail, pure_bind, runPlaybook_eq]
    · refine ⟨fun name v => chosen_iff hassign c, fun p plan hvars hplan => ?_⟩
      exact ⟨_, fun name v => begins_iff hvars fun name v => chosen_iff hassign c, run_seen hplan _⟩

end

/-- A run with a name that is given twice, once with blanks around it. -/
private def repeatedly : RunOptions where
  file := "play.yaml"
  vars := ["env=a", " env =b=c", "n=3"]

/-- A playbook that has a variable of that name, and one of its own. -/
private def polite : Playbook where
  id := "polite"
  vars := [("env", .string "mine"), ("greeting", .string "hello")]
  tasks := [{ id := "noop" }]

/-- The last argument counts with all that stands behind its first equals sign, and the playbook adds only what
nobody has chosen; an argument without a name is told by its text. -/
theorem arguments_over_configuration_over_playbook_repeatedly :
    (perform Shell.onDisk {} ⟨.run { repeatedly with vars := ["n=3", " = 4", "broken"] }, false, false, none⟩ = do
      let _ ← loadConfiguration Shell.onDisk {} none
      throw "Invalid variable format ' = 4'. Expected 'key=value'") ∧
    ∃ start : Configuration → Context, ∃ w : World,
      (start { vars := [("env", "x"), ("region", "eu")] }).get? "env" = some (variableValue "b=c") ∧
      (start { vars := [("env", "x"), ("region", "eu")] }).get? "region" = some (variableValue "eu") ∧
      w.context.get? "env" = some (variableValue "b=c") ∧
      w.context.get? "greeting" = some (.string "hello") := by
  have hone : Assigns "env=a" "env" "a" := ⟨"env", rfl, by decide, by decide, by decide⟩
  have htwo : Assigns " env =b=c" "env" "b=c" := ⟨" env ", rfl, by decide, by decide, by decide⟩
  have hthree : Assigns "n=3" "n" "3" := ⟨"n", rfl, by decide, by decide, by decide⟩
  have hblank : AssignsNothing " = 4" :=
    Or.inr ⟨" ", " 4", rfl, by decide, List.forall_mem_singleton.mpr rfl⟩
  refine ⟨?_, ?_⟩
  · have hfirst := (arguments_over_configuration_over_playbook Shell.onDisk {}
      (a := ⟨.run { repeatedly with vars := ["n=3", " = 4", "broken"] }, false, false, none⟩) rfl).1
    refine hfirst ["n=3"] " = 4" ["broken"] rfl ?_ hblank
    intro b hb
    obtain rfl := List.mem_singleton.mp hb
    exact hthree.not_assignsNothing
  · obtain ⟨-, hall, -⟩ := arguments_over_configuration_over_playbook Shell.onDisk {}
      (a := ⟨.run repeatedly, false, false, none⟩) rfl
    have hread : ∀ b ∈ repeatedly.vars, ¬ AssignsNothing b := by
      intro b hb
      rcases List.mem_cons.mp hb with rfl | hb
      · exact hone.not_assignsNothing
      rcases List.mem_cons.mp hb with rfl | hb
      · exact htwo.not_assignsNothing
      obtain rfl := List.mem_singleton.mp hb
      exact hthree.not_assignsNothing
    obtain ⟨start, -, hstart⟩ := hall hread
    obtain ⟨hchosen, hwork⟩ := hstart { vars := [("env", "x"), ("region", "eu")] }
    obtain ⟨w, hbegins, -⟩ := hwork polite _ (by decide) rfl
    have hother {b name text other : String} (hb : Assigns b name text) (hne : other ≠ name) :
        ∀ t, ¬ Assigns b other t := fun t ht => hne (ht.unique hb).1
    have hfree {other : String} (henv : other ≠ "env") (hn : other ≠ "n") :
        ∀ b ∈ repeatedly.vars, ∀ t, ¬ Assigns b other t := by
      intro b hb
      rcases List.mem_cons.mp hb with rfl | hb
      · exact hother hone henv
      rcases List.mem_cons.mp hb with rfl | hb
      · exact hother htwo henv
      obtain rfl := List.mem_singleton.mp hb
      exact hother hthree hn
    have henv : Chosen repeatedly.vars [("env", "x"), ("region", "eu")] "env"
        (variableValue "b=c") := by
      refine .argument ⟨["env=a"], _, ["n=3"], rfl, htwo, ?_⟩
      intro b hb
      obtain rfl := List.mem_singleton.mp hb
      exact hother hthree (by decide)
    refine ⟨start, w, (hchosen _ _).mpr henv, ?_, (hbegins _ _).mpr (.chosen henv), ?_⟩
    · exact (hchosen _ _).mpr (.configured (hfree (by decide) (by decide)) rfl)
    · refine (hbegins _ _).mpr (.playbook ?_ (by decide) (.itself ?_ nofun))
      · intro v hv
        cases hv with
        | argument hlast =>
            obtain ⟨earlier, b, later, hsplit, hassigns, -⟩ := hlast
            exact hfree (by decide) (by decide) b (by rw [hsplit]; simp) _ hassigns
        | configured _ htext => cases htext
      · rintro text ⟨rfl⟩ htemplate
        have hno : Evaluator.hasTemplates "hello" = false := by decide
        rw [hasTemplates_iff.mpr htemplate] at hno
        cases hno

end CommandLine

end Runsheet
