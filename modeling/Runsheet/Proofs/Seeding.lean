import Runsheet.Engine.Engine

/-!
# Seeding

Before the work of a plan begins, the variables of its playbook are put into the context one after
the other.  Each is evaluated over the values that the context had at first, and none takes the
place of a value that is there, so that what comes of it is as if all of them were put at once.

* `Engine.offered?_eq_some` — what a variable stands for;
* `Engine.get?_seed` — the context after seeding, key by key;
* `Engine.seed_perm` — the order of the variables does not matter;
* `seeding_is_simultaneous` — the result.
-/

namespace Runsheet

/-- A text is a template if both marks around an expression occur in it. -/
def Templated (text : String) : Prop :=
  Evaluator.openMark.toList <:+: text.toList ∧ Evaluator.closeMark.toList <:+: text.toList

theorem hasTemplates_iff {text : String} : Evaluator.hasTemplates text = true ↔ Templated text := by
  unfold Evaluator.hasTemplates Templated
  rw [Bool.and_eq_true, Text.contains_iff_infix, Text.contains_iff_infix]

namespace Engine

variable (g : Engine) {initial : Vars} {c : Context} {vars : Roster Json} {v v' : Json}

/-- **What a variable stands for** over given values, which is never null: a template for its value,
and any other variable for itself. -/
inductive StandsFor (initial : Vars) : Json → Json → Prop
  | value {text : String} {v : Json} (htemplate : Templated text)
      (hvalue : g.evaluator.evaluate text initial = .ok v) (hv : v ≠ .null) :
      StandsFor initial (.string text) v
  | itself {v : Json} (hplain : ∀ text, v = .string text → ¬ Templated text) (hv : v ≠ .null) :
      StandsFor initial v v

variable {g} in
theorem StandsFor.ne_null (h : g.StandsFor initial v v') : v' ≠ .null := by
  cases h with
  | value _ _ hv => exact hv
  | itself _ hv => exact hv

/-- What a variable offers to the context, if anything. -/
def offered? (initial : Vars) (v : Json) : Option Json :=
  match g.varValue initial v with
  | .ok v => if v.isNull then none else some v
  | .error _ => none

/-- Puts what a variable offers into a context, if there is no value under its name. -/
def offer (initial : Vars) (c : Context) (var : String × Json) : Context :=
  match g.offered? initial var.2 with
  | some v => c.putAbsent var.1 v
  | none => c

/-! ### One variable -/

theorem isNull_eq_false : v.isNull = false ↔ v ≠ .null := by
  cases v <;> simp [Json.isNull]

theorem offered?_of_ok (h : g.varValue initial v = .ok v') :
    g.offered? initial v = if v'.isNull then none else some v' := by
  rw [offered?, h]

/-- **A variable offers what it stands for**, and nothing else. -/
theorem offered?_eq_some : g.offered? initial v = some v' ↔ g.StandsFor initial v v' := by
  constructor
  · intro hoffered
    unfold offered? at hoffered
    cases hvalue : g.varValue initial v with
    | error error => simp [hvalue] at hoffered
    | ok found =>
        have hnull : found ≠ .null ∧ found = v' := by
          rw [← isNull_eq_false]
          simpa [hvalue] using hoffered
        obtain ⟨hnull, rfl⟩ := hnull
        unfold varValue at hvalue
        split at hvalue
        next text =>
          split at hvalue
          next htemplate => exact .value (hasTemplates_iff.mp htemplate) hvalue hnull
          next hplain =>
            cases hvalue
            refine .itself ?_ hnull
            rintro _ ⟨rfl⟩ htemplate
            exact hplain (hasTemplates_iff.mpr htemplate)
        next hother =>
          cases hvalue
          exact .itself (fun text htext => (hother text htext).elim) hnull
  · intro hstands
    have hfound : g.varValue initial v = .ok v' ∧ v' ≠ .null := by
      cases hstands with
      | value htemplate hvalue hv =>
          refine ⟨?_, hv⟩
          rw [varValue, if_pos (hasTemplates_iff.mpr htemplate)]
          exact hvalue
      | itself hplain hv =>
          refine ⟨?_, hv⟩
          cases v with
          | string text =>
              have hno : ¬ Evaluator.hasTemplates text = true := by
                rw [hasTemplates_iff]
                exact hplain text rfl
              rw [varValue, if_neg hno]
          | _ => rfl
    rw [offered?_of_ok g hfound.1, isNull_eq_false.mpr hfound.2]
    rfl

/-- One variable changes the value under its own name alone, and only if there is none. -/
theorem get?_offer (var : String × Json) (k : String) :
    (g.offer initial c var).get? k =
      if var.1 = k then (c.get? k).or (g.offered? initial var.2) else c.get? k := by
  unfold offer
  cases hoffered : g.offered? initial var.2 with
  | none => simp
  | some v =>
      have hstands : g.StandsFor initial var.2 v := (g.offered?_eq_some).mp hoffered
      have hnull : v.isNull = false := isNull_eq_false.mpr hstands.ne_null
      simp [Context.get?_putAbsent, hnull]

/-- Variables with different names may change places. -/
theorem offer_comm {var var' : String × Json} (h : var.1 ≠ var'.1) :
    g.offer initial (g.offer initial c var) var' = g.offer initial (g.offer initial c var') var := by
  unfold offer
  cases g.offered? initial var.2 with
  | none => rfl
  | some v =>
      cases g.offered? initial var'.2 with
      | none => rfl
      | some v' => exact c.putAbsent_comm h v v'

/-! ### All variables -/

/-- Seeding is to put what each variable offers, over the values at first, into the context. -/
theorem seed_context (vars : Roster Json) (w : World) :
    (g.seed vars w).context = vars.foldl (g.offer w.context.values) w.context := by
  have hvar (initial : Vars) (w : World) (var : String × Json) :
      (g.seedVar initial w var).context = g.offer initial w.context var := by
    unfold seedVar offer offered?
    cases g.varValue initial var.2 with
    | error error => rfl
    | ok v =>
        cases hnull : v.isNull with
        | true => simp [Context.putAbsent, Context.accepts, hnull]
        | false => simp [hnull]
  unfold seed
  generalize w.context.values = initial
  induction vars generalizing w with
  | nil => rfl
  | cons var rest ih => rw [List.foldl_cons, ih, hvar, List.foldl_cons]

theorem get?_foldl_offer (hvars : (Table.keys vars).Nodup) (c : Context) (k : String) :
    (vars.foldl (g.offer initial) c).get? k =
      (c.get? k).or ((Table.get? k vars).bind (g.offered? initial)) := by
  induction vars generalizing c with
  | nil => simp
  | cons var rest ih =>
      obtain ⟨name, v⟩ := var
      obtain ⟨hname, hrest⟩ := List.nodup_cons.mp hvars
      rw [List.foldl_cons, ih hrest, get?_offer, Table.get?]
      by_cases hk : name = k
      · subst hk
        have hnone : Table.get? name rest = none := Table.get?_eq_none_of_notMem hname
        simp [hnone]
      · simp [hk]

/-- **The context after seeding, key by key**: a value that was there, and otherwise what the variable
with this name offers. -/
theorem get?_seed (hvars : (Table.keys vars).Nodup) (w : World) (k : String) :
    (g.seed vars w).context.get? k =
      (w.context.get? k).or ((Table.get? k vars).bind (g.offered? w.context.values)) := by
  rw [seed_context]
  exact g.get?_foldl_offer hvars w.context k

/-- **The order of the variables does not matter.** -/
theorem seed_perm {vars' : Roster Json} (hvars : (Table.keys vars).Nodup) (hperm : vars'.Perm vars)
    (w : World) : (g.seed vars' w).context = (g.seed vars w).context := by
  rw [seed_context, seed_context]
  have hvars' : (Table.keys vars').Nodup := ((hperm.map Prod.fst).nodup_iff).mpr hvars
  refine hperm.foldl_eq' ?_ w.context
  intro var hvar var' hvar' c
  by_cases hsame : var.1 = var'.1
  · have hfirst := Table.get?_of_mem hvars' hvar
    have hsecond := Table.get?_of_mem hvars' hvar'
    rw [hsame, hsecond] at hfirst
    have heq : var = var' := Prod.ext hsame (Option.some.inj hfirst).symm
    rw [heq]
  · exact g.offer_comm hsame

/-- The work of a plan begins with the context after seeding. -/
theorem prepare_context (p : Playbook) (plan : Plan) (w : World) :
    (g.prepare p plan w).context = (g.seed p.vars w).context := by
  unfold prepare
  rw [World.note, seed_context, seed_context]
  rfl

/-- Seeding closes no pool. -/
theorem seed_closed (vars : Roster Json) (w : World) : (g.seed vars w).closed = w.closed := by
  have hvar (initial : Vars) (w : World) (var : String × Json) :
      (g.seedVar initial w var).closed = w.closed := by
    unfold seedVar
    split <;> rfl
  unfold seed
  generalize w.context.values = initial
  induction vars generalizing w with
  | nil => rfl
  | cons var rest ih => rw [List.foldl_cons, ih, hvar]

theorem prepare_isClosed (p : Playbook) (plan : Plan) (w : World) (pool : Pool) :
    (g.prepare p plan w).isClosed pool = w.isClosed pool := by
  unfold prepare World.isClosed
  rw [World.note, seed_closed]
  rfl

end Engine

/-- **Seeding is a simultaneous assignment that overwrites nothing.**  After the variables of a playbook
are put into a context:

* a key with a value keeps it, and one without a value that is not the name of a variable has none;
* a key without a value that is the name of a variable has what the variable stands for over the values
  that the context had at first, and no value if the variable stands for nothing;
* what is under a key is the same for any other variables besides the one with this name, and for any
  order of the variables;
* this is the context with which the work of a plan begins. -/
theorem seeding_is_simultaneous (g : Engine) {p : Playbook} (hvars : (Table.keys p.vars).Nodup)
    (w : World) :
    (∀ k v, w.context.get? k = some v → (g.seed p.vars w).context.get? k = some v) ∧
    (∀ k, w.context.get? k = none → k ∉ Table.keys p.vars →
      (g.seed p.vars w).context.get? k = none) ∧
    (∀ k v, w.context.get? k = none → (k, v) ∈ p.vars → ∀ v',
      (g.seed p.vars w).context.get? k = some v' ↔ g.StandsFor w.context.values v v') ∧
    (∀ vars k, (Table.keys vars).Nodup → Table.get? k vars = Table.get? k p.vars →
      (g.seed vars w).context.get? k = (g.seed p.vars w).context.get? k) ∧
    (∀ vars, vars.Perm p.vars → (g.seed vars w).context = (g.seed p.vars w).context) ∧
    ∀ plan, (g.prepare p plan w).context = (g.seed p.vars w).context := by
  refine ⟨?_, ?_, ?_, ?_, ?_, fun plan => g.prepare_context p plan w⟩
  · intro k v hk
    rw [g.get?_seed hvars, hk, Option.some_or]
  · intro k hk hnone
    rw [g.get?_seed hvars, hk, Table.get?_eq_none_of_notMem hnone]
    rfl
  · intro k v hk hvar v'
    rw [g.get?_seed hvars, hk, Table.get?_of_mem hvars hvar]
    exact g.offered?_eq_some
  · intro vars k hvars' hsame
    rw [g.get?_seed hvars', g.get?_seed hvars, hsame]
  · intro vars hperm
    exact g.seed_perm hvars hperm w

/-- An engine that can evaluate one template, which looks at a user. -/
private def asking : Engine where
  evaluator := {
    evaluate := fun text vars =>
      if text = "\x7b\x7b user \x7d\x7d" then .ok ((Table.get? "user" vars).getD .null)
      else .error (.malformed text)
    validate := fun text _ => .error (.malformed text) }

/-- Variables of all kinds: one with a name that is taken, one that looks at it, one that cannot be
evaluated, one that is null, and one that is no template. -/
private def greeting : Playbook where
  id := "greeting"
  vars := Roster.ofList [("user", .string "playbook"), ("shout", .string "\x7b\x7b user \x7d\x7d"),
    ("broken", .string "\x7b\x7b 1 + \x7d\x7d"), ("nothing", .null), ("open", .string "\x7b\x7b")]

/-- The caller of the playbook. -/
private def called : World where
  context := ⟨[("user", .string "caller")]⟩

/-- The variable that looks at the user sees the one that was there, not the one of the playbook. -/
theorem seeding_is_simultaneous_greeting :
    (Table.keys greeting.vars).Nodup ∧
      (asking.seed greeting.vars called).context.get? "user" = some (.string "caller") ∧
      (asking.seed greeting.vars called).context.get? "shout" = some (.string "caller") ∧
      (asking.seed greeting.vars called).context.get? "broken" = none ∧
      (asking.seed greeting.vars called).context.get? "nothing" = none ∧
      (asking.seed greeting.vars called).context.get? "open" = some (.string "\x7b\x7b") ∧
      (asking.seed greeting.vars called).context.get? "other" = none := by
  have hvars : (Table.keys greeting.vars).Nodup := Roster.nodup_ofList _
  obtain ⟨hkeeps, hnone, hstands, -⟩ := seeding_is_simultaneous asking hvars called
  have htemplate {text : String} (h : Evaluator.hasTemplates text = true) : Templated text :=
    hasTemplates_iff.mp h
  refine ⟨hvars, ?_, ?_, ?_, ?_, ?_, ?_⟩
  · exact hkeeps "user" (.string "caller") rfl
  · have hvar : ("shout", .string "\x7b\x7b user \x7d\x7d") ∈ greeting.vars := by decide
    apply (hstands "shout" _ rfl hvar _).mpr
    exact .value (htemplate (by decide)) rfl nofun
  · rw [Option.eq_none_iff_forall_ne_some]
    intro v hv
    have hvar : ("broken", .string "\x7b\x7b 1 + \x7d\x7d") ∈ greeting.vars := by decide
    cases (hstands "broken" _ rfl hvar v).mp hv with
    | value _ hvalue _ => cases hvalue
    | itself hplain _ => exact hplain _ rfl (htemplate (by decide))
  · rw [Option.eq_none_iff_forall_ne_some]
    intro v hv
    have hvar : ("nothing", .null) ∈ greeting.vars := by decide
    cases (hstands "nothing" _ rfl hvar v).mp hv with
    | itself _ hnull => exact hnull rfl
  · have hvar : ("open", .string "\x7b\x7b") ∈ greeting.vars := by decide
    apply (hstands "open" _ rfl hvar _).mpr
    refine .itself ?_ nofun
    rintro text ⟨rfl⟩ h
    have hno : Evaluator.hasTemplates "\x7b\x7b" = false := by decide
    rw [hasTemplates_iff.mpr h] at hno
    cases hno
  · exact hnone "other" rfl (by decide)

end Runsheet
