import Runsheet.Proofs.Endings

/-!
# Which steps a sequence runs

A sequence comes to its steps one after the other.  At each it looks at the guard, and then executes the
step or does not; and what becomes of the step decides whether it comes to the next one.  So the steps that
it comes to are a prefix of its steps, which is told by what becomes of them.

* `Passage` — a way through the steps, in closed form;
* `reach_cons` — what goes on until it stops, entry by entry;
* `passage_cons`, `passage_append` — a passage through the first step and the others, and through steps and
  further steps;
* `Flow.ends_sequence` — a sequence ends after the turns of a passage, with its result;
* `Passage.lookedAt` — the guards that are looked at are those of the steps that it comes to;
* `Passage.executed_block`, `Passage.executed_playbook` — which steps are executed;
* `sequence_runs_prefix` — the result.
-/

namespace Runsheet

open Marked

/-- **What becomes of a step** that a sequence comes to: its guard cannot be evaluated, it fails, or the step
is executed. -/
inductive Fate
  | barred (error : ExpressionError)
  | skipped
  | executed (outcome : Outcome)

namespace Fate

/-- **The sequence goes on** behind the step: in a playbook if it was skipped, and anywhere if it was executed and
has not failed, or isolates its failure. -/
def GoesOn (scope : SequenceScope) (step : Step) : Fate → Prop
  | .barred _ => False
  | .skipped => scope = .playbook
  | .executed (.error _) => False
  | .executed (.ok r) => r.isFailed = true → step.isolatesFailure = true

/-- The step was executed and ends the sequence: with a fault, or with a failure that it does not isolate. -/
def Stops (step : Step) : Fate → Prop
  | .executed (.error _) => True
  | .executed (.ok r) => r.isFailed = true ∧ step.isolatesFailure = false
  | _ => False

/-- The fault with which the sequence ends. -/
def fault? : Fate → Option Fault
  | .barred error => some (.ofError error)
  | .executed (.error fault) => some fault
  | _ => none

/-- The report of a step that was executed. -/
def report? : Fate → Option Report
  | .executed (.ok r) => some r
  | _ => none

/-- **The result of a sequence**: the fault, if there is one, and otherwise the report of the last step that was
executed. -/
def result (last : Option Report) (fates : List Fate) : Outcome :=
  match fates.findSome? fault? with
  | some fault => .error fault
  | none => .ok (((fates.filterMap report?).getLast?.or last).getD .completed)

theorem result_cons {last : Option Report} {fate : Fate} {fates : List Fate}
    (hfine : fate.fault? = none) : result last (fate :: fates) = result (fate.report?.or last) fates := by
  have hfault : (fate :: fates).findSome? fault? = fates.findSome? fault? := by
    rw [List.findSome?_cons, hfine]
  have hlast : ((fate :: fates).filterMap report?).getLast?.or last =
      (fates.filterMap report?).getLast?.or (fate.report?.or last) := by
    cases hreport : fate.report? with
    | none => rw [List.filterMap_cons_none hreport, Option.none_or]
    | some r =>
        rw [List.filterMap_cons_some hreport, List.getLast?_cons]
        cases (fates.filterMap report?).getLast? with
        | none => rfl
        | some found => rfl
  rw [result, result, hfault, hlast]

/-- A fate behind which a sequence goes on brings no fault. -/
theorem GoesOn.fault?_eq_none {scope : SequenceScope} {step : Step} {fate : Fate}
    (hgoes : fate.GoesOn scope step) : fate.fault? = none := by
  cases fate with
  | barred error => exact hgoes.elim
  | skipped => rfl
  | executed o =>
      cases o with
      | error fault => exact hgoes.elim
      | ok r => rfl

/-- Behind fates without a fault, those of further steps decide unless all of these are skipped. -/
theorem result_append {last : Option Report} {fates more : List Fate}
    (hfine : ∀ fate ∈ fates, fate.fault? = none) :
    ((∀ fate ∈ more, fate = .skipped) → result last (fates ++ more) = result last fates) ∧
      ((∃ fate ∈ more, fate ≠ .skipped) → result last (fates ++ more) = result none more) := by
  have hfault : (fates ++ more).findSome? fault? = more.findSome? fault? := by
    rw [List.findSome?_append, List.findSome?_eq_none_iff.mpr hfine]
    rfl
  constructor
  · intro hskipped
    have hmore : more.findSome? fault? = none := by
      rw [List.findSome?_eq_none_iff]
      intro fate hfate
      rw [hskipped fate hfate]
      rfl
    have hreports : more.filterMap report? = [] := by
      rw [List.filterMap_eq_nil_iff]
      intro fate hfate
      rw [hskipped fate hfate]
      rfl
    rw [result, hfault, hmore, result, List.findSome?_eq_none_iff.mpr hfine, List.filterMap_append,
      hreports, List.append_nil]
  · rintro ⟨fate, hfate, hne⟩
    rw [result, hfault, result]
    cases hfound : more.findSome? fault? with
    | some fault => rfl
    | none =>
        have hreport : more.filterMap report? ≠ [] := by
          intro hnil
          have hfault := List.findSome?_eq_none_iff.mp hfound fate hfate
          have hnone := List.filterMap_eq_nil_iff.mp hnil fate hfate
          cases fate with
          | barred error => cases hfault
          | skipped => exact hne rfl
          | executed o =>
              cases o with
              | error fault => cases hfault
              | ok r => cases hnone
        obtain ⟨r, hr⟩ := Option.isSome_iff_exists.mp (List.getLast?_isSome.mpr hreport)
        rw [List.filterMap_append, List.getLast?_append, hr]
        rfl

end Fate

/-- **What goes on until it stops**: a list that has an entry for each number that is in reach, and behind each
entry goes on if the entry says so, has a first entry, and then either ends or goes on in the same way. -/
theorem reach_cons {α : Type} {Bound : Nat → Prop} {Goes : Nat → α → Prop} {first : α} {rest : List α}
    (hfirst : Bound 0) :
    (∀ i, i < (first :: rest).length ↔ Bound i ∧ ∀ j < i, ∃ x, (first :: rest)[j]? = some x ∧ Goes j x) ↔
      (Goes 0 first ∧ ∀ i, i < rest.length ↔ Bound (i + 1) ∧
        ∀ j < i, ∃ x, rest[j]? = some x ∧ Goes (j + 1) x) ∨
      (¬ Goes 0 first ∧ rest = []) := by
  have hlaw (i : Nat) : (∀ j < i + 1, ∃ x, (first :: rest)[j]? = some x ∧ Goes j x) ↔
      Goes 0 first ∧ ∀ j < i, ∃ x, rest[j]? = some x ∧ Goes (j + 1) x := by
    rw [Nat.forall_lt_succ_left]
    refine and_congr_left fun _ => ?_
    simp
  constructor
  · intro hreach
    by_cases hgoes : Goes 0 first
    · refine Or.inl ⟨hgoes, fun i => ?_⟩
      have hnext := hreach (i + 1)
      rwa [hlaw, and_iff_right hgoes, List.length_cons, Nat.add_lt_add_iff_right] at hnext
    · refine Or.inr ⟨hgoes, ?_⟩
      cases rest with
      | nil => rfl
      | cons second others =>
          have hsecond : 0 + 1 < (first :: second :: others).length := by simp
          exact (hgoes ((hlaw 0).mp ((hreach 1).mp hsecond).2).1).elim
  · intro hcase i
    rcases hcase with ⟨hgoes, hrest⟩ | ⟨hstops, rfl⟩
    · cases i with
      | zero => simp [hfirst]
      | succ i =>
          rw [hlaw, and_iff_right hgoes, List.length_cons, Nat.add_lt_add_iff_right]
          exact hrest i
    · cases i with
      | zero => simp [hfirst]
      | succ i =>
          rw [hlaw]
          simp [hstops]

/-- **A step that a sequence comes to**: the world in which it is reached, what becomes of it, the turns that
this takes, and the world in which it is left. -/
structure Visit where
  reached : World
  fate : Fate
  turns : List Turn
  left : World

section

variable (ordered : Prop) (e : Evaluator) (patience : Nat) (name : String) (scope : SequenceScope)

/-- What is noted when a step is skipped. -/
def skipText (step : Step) : String :=
  match scope with
  | .block => "Ending " ++ name ++ ", condition not met for " ++ step.label ++ ": " ++
      step.settings.guardText
  | .playbook => "Skipping " ++ step.label ++ ", condition not met: " ++ step.settings.guardText

/-- The world after it has been noted how a step ended. -/
def reportedWorld (step : Step) (r : Report) (w : World) : World :=
  if r.isFailed && !step.isolatesFailure then
    w.note .warn ("Work unit '" ++ step.label ++
      "' has failed, skipping subsequent work units in " ++ name)
  else w.note .debug (step.label ++ " finished with " ++ r.status.text)

/-- **The visits of a step** at a place: its guard is looked at once in the world in which the step is
reached, and the step is executed there if the guard is true or absent. -/
inductive Visit.Of (place : Pool) (step : Step) : Visit → Prop
  | barred {w : World} {error : ExpressionError}
      (hguard : step.settings.holds e w.context = .error error) :
      Of place step ⟨w, .barred error, [looks place step.settings w], w⟩
  | skipped {w : World} (hguard : step.settings.holds e w.context = .ok false) :
      Of place step ⟨w, .skipped, [looks place step.settings w,
        .own ⟨place, .upkeep⟩ [] w (w.note .warn (skipText name scope step))],
        w.note .warn (skipText name scope step)⟩
  | faulted {w v : World} {h : List Turn} {fault : Fault}
      (hguard : step.settings.holds e w.context = .ok true)
      (hends : Ends ordered (step.marked e patience place) w h (.error fault) v) :
      Of place step ⟨w, .executed (.error fault), looks place step.settings w :: h, v⟩
  | reported {w v : World} {h : List Turn} {r : Report}
      (hguard : step.settings.holds e w.context = .ok true)
      (hends : Ends ordered (step.marked e patience place) w h (.ok r) v) :
      Of place step ⟨w, .executed (.ok r), looks place step.settings w ::
        (h ++ [.own ⟨place, .reported r⟩ [] v (reportedWorld name step r v)]), reportedWorld name step r v⟩

/-- **A passage** through steps, which have their numbers from an index on: each visit is one of the step with its
number, the steps are reached where those before have left the world, and a step is reached if the
sequence goes on behind all steps before it. -/
structure Passage (place : Pool) (index : Nat) (steps : List Step) (w : World) (visits : List Visit)
    (v : World) : Prop where
  visits_of : ∀ i (visit : Visit), visits[i]? = some visit → ∃ step, steps[i]? = some step ∧
    visit.Of ordered e patience name scope ((index + i) :: place) step
  worlds : w :: visits.map Visit.left = visits.map Visit.reached ++ [v]
  reach : ∀ i, i < visits.length ↔ i < steps.length ∧ ∀ j < i, ∃ visit, visits[j]? = some visit ∧
    ∃ step, steps[j]? = some step ∧ visit.fate.GoesOn scope step

end

section

variable {ordered : Prop} {e : Evaluator} {patience : Nat} {name : String} {scope : SequenceScope}
variable {place : Pool} {index : Nat} {step : Step} {steps xs ys : List Step} {w u v : World}
variable {visits : List Visit}

/-! ### Passages, step by step -/

theorem passage_nil : Passage ordered e patience name scope place index [] w visits v ↔
    visits = [] ∧ v = w := by
  constructor
  · intro h
    have hnil : visits = [] := by
      rw [← List.length_eq_zero_iff]
      by_cases hlength : visits.length = 0
      · exact hlength
      · exact (Nat.not_lt_zero 0 ((h.reach 0).mp (Nat.pos_of_ne_zero hlength)).1).elim
    subst hnil
    have hworlds : [w] = [v] := h.worlds
    cases hworlds
    exact ⟨rfl, rfl⟩
  · rintro ⟨rfl, rfl⟩
    refine ⟨nofun, rfl, fun i => ?_⟩
    simp

theorem passage_cons : Passage ordered e patience name scope place index (step :: steps) w visits v ↔
    ∃ (visit : Visit) (more : List Visit), visits = visit :: more ∧ visit.reached = w ∧
      visit.Of ordered e patience name scope (index :: place) step ∧
      ((¬ visit.fate.GoesOn scope step ∧ more = [] ∧ v = visit.left) ∨
        (visit.fate.GoesOn scope step ∧
          Passage ordered e patience name scope place (index + 1) steps visit.left more v)) := by
  have hfirst (visit : Visit) : (∃ s, (step :: steps)[0]? = some s ∧ visit.fate.GoesOn scope s) ↔
      visit.fate.GoesOn scope step := by
    simp
  have hsucc (i : Nat) : i + 1 < (step :: steps).length ↔ i < steps.length := Nat.add_lt_add_iff_right
  constructor
  · intro h
    have hpos : 0 < visits.length := (h.reach 0).mpr ⟨Nat.succ_pos _, nofun⟩
    obtain ⟨visit, more, rfl⟩ := List.exists_cons_of_length_pos hpos
    obtain ⟨_, ⟨rfl⟩, hof⟩ := h.visits_of 0 visit rfl
    have hworlds := h.worlds
    simp only [List.map_cons, List.cons_append, List.cons.injEq] at hworlds
    obtain ⟨hreached, hworlds⟩ := hworlds
    refine ⟨visit, more, rfl, hreached.symm, hof, ?_⟩
    rcases (reach_cons (Nat.succ_pos _)).mp h.reach with ⟨hgoes, hreach⟩ | ⟨hstops, rfl⟩
    · refine Or.inr ⟨(hfirst visit).mp hgoes, fun i x hx => ?_, hworlds, fun i => ?_⟩
      · obtain ⟨s, hs, hx⟩ := h.visits_of (i + 1) x hx
        refine ⟨s, hs, ?_⟩
        rwa [show index + 1 + i = index + (i + 1) by omega]
      · exact (hreach i).trans (and_congr_left' (hsucc i))
    · have hleft : [visit.left] = [v] := hworlds
      cases hleft
      exact Or.inl ⟨fun hgoes => hstops ((hfirst visit).mpr hgoes), rfl, rfl⟩
  · rintro ⟨visit, more, rfl, rfl, hof, hrest⟩
    refine ⟨fun i x hx => ?_, ?_, (reach_cons (Nat.succ_pos _)).mpr ?_⟩
    · cases i with
      | zero =>
          cases hx
          exact ⟨step, rfl, hof⟩
      | succ i =>
          rcases hrest with ⟨-, rfl, -⟩ | ⟨-, h⟩
          · cases hx
          · obtain ⟨s, hs, hx⟩ := h.visits_of i x hx
            refine ⟨s, hs, ?_⟩
            rwa [show index + (i + 1) = index + 1 + i by omega]
    · rcases hrest with ⟨-, rfl, rfl⟩ | ⟨-, h⟩
      · rfl
      · simp only [List.map_cons, List.cons_append, List.cons.injEq, true_and]
        exact h.worlds
    · rcases hrest with ⟨hstops, rfl, -⟩ | ⟨hgoes, h⟩
      · exact Or.inr ⟨fun hgoes => hstops ((hfirst visit).mp hgoes), rfl⟩
      · exact Or.inl ⟨(hfirst visit).mpr hgoes, fun i => (h.reach i).trans (and_congr_left' (hsucc i).symm)⟩

/-! ### The work of a sequence -/

theorem Flow.markedSequence_cons (last : Option Report) :
    Flow.markedSequence e patience name scope last place index (step :: steps) =
      check (index :: place) step.settings e fun
        | false => note ⟨index :: place, .upkeep⟩ .warn (skipText name scope step) (match scope with
          | .block => report (last.getD .completed)
          | .playbook => Flow.markedSequence e patience name scope last place (index + 1) steps)
        | true => (step.marked e patience (index :: place)).onReport fun r =>
          .act ⟨index :: place, .reported r⟩ (reportedWorld name step r) fun _ =>
            if r.isFailed && !step.isolatesFailure then report r
            else Flow.markedSequence e patience name scope (some r) place (index + 1) steps := by
  obtain ⟨s, flow⟩ := step
  rw [Flow.markedSequence.eq_def, Step.marked]
  dsimp only [Step.settings]
  congr
  funext b
  cases b with
  | false =>
      cases scope with
      | block => rfl
      | playbook => rfl
  | true =>
      simp only
      congr
      funext r
      unfold reportedWorld
      split <;> rfl

/-- A sequence visits its first step, and then ends or goes on to the others. -/
theorem Flow.ends_first {last : Option Report} {h : List Turn} {o : Outcome} :
    Ends ordered (Flow.markedSequence e patience name scope last place index (step :: steps)) w h o v ↔
      ∃ (visit : Visit) (g : List Turn), visit.reached = w ∧
        visit.Of ordered e patience name scope (index :: place) step ∧ h = visit.turns ++ g ∧
        ((¬ visit.fate.GoesOn scope step ∧ g = [] ∧ v = visit.left ∧
            o = Fate.result last [visit.fate]) ∨
          (visit.fate.GoesOn scope step ∧ Ends ordered (Flow.markedSequence e patience name scope
            (visit.fate.report?.or last) place (index + 1) steps) visit.left g o v)) := by
  have hgoes (r : Report) : (Fate.executed (.ok r)).GoesOn scope step ↔
      ¬ (r.isFailed && !step.isolatesFailure) = true := by
    simp [Fate.GoesOn]
  rw [Flow.markedSequence_cons, ends_check]
  constructor
  · intro hlook
    obtain ⟨g, rfl, hcase⟩ := hlook
    rcases hcase with ⟨error, hguard, rfl, rfl, rfl⟩ | ⟨b, hguard, hnext⟩
    · exact ⟨_, [], rfl, .barred hguard, rfl, Or.inl ⟨id, rfl, rfl, rfl⟩⟩
    · cases b with
      | false =>
          obtain ⟨g, rfl, hrest⟩ := ends_note.mp hnext
          refine ⟨_, g, rfl, .skipped hguard, rfl, ?_⟩
          cases scope with
          | block =>
              obtain ⟨rfl, rfl, rfl⟩ := ends_report.mp hrest
              exact Or.inl ⟨nofun, rfl, rfl, rfl⟩
          | playbook => exact Or.inr ⟨rfl, hrest⟩
      | true =>
          rcases ends_onReport.mp hnext with ⟨fault, rfl, hends⟩ | ⟨h₁, h₂, r, u, rfl, hends, hnext⟩
          · refine ⟨_, [], rfl, .faulted hguard hends, ?_, Or.inl ⟨id, rfl, rfl, rfl⟩⟩
            rw [List.append_nil]
          · obtain ⟨g, rfl, hrest⟩ := ends_act.mp hnext
            refine ⟨_, g, rfl, .reported hguard hends, ?_, ?_⟩
            · simp
            · split at hrest
              next hstops =>
                obtain ⟨rfl, rfl, rfl⟩ := ends_report.mp hrest
                exact Or.inl ⟨fun hgo => (hgoes r).mp hgo hstops, rfl, rfl, rfl⟩
              next hstays => exact Or.inr ⟨(hgoes r).mpr hstays, hrest⟩
  · rintro ⟨visit, g, rfl, hof, rfl, hcase⟩
    cases hof with
    | barred hguard =>
        obtain ⟨-, rfl, rfl, rfl⟩ := hcase.resolve_right fun hright => hright.1
        exact ⟨_, rfl, Or.inl ⟨_, hguard, rfl, rfl, rfl⟩⟩
    | skipped hguard =>
        refine ⟨_, rfl, Or.inr ⟨false, hguard, ends_note.mpr ⟨g, rfl, ?_⟩⟩⟩
        cases scope with
        | block =>
            obtain ⟨-, rfl, rfl, rfl⟩ := hcase.resolve_right fun hright => nomatch hright.1
            exact ends_report.mpr ⟨rfl, rfl, rfl⟩
        | playbook => exact (hcase.resolve_left fun hleft => hleft.1 rfl).2
    | @faulted w v h fault hguard hends =>
        obtain ⟨-, rfl, rfl, rfl⟩ := hcase.resolve_right fun hright => hright.1
        have hall : Ends ordered (step.marked e patience (index :: place)) w (h ++ []) (.error fault) v := by
          rw [List.append_nil]
          exact hends
        exact ⟨_, rfl, Or.inr ⟨true, hguard, ends_onReport.mpr (Or.inl ⟨fault, rfl, hall⟩)⟩⟩
    | @reported w v h r hguard hends =>
        refine ⟨_, rfl, Or.inr ⟨true, hguard, ends_onReport.mpr
          (Or.inr ⟨h, _, r, v, by simp, hends, ends_act.mpr ⟨g, rfl, ?_⟩⟩)⟩⟩
        by_cases hstops : (r.isFailed && !step.isolatesFailure) = true
        · obtain ⟨-, rfl, rfl, rfl⟩ := hcase.resolve_right fun hright => (hgoes r).mp hright.1 hstops
          rw [if_pos hstops]
          exact ends_report.mpr ⟨rfl, rfl, rfl⟩
        · rw [if_neg hstops]
          exact (hcase.resolve_left fun hleft => hleft.1 ((hgoes r).mpr hstops)).2

/-- **A sequence ends after the turns of a passage**, with the result of what has become of the steps. -/
theorem Flow.ends_sequence {last : Option Report} {h : List Turn} {o : Outcome} :
    Ends ordered (Flow.markedSequence e patience name scope last place index steps) w h o v ↔
      ∃ visits, Passage ordered e patience name scope place index steps w visits v ∧
        h = visits.flatMap Visit.turns ∧ o = Fate.result last (visits.map Visit.fate) := by
  induction steps generalizing last index w h with
  | nil =>
      rw [Flow.markedSequence, ends_report]
      constructor
      · rintro ⟨rfl, rfl, rfl⟩
        exact ⟨[], passage_nil.mpr ⟨rfl, rfl⟩, rfl, rfl⟩
      · rintro ⟨visits, hpassage, rfl, rfl⟩
        obtain ⟨rfl, rfl⟩ := passage_nil.mp hpassage
        exact ⟨rfl, rfl, rfl⟩
  | cons step steps ih =>
      rw [Flow.ends_first]
      constructor
      · intro hvisit
        obtain ⟨visit, g, rfl, hof, rfl, hcase⟩ := hvisit
        rcases hcase with ⟨hstops, rfl, rfl, rfl⟩ | ⟨hgoes, hnext⟩
        · refine ⟨[visit], passage_cons.mpr ⟨visit, [], rfl, rfl, hof, Or.inl ⟨hstops, rfl, rfl⟩⟩, ?_, rfl⟩
          simp
        · obtain ⟨more, hmore, rfl, rfl⟩ := ih.mp hnext
          refine ⟨visit :: more, passage_cons.mpr ⟨visit, more, rfl, rfl, hof, Or.inr ⟨hgoes, hmore⟩⟩,
            rfl, ?_⟩
          rw [List.map_cons, Fate.result_cons hgoes.fault?_eq_none]
      · intro hclosed
        obtain ⟨visits, hpassage, rfl, rfl⟩ := hclosed
        obtain ⟨visit, more, rfl, rfl, hof, hcase⟩ := passage_cons.mp hpassage
        rcases hcase with ⟨hstops, rfl, rfl⟩ | ⟨hgoes, hmore⟩
        · exact ⟨visit, [], rfl, hof, by simp, Or.inl ⟨hstops, rfl, rfl, rfl⟩⟩
        · refine ⟨visit, _, rfl, hof, rfl, Or.inr ⟨hgoes, ih.mpr ⟨more, hmore, rfl, ?_⟩⟩⟩
          rw [List.map_cons, Fate.result_cons hgoes.fault?_eq_none]

/-! ### The guards that are looked at -/

theorem Visit.Of.lookedAt {visit : Visit} {i : Nat}
    (hof : visit.Of ordered e patience name scope (i :: place) step) :
    lookedAt place visit.turns = [(i, visit.reached)] := by
  cases hof with
  | barred hguard => rw [lookedAt_looks, Marked.lookedAt, List.filterMap_nil]
  | skipped hguard => rw [lookedAt_looks, lookedAt_upkeep, Marked.lookedAt, List.filterMap_nil]
  | faulted hguard hends => rw [lookedAt_looks, lookedAt_step hends.run]
  | reported hguard hends =>
      rw [lookedAt_looks, lookedAt_append, lookedAt_step hends.run, lookedAt_reported, Marked.lookedAt,
        List.filterMap_nil, List.append_nil]

/-- **The guards that are looked at** in a passage are those of the steps that it comes to, each once and in the
world in which its step is reached. -/
theorem Passage.lookedAt (h : Passage ordered e patience name scope place index steps w visits v) :
    lookedAt place (visits.flatMap Visit.turns) =
      visits.mapIdx fun i visit => (index + i, visit.reached) := by
  induction steps generalizing index w visits with
  | nil =>
      obtain ⟨rfl, -⟩ := passage_nil.mp h
      rfl
  | cons step steps ih =>
      obtain ⟨visit, more, rfl, -, hof, hrest⟩ := passage_cons.mp h
      have hmore : Marked.lookedAt place (more.flatMap Visit.turns) =
          more.mapIdx fun i visit => (index + 1 + i, visit.reached) := by
        rcases hrest with ⟨-, rfl, -⟩ | ⟨-, hrest⟩
        · rfl
        · exact ih hrest
      have hnumber : (fun (i : Nat) (visit : Visit) => (index + (i + 1), visit.reached)) =
          fun i visit => (index + 1 + i, visit.reached) := by
        funext i visit
        rw [Nat.add_assoc, Nat.add_comm 1 i]
      rw [List.flatMap_cons, lookedAt_append, hof.lookedAt, hmore, List.mapIdx_cons, hnumber]
      rfl

/-! ### The steps that are executed -/

/-- The step with a number is executed. -/
def Executed (visits : List Visit) (i : Nat) : Prop :=
  ∃ visit o, visits[i]? = some visit ∧ visit.fate = .executed o

/-- The value of the guard of the step with a number, in the world that the steps before it have left. -/
def GuardIs (e : Evaluator) (steps : List Step) (w : World) (visits : List Visit) (i : Nat)
    (value : Except ExpressionError Bool) : Prop :=
  ∃ step x, steps[i]? = some step ∧ (w :: visits.map Visit.left)[i]? = some x ∧
    step.settings.holds e x.context = value

/-- The step with a number is executed, and ends with a fault or with a failure that it does not isolate. -/
def StopsAt (steps : List Step) (visits : List Visit) (i : Nat) : Prop :=
  ∃ step visit, steps[i]? = some step ∧ visits[i]? = some visit ∧ visit.fate.Stops step

theorem Fate.goesOn_iff {fate : Fate} : fate.GoesOn scope step ↔
    ¬ fate.Stops step ∧ ((∃ o, fate = .executed o) ∨ (fate = .skipped ∧ scope = .playbook)) := by
  cases fate with
  | barred error => simp [GoesOn]
  | skipped => simp [GoesOn, Stops]
  | executed o =>
      cases o with
      | error fault => simp [GoesOn, Stops]
      | ok r => simp [GoesOn, Stops]

theorem stopsAt_iff {i : Nat} {visit : Visit} (hvisit : visits[i]? = some visit)
    (hstep : steps[i]? = some step) : StopsAt steps visits i ↔ visit.fate.Stops step := by
  rw [StopsAt, hvisit, hstep]
  simp

theorem Visit.Of.executed_iff {visit : Visit} {q : Pool}
    (hof : visit.Of ordered e patience name scope q step) :
    (∃ o, visit.fate = .executed o) ↔ step.settings.holds e visit.reached.context = .ok true := by
  cases hof with
  | barred hguard => simp [hguard]
  | skipped hguard => simp [hguard]
  | faulted hguard _ => simp [hguard]
  | reported hguard _ => simp [hguard]

theorem Visit.Of.skipped_iff {visit : Visit} {q : Pool}
    (hof : visit.Of ordered e patience name scope q step) :
    visit.fate = .skipped ↔ step.settings.holds e visit.reached.context = .ok false := by
  cases hof with
  | barred hguard => simp [hguard]
  | skipped hguard => simp [hguard]
  | faulted hguard _ => simp [hguard]
  | reported hguard _ => simp [hguard]

namespace Passage

variable (h : Passage ordered e patience name scope place index steps w visits v)

include h

/-- A step that a passage comes to is reached in the world that those before it have left. -/
theorem guardIs_iff {i : Nat} {visit : Visit} {value : Except ExpressionError Bool}
    (hvisit : visits[i]? = some visit) (hstep : steps[i]? = some step) :
    GuardIs e steps w visits i value ↔ step.settings.holds e visit.reached.context = value := by
  have hworld : (w :: visits.map Visit.left)[i]? = some visit.reached := by
    have hlt : i < (visits.map Visit.reached).length := by
      rw [List.length_map]
      exact (List.getElem?_eq_some_iff.mp hvisit).1
    rw [h.worlds, List.getElem?_append_left hlt, List.getElem?_map, hvisit]
    rfl
  rw [GuardIs, hstep, hworld]
  simp

/-- A step is reached if the passage goes on behind all steps before it that it comes to. -/
theorem lt_length {i : Nat} (hi : i < steps.length)
    (hgoes : ∀ j < i, ∀ step visit, steps[j]? = some step → visits[j]? = some visit →
      visit.fate.GoesOn scope step) : i < visits.length := by
  induction i using Nat.strongRecOn with
  | ind i ih =>
      refine (h.reach i).mpr ⟨hi, fun j hj => ?_⟩
      have hreached : j < visits.length :=
        ih j hj (Nat.lt_trans hj hi) fun k hk => hgoes k (Nat.lt_trans hk hj)
      have hstep := List.getElem?_eq_getElem (Nat.lt_trans hj hi)
      have hvisit := List.getElem?_eq_getElem hreached
      exact ⟨_, hvisit, _, hstep, hgoes j hj _ _ hstep hvisit⟩

/-- The visit and the step of a number that is reached. -/
theorem exists_visit {i : Nat} (hi : i < visits.length) : ∃ step visit, steps[i]? = some step ∧
    visits[i]? = some visit ∧ Visit.Of ordered e patience name scope ((index + i) :: place) step visit := by
  have hvisit := List.getElem?_eq_getElem hi
  obtain ⟨step, hstep, hof⟩ := h.visits_of i _ hvisit
  exact ⟨step, _, hstep, hvisit, hof⟩

/-- Whether a passage goes on behind a step that it comes to, by the guard and by how the step has ended. -/
theorem goesOn_iff {i : Nat} {visit : Visit} (hvisit : visits[i]? = some visit)
    (hstep : steps[i]? = some step) : visit.fate.GoesOn scope step ↔
      ¬ StopsAt steps visits i ∧ (GuardIs e steps w visits i (.ok true) ∨
        (GuardIs e steps w visits i (.ok false) ∧ scope = .playbook)) := by
  obtain ⟨s, hs, hof⟩ := h.visits_of i visit hvisit
  obtain rfl : step = s := Option.some.inj (hstep.symm.trans hs)
  rw [stopsAt_iff hvisit hstep, h.guardIs_iff hvisit hstep, h.guardIs_iff hvisit hstep,
    ← hof.executed_iff, ← hof.skipped_iff]
  exact Fate.goesOn_iff

/-- **What is reached**, by the guards: a step is reached if each step before it was executed and has not ended the
sequence, or was skipped in a playbook. -/
theorem reached_iff (i : Nat) : i < visits.length ↔ i < steps.length ∧
    ∀ j < i, ¬ StopsAt steps visits j ∧ (GuardIs e steps w visits j (.ok true) ∨
      (GuardIs e steps w visits j (.ok false) ∧ scope = .playbook)) := by
  constructor
  · intro hi
    obtain ⟨hlt, hbefore⟩ := (h.reach i).mp hi
    refine ⟨hlt, fun j hj => ?_⟩
    obtain ⟨visit, hvisit, step, hstep, hgoes⟩ := hbefore j hj
    exact (h.goesOn_iff hvisit hstep).mp hgoes
  · intro hguards
    obtain ⟨hi, hbefore⟩ := hguards
    refine h.lt_length hi fun j hj step visit hstep hvisit => ?_
    exact (h.goesOn_iff hvisit hstep).mpr (hbefore j hj)

/-- A step is executed if it is reached and its guard is true. -/
theorem executed_iff (i : Nat) : Executed visits i ↔
    GuardIs e steps w visits i (.ok true) ∧
      ∀ j < i, ¬ StopsAt steps visits j ∧ (GuardIs e steps w visits j (.ok true) ∨
        (GuardIs e steps w visits j (.ok false) ∧ scope = .playbook)) := by
  constructor
  · rintro ⟨visit, o, hvisit, hfate⟩
    obtain ⟨step, hstep, hof⟩ := h.visits_of i visit hvisit
    have hi : i < visits.length := (List.getElem?_eq_some_iff.mp hvisit).1
    refine ⟨(h.guardIs_iff hvisit hstep).mpr (hof.executed_iff.mp ⟨o, hfate⟩), ?_⟩
    exact ((h.reached_iff i).mp hi).2
  · rintro ⟨hguard, hbefore⟩
    have hi : i < steps.length := by
      obtain ⟨step, -, hstep, -⟩ := hguard
      exact (List.getElem?_eq_some_iff.mp hstep).1
    obtain ⟨step, visit, hstep, hvisit, hof⟩ := h.exists_visit ((h.reached_iff i).mpr ⟨hi, hbefore⟩)
    obtain ⟨o, hfate⟩ := hof.executed_iff.mpr ((h.guardIs_iff hvisit hstep).mp hguard)
    exact ⟨visit, o, hvisit, hfate⟩

/-- **In a block** a step is executed if the guards up to its own are true, and no step before it has ended with a
fault or a failure that it does not isolate. -/
theorem executed_block (hscope : scope = .block) (i : Nat) : Executed visits i ↔
    (∀ j ≤ i, GuardIs e steps w visits j (.ok true)) ∧ ∀ j < i, ¬ StopsAt steps visits j := by
  rw [h.executed_iff]
  constructor
  · rintro ⟨hguard, hbefore⟩
    refine ⟨fun j hj => ?_, fun j hj => (hbefore j hj).1⟩
    rcases Nat.eq_or_lt_of_le hj with rfl | hlt
    · exact hguard
    · refine (hbefore j hlt).2.resolve_right fun hskipped => ?_
      rw [hscope] at hskipped
      cases hskipped.2
  · rintro ⟨hguards, hstays⟩
    exact ⟨hguards i (Nat.le_refl i), fun j hj => ⟨hstays j hj, Or.inl (hguards j (Nat.le_of_lt hj))⟩⟩

/-- **In a playbook** a step is executed if its guard is true, the guards before it can be evaluated, and no step
before it has ended with a fault or a failure that it does not isolate. -/
theorem executed_playbook (hscope : scope = .playbook) (i : Nat) : Executed visits i ↔
    GuardIs e steps w visits i (.ok true) ∧
      (∀ j < i, ∃ b, GuardIs e steps w visits j (.ok b)) ∧ ∀ j < i, ¬ StopsAt steps visits j := by
  rw [h.executed_iff]
  refine and_congr_right fun _ => ?_
  constructor
  · intro hbefore
    refine ⟨fun j hj => ?_, fun j hj => (hbefore j hj).1⟩
    rcases (hbefore j hj).2 with htrue | ⟨hfalse, -⟩
    · exact ⟨true, htrue⟩
    · exact ⟨false, hfalse⟩
  · rintro ⟨hguards, hstays⟩ j hj
    refine ⟨hstays j hj, ?_⟩
    obtain ⟨b, hb⟩ := hguards j hj
    cases b with
    | true => exact Or.inl hb
    | false => exact Or.inr ⟨hb, hscope⟩

end Passage

/-! ### Steps and further steps -/

/-- The sequence ends at one of the steps: behind it, it does not go on. -/
def Halted (scope : SequenceScope) (steps : List Step) (visits : List Visit) : Prop :=
  ∃ (i : Nat) (step : Step) (visit : Visit), steps[i]? = some step ∧ visits[i]? = some visit ∧
    ¬ visit.fate.GoesOn scope step

theorem halted_cons {visit : Visit} : Halted scope (step :: steps) (visit :: visits) ↔
    ¬ visit.fate.GoesOn scope step ∨ Halted scope steps visits := by
  constructor
  · rintro ⟨i, s, x, hs, hx, hhalts⟩
    cases i with
    | zero =>
        cases hs
        cases hx
        exact Or.inl hhalts
    | succ i => exact Or.inr ⟨i, s, x, hs, hx, hhalts⟩
  · intro hcase
    rcases hcase with hhalts | ⟨i, s, x, hs, hx, hhalts⟩
    · exact ⟨0, step, visit, rfl, rfl, hhalts⟩
    · exact ⟨i + 1, s, x, hs, hx, hhalts⟩

/-- A passage that does not end at one of its steps brings no fault. -/
theorem Passage.fault?_eq_none (h : Passage ordered e patience name scope place index steps w visits v)
    (hgoes : ¬ Halted scope steps visits) : ∀ fate ∈ visits.map Visit.fate, fate.fault? = none := by
  intro fate hfate
  obtain ⟨visit, hvisit, rfl⟩ := List.mem_map.mp hfate
  obtain ⟨i, hi⟩ := List.mem_iff_getElem?.mp hvisit
  obtain ⟨step, hstep, -⟩ := h.visits_of i visit hi
  by_cases hgo : visit.fate.GoesOn scope step
  · exact hgo.fault?_eq_none
  · exact (hgoes ⟨i, step, visit, hstep, hi, hgo⟩).elim

/-- **A passage through steps and further steps** ends at one of the first ones, or goes through all of these and on
through the further ones. -/
theorem passage_append {all : List Visit} :
    Passage ordered e patience name scope place index (xs ++ ys) w all v ↔
      ∃ visits u, Passage ordered e patience name scope place index xs w visits u ∧
        ((Halted scope xs visits ∧ all = visits ∧ v = u) ∨
          (¬ Halted scope xs visits ∧ ∃ more, all = visits ++ more ∧
            Passage ordered e patience name scope place (index + xs.length) ys u more v)) := by
  induction xs generalizing index w all with
  | nil =>
      have hnever (visits : List Visit) : ¬ Halted scope [] visits := by
        rintro ⟨i, step, visit, hstep, -⟩
        cases hstep
      constructor
      · intro h
        exact ⟨[], w, passage_nil.mpr ⟨rfl, rfl⟩, Or.inr ⟨hnever [], all, rfl, h⟩⟩
      · intro hparts
        obtain ⟨visits, u, hnil, hcase⟩ := hparts
        rcases hcase with ⟨hhalted, -⟩ | ⟨-, more, rfl, h⟩
        · exact (hnever visits hhalted).elim
        · obtain ⟨rfl, rfl⟩ := passage_nil.mp hnil
          exact h
  | cons step xs ih =>
      have hlength : index + (step :: xs).length = index + 1 + xs.length := by
        rw [List.length_cons]
        omega
      rw [List.cons_append, passage_cons, hlength]
      constructor
      · intro hfirst
        obtain ⟨visit, more, rfl, rfl, hof, hrest⟩ := hfirst
        rcases hrest with ⟨hstops, rfl, rfl⟩ | ⟨hgoes, hmore⟩
        · refine ⟨[visit], visit.left,
            passage_cons.mpr ⟨visit, [], rfl, rfl, hof, Or.inl ⟨hstops, rfl, rfl⟩⟩, ?_⟩
          exact Or.inl ⟨halted_cons.mpr (Or.inl hstops), rfl, rfl⟩
        · obtain ⟨visits, u, hvisits, hcase⟩ := ih.mp hmore
          refine ⟨visit :: visits, u,
            passage_cons.mpr ⟨visit, visits, rfl, rfl, hof, Or.inr ⟨hgoes, hvisits⟩⟩, ?_⟩
          rcases hcase with ⟨hhalted, rfl, rfl⟩ | ⟨hstays, others, rfl, hothers⟩
          · exact Or.inl ⟨halted_cons.mpr (Or.inr hhalted), rfl, rfl⟩
          · refine Or.inr ⟨fun hhalted => ?_, others, rfl, hothers⟩
            exact (halted_cons.mp hhalted).elim (fun hstops => hstops hgoes) hstays
      · intro hparts
        obtain ⟨visits, u, hvisits, hcase⟩ := hparts
        obtain ⟨visit, more, rfl, rfl, hof, hrest⟩ := passage_cons.mp hvisits
        rcases hrest with ⟨hstops, rfl, rfl⟩ | ⟨hgoes, hmore⟩
        · obtain ⟨-, rfl, rfl⟩ := hcase.resolve_right fun hstays =>
            hstays.1 (halted_cons.mpr (Or.inl hstops))
          exact ⟨visit, [], rfl, rfl, hof, Or.inl ⟨hstops, rfl, rfl⟩⟩
        · rcases hcase with ⟨hhalted, rfl, rfl⟩ | ⟨hstays, others, rfl, hothers⟩
          · have hrest := (halted_cons.mp hhalted).resolve_left fun hstops => hstops hgoes
            have hothers := ih.mpr ⟨more, v, hmore, Or.inl ⟨hrest, rfl, rfl⟩⟩
            exact ⟨visit, more, rfl, rfl, hof, Or.inr ⟨hgoes, hothers⟩⟩
          · refine ⟨visit, more ++ others, rfl, rfl, hof, Or.inr ⟨hgoes, ih.mpr ⟨more, u, hmore, ?_⟩⟩⟩
            exact Or.inr ⟨fun hhalted => hstays (halted_cons.mpr (Or.inr hhalted)), others, rfl, hothers⟩

/-- The result of a passage that goes on through further steps: that of the further steps, unless all of these are
skipped. -/
theorem Passage.result_append {more : List Visit} {o : Outcome}
    (h : Passage ordered e patience name scope place index steps w visits v)
    (hgoes : ¬ Halted scope steps visits) :
    o = Fate.result none ((visits ++ more).map Visit.fate) ↔
      ((∀ x ∈ more, x.fate = .skipped) → o = Fate.result none (visits.map Visit.fate)) ∧
        ((∃ x ∈ more, x.fate ≠ .skipped) → o = Fate.result none (more.map Visit.fate)) := by
  obtain ⟨hall, hsome⟩ := @Fate.result_append none (visits.map Visit.fate) (more.map Visit.fate)
    (h.fault?_eq_none hgoes)
  have hskipped (hmore : ∀ x ∈ more, x.fate = .skipped) := hall (List.forall_mem_map.mpr hmore)
  have hothers : (∃ x ∈ more, x.fate ≠ .skipped) → _ :=
    fun ⟨x, hx, hne⟩ => hsome ⟨x.fate, List.mem_map_of_mem hx, hne⟩
  rw [List.map_append]
  constructor
  · rintro rfl
    exact ⟨hskipped, hothers⟩
  · rintro ⟨hall, hsome⟩
    by_cases hmore : ∀ x ∈ more, x.fate = .skipped
    · rw [hall hmore, hskipped hmore]
    · have hfound : ∃ x ∈ more, x.fate ≠ .skipped := by
        simpa using hmore
      rw [hsome hfound, hothers hfound]

end

/-- **Which steps a sequence runs.**  For any steps, whatever they do, in either scope:

* a sequence ends after the turns of a passage through its steps, and with the result of what has become of
  these: the fault of the step behind which it did not go on or, without one, the report of the last step
  that was executed, and if there is none it has completed;
* in a block the executed steps are those up to which all guards are true and before which none has ended with
  a fault or a failure that it does not isolate; in a playbook a guard need only be true for its own step, and
  for those before it have a value;
* the guards that are looked at are those of the steps that the passage comes to, each once, in order, and in the
  world that the steps before have left;
* steps and further steps do what the first ones do and, unless the sequence ends at one of these, what the
  further ones then do; the report is that of the first ones if all of the further ones are skipped;
* the program, which lets the branches of parallel flows take turns in their order, comes to the end of a
  passage if it comes to an end. -/
theorem sequence_runs_prefix (ordered : Prop) (e : Evaluator) (patience : Nat) (name : String)
    (scope : SequenceScope) (place : Pool) (brief : Brief) (steps : List Step) (w v : World) (o : Outcome) :
    (∀ h, Ends ordered ((Flow.sequence name scope steps).marked e patience place brief) w h o v ↔
      ∃ visits, Passage ordered e patience name scope place 0 steps w visits v ∧
        h = visits.flatMap Visit.turns ∧ o = Fate.result none (visits.map Visit.fate)) ∧
    (∀ visits, Passage ordered e patience name scope place 0 steps w visits v →
      (∀ i, Executed visits i ↔ match scope with
        | .block => (∀ j ≤ i, GuardIs e steps w visits j (.ok true)) ∧
            ∀ j < i, ¬ StopsAt steps visits j
        | .playbook => GuardIs e steps w visits i (.ok true) ∧
            (∀ j < i, ∃ b, GuardIs e steps w visits j (.ok b)) ∧ ∀ j < i, ¬ StopsAt steps visits j) ∧
      lookedAt place (visits.flatMap Visit.turns) = visits.mapIdx fun i visit => (i, visit.reached)) ∧
    (∀ xs ys h, steps = xs ++ ys →
      (Ends ordered ((Flow.sequence name scope steps).marked e patience place brief) w h o v ↔
        ∃ visits u, Passage ordered e patience name scope place 0 xs w visits u ∧
          ((Halted scope xs visits ∧ h = visits.flatMap Visit.turns ∧
              o = Fate.result none (visits.map Visit.fate) ∧ v = u) ∨
            (¬ Halted scope xs visits ∧ ∃ more,
              Passage ordered e patience name scope place xs.length ys u more v ∧
              h = visits.flatMap Visit.turns ++ more.flatMap Visit.turns ∧
              ((∀ x ∈ more, x.fate = .skipped) → o = Fate.result none (visits.map Visit.fate)) ∧
              ((∃ x ∈ more, x.fate ≠ .skipped) → o = Fate.result none (more.map Visit.fate)))))) ∧
    ((∃ fuel, Activity.run fuel ((Flow.sequence name scope steps).work e patience place brief) w =
        some (o, v)) ↔
      ∃ visits, Passage True e patience name scope place 0 steps w visits v ∧
        o = Fate.result none (visits.map Visit.fate)) := by
  have hends (ordered : Prop) (h : List Turn) :
      Ends ordered ((Flow.sequence name scope steps).marked e patience place brief) w h o v ↔
        ∃ visits, Passage ordered e patience name scope place 0 steps w visits v ∧
          h = visits.flatMap Visit.turns ∧ o = Fate.result none (visits.map Visit.fate) := by
    rw [Flow.marked]
    exact Flow.ends_sequence
  refine ⟨hends ordered, fun visits hpassage => ⟨fun i => ?_, ?_⟩, ?_, ?_⟩
  · cases scope with
    | block => exact hpassage.executed_block rfl i
    | playbook => exact hpassage.executed_playbook rfl i
  · simpa using hpassage.lookedAt
  · rintro xs ys h rfl
    rw [hends ordered h]
    constructor
    · intro hclosed
      obtain ⟨all, hall, rfl, hresult⟩ := hclosed
      obtain ⟨visits, u, hvisits, hcase⟩ := passage_append.mp hall
      rcases hcase with ⟨hhalted, rfl, rfl⟩ | ⟨hgoes, more, rfl, hmore⟩
      · exact ⟨all, v, hvisits, Or.inl ⟨hhalted, rfl, hresult, rfl⟩⟩
      · rw [Nat.zero_add] at hmore
        refine ⟨visits, u, hvisits, Or.inr ⟨hgoes, more, hmore, List.flatMap_append, ?_⟩⟩
        exact (hvisits.result_append hgoes).mp hresult
    · intro hparts
      obtain ⟨visits, u, hvisits, hcase⟩ := hparts
      rcases hcase with ⟨hhalted, rfl, hresult, rfl⟩ | ⟨hgoes, more, hmore, rfl, hresult⟩
      · exact ⟨visits, passage_append.mpr ⟨visits, v, hvisits, Or.inl ⟨hhalted, rfl, rfl⟩⟩, rfl, hresult⟩
      · rw [← Nat.zero_add xs.length] at hmore
        refine ⟨visits ++ more,
          passage_append.mpr ⟨visits, u, hvisits, Or.inr ⟨hgoes, more, rfl, hmore⟩⟩,
          List.flatMap_append.symm, ?_⟩
        exact (hvisits.result_append hgoes).mpr hresult
  · rw [← Flow.plain_marked, run_iff_ends]
    constructor
    · rintro ⟨h, hrun⟩
      obtain ⟨visits, hpassage, -, hresult⟩ := (hends True h).mp hrun
      exact ⟨visits, hpassage, hresult⟩
    · rintro ⟨visits, hpassage, hresult⟩
      exact ⟨_, (hends True _).mpr ⟨visits, hpassage, rfl, hresult⟩⟩

end Runsheet
