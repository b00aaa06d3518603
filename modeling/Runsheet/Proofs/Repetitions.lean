import Mathlib.Algebra.GroupWithZero.Nat
import Runsheet.Proofs.Endings

/-!
# How often a repetition executes its step

A repetition looks at the guard of its step once.  If the guard is true it executes the step round by
round, each time after the delay of the step, on the world that the rounds before have left; and the report
of a round decides whether there is another one.

* `Rounds` — the rounds of a repetition: earlier ones, behind which it goes on, and the last one;
* `rounds_succ` — a first round, and those that follow it;
* `ends_rounds`, `Flow.ends_repetition` — a repetition ends after the turns of its rounds;
* `Repeats.lookedAt`, `Repeats.ticks` — one look at the guard, and the time that passes;
* `rounds_times`, `rounds_while` — how many rounds there are, by the way of repeating;
* `repetition_counts_rounds` — the result.
-/

namespace Runsheet

open Marked

/-- **A round of a repetition**: the world in which it begins, the turns of the step behind its delay, the
outcome, and the world that it leaves. -/
structure Round where
  start : World
  work : List Turn
  outcome : Outcome
  stop : World

namespace Round

/-- The turns of the step in a round: it waits for its delay, and is executed. -/
def execution (place : Pool) (step : Step) (round : Round) : List Turn :=
  opening place step.flow.first step.label step.settings.delay round.start ++ round.work

/-- The turn after a round that has given a report: it is looked at whether there is another one. -/
def asking (place : Pool) (round : Round) : List Turn :=
  match round.outcome with
  | .ok _ => [.own ⟨place, .upkeep⟩ [] round.stop round.stop]
  | .error _ => []

/-- All turns of a round. -/
def turns (place : Pool) (step : Step) (round : Round) : List Turn :=
  round.execution place step ++ round.asking place

/-- **In a round** the step is executed once, in the world after its delay. -/
def Of (ordered : Prop) (e : Evaluator) (patience : Nat) (place : Pool) (step : Step) (round : Round) : Prop :=
  Ends ordered (step.flow.marked e patience place step.brief)
    (opened step.label step.settings.delay round.start) round.work round.outcome round.stop

/-- **The repetition goes on** behind the round of a number, counted from one: the round has given a
report, and this report, in the world that the round has left, lets the step run again. -/
def GoesOn (mode : Repetition) (number : Nat) (round : Round) : Prop :=
  ∃ r, round.outcome = .ok r ∧ mode.again number round.stop r = true

/-- The world after the last round: the number of rounds has been noted if it gave a report. -/
def counted (label : String) (number : Nat) (last : Round) : World :=
  match last.outcome with
  | .ok _ => last.stop.note .debug (label ++ " ran " ++ toString number ++ " times")
  | .error _ => last.stop

/-- The turn after the last round, if it gave a report. -/
def counting (around : Pool) (label : String) (number : Nat) (last : Round) : List Turn :=
  match last.outcome with
  | .ok _ => [.own ⟨around, .upkeep⟩ [] last.stop (last.counted label number)]
  | .error _ => []

variable {ordered : Prop} {e : Evaluator} {patience : Nat} {place : Pool} {step : Step} {round : Round}

/-- A round is an execution of the step with its delay. -/
theorem Of.ends (hof : round.Of ordered e patience place step) :
    Ends ordered (step.marked e patience place) round.start (round.execution place step) round.outcome
      round.stop := by
  obtain ⟨settings, flow⟩ := step
  rw [Step.marked]
  exact ends_delayed.mpr ⟨round.work, rfl, hof⟩

theorem exists_of {w v : World} {h : List Turn} {o : Outcome}
    (hends : Ends ordered (step.marked e patience place) w h o v) :
    ∃ round : Round, round.Of ordered e patience place step ∧ round.start = w ∧
      h = round.execution place step ∧ round.outcome = o ∧ round.stop = v := by
  obtain ⟨settings, flow⟩ := step
  rw [Step.marked] at hends
  obtain ⟨g, rfl, hwork⟩ := ends_delayed.mp hends
  exact ⟨⟨w, g, o, v⟩, hwork, rfl, rfl, rfl, rfl⟩

/-- A round takes the delay of the step, and the time of its execution. -/
theorem ticks_turns (place : Pool) (step : Step) (round : Round) :
    ticks (round.turns place step) = step.settings.delay + ticks round.work := by
  have hasking : ticks (round.asking place) = 0 := by
    unfold asking
    split <;> rfl
  rw [turns, execution, ticks_append, ticks_append, ticks_opening, hasking, Nat.add_zero]

end Round

/-- **The rounds of a repetition** behind a number of others, if there may be only so many: earlier
ones, behind each of which the repetition goes on, and the last one, behind which it does not.  Each
executes the step, and begins in the world that the one before has left. -/
structure Rounds (ordered : Prop) (e : Evaluator) (patience : Nat) (place : Pool) (step : Step)
    (mode : Repetition) (count left : Nat) (w : World) (earlier : List Round) (last : Round) : Prop where
  rounds_of : ∀ round ∈ earlier ++ [last], round.Of ordered e patience place step
  starts : (earlier ++ [last]).map Round.start = w :: earlier.map Round.stop
  goes_on : ∀ (i : Nat) (round : Round), earlier[i]? = some round → round.GoesOn mode (count + i + 1)
  stops : ¬ last.GoesOn mode (count + earlier.length + 1)
  length_lt : earlier.length < left

section

variable {ordered : Prop} {e : Evaluator} {patience : Nat} {place : Pool} {step : Step}
variable {mode : Repetition} {count left : Nat} {w v : World} {earlier : List Round} {last : Round}

/-! ### Rounds, one by one -/

theorem not_rounds_zero : ¬ Rounds ordered e patience place step mode count 0 w earlier last :=
  fun h => Nat.not_lt_zero _ h.length_lt

/-- **A first round**: it is the last one, or others follow it in the world that it leaves. -/
theorem rounds_succ : Rounds ordered e patience place step mode count (left + 1) w earlier last ↔
    ∃ round : Round, round.Of ordered e patience place step ∧ round.start = w ∧
      ((earlier = [] ∧ last = round ∧ ¬ round.GoesOn mode (count + 1)) ∨
        ∃ more, earlier = round :: more ∧ round.GoesOn mode (count + 1) ∧
          Rounds ordered e patience place step mode (count + 1) left round.stop more last) := by
  have hnumber (j : Nat) : count + (j + 1) + 1 = count + 1 + j + 1 := by omega
  constructor
  · intro h
    cases earlier with
    | nil =>
        have hof := h.rounds_of last (List.mem_singleton_self last)
        have hstart : [last.start] = [w] := h.starts
        exact ⟨last, hof, List.singleton_inj.mp hstart, Or.inl ⟨rfl, rfl, h.stops⟩⟩
    | cons round more =>
        obtain ⟨hof, hothers⟩ := List.forall_mem_cons.mp h.rounds_of
        have hstarts := h.starts
        rw [List.cons_append, List.map_cons, List.cons.injEq] at hstarts
        have hgoes : round.GoesOn mode (count + 1) := h.goes_on 0 round rfl
        refine ⟨round, hof, hstarts.1, Or.inr ⟨more, rfl, hgoes, hothers, hstarts.2, ?_, ?_, ?_⟩⟩
        · intro i next hnext
          rw [← hnumber]
          exact h.goes_on (i + 1) next hnext
        · rw [← hnumber]
          exact h.stops
        · exact Nat.lt_of_succ_lt_succ h.length_lt
  · intro hfirst
    obtain ⟨round, hof, rfl, hrest⟩ := hfirst
    rcases hrest with ⟨rfl, rfl, hstops⟩ | ⟨more, rfl, hgoes, h⟩
    · exact ⟨List.forall_mem_singleton.mpr hof, rfl, nofun, hstops, Nat.succ_pos left⟩
    · refine ⟨List.forall_mem_cons.mpr ⟨hof, h.rounds_of⟩, ?_, ?_, ?_, Nat.succ_lt_succ h.length_lt⟩
      · rw [List.cons_append, List.map_cons, h.starts, List.map_cons]
      · intro i next hnext
        cases i with
        | zero =>
            obtain rfl : round = next := Option.some.inj hnext
            exact hgoes
        | succ i =>
            rw [hnumber]
            exact h.goes_on i next hnext
      · rw [List.length_cons, hnumber]
        exact h.stops

/-- **Rounds end** after the turns of all of them, with the outcome of the last one. -/
theorem ends_rounds {around : Pool} {label : String} {h : List Turn} {o : Outcome} :
    Ends ordered (rounds around mode label (step.marked e patience (0 :: around)) count left) w h o v ↔
      ∃ earlier last, Rounds ordered e patience (0 :: around) step mode count left w earlier last ∧
        h = (earlier ++ [last]).flatMap (Round.turns (0 :: around) step) ++
          last.counting around label (count + earlier.length + 1) ∧
        o = last.outcome ∧ v = last.counted label (count + earlier.length + 1) := by
  induction left generalizing count w h v with
  | zero =>
      constructor
      · intro hends
        exact (not_ends_never hends).elim
      · intro hclosed
        obtain ⟨earlier, last, hrounds, -⟩ := hclosed
        exact (not_rounds_zero hrounds).elim
  | succ left ih =>
      have hnumber (j : Nat) : count + (j + 1) + 1 = count + 1 + j + 1 := by omega
      rw [rounds, ends_onReport]
      constructor
      · intro hsplit
        rcases hsplit with ⟨fault, rfl, hends⟩ | ⟨h₁, h₂, r, x, rfl, hends, hnext⟩
        · obtain ⟨round, hof, hstart, rfl, houtcome, rfl⟩ := Round.exists_of hends
          have hstops : ¬ round.GoesOn mode (count + 1) := by
            intro hgoes
            obtain ⟨r, hr, -⟩ := hgoes
            cases houtcome.symm.trans hr
          refine ⟨[], round, rounds_succ.mpr ⟨round, hof, hstart, Or.inl ⟨rfl, rfl, hstops⟩⟩, ?_,
            houtcome.symm, ?_⟩
          · simp [Round.turns, Round.asking, Round.counting, houtcome]
          · simp [Round.counted, houtcome]
        · obtain ⟨round, hof, hstart, rfl, houtcome, rfl⟩ := Round.exists_of hends
          obtain ⟨h₃, rfl, hlater⟩ := ends_look.mp hnext
          by_cases hagain : mode.again (count + 1) round.stop r = true
          · rw [if_pos hagain] at hlater
            obtain ⟨more, last, hmore, rfl, rfl, rfl⟩ := ih.mp hlater
            have hgoes : round.GoesOn mode (count + 1) := ⟨r, houtcome, hagain⟩
            refine ⟨round :: more, last,
              rounds_succ.mpr ⟨round, hof, hstart, Or.inr ⟨more, rfl, hgoes, hmore⟩⟩, ?_, rfl, ?_⟩
            · simp [Round.turns, Round.asking, houtcome, hnumber]
            · rw [List.length_cons, hnumber]
          · rw [if_neg hagain, ends_note] at hlater
            obtain ⟨g, rfl, hend⟩ := hlater
            obtain ⟨rfl, rfl, rfl⟩ := ends_report.mp hend
            have hstops : ¬ round.GoesOn mode (count + 1) := by
              intro hgoes
              obtain ⟨r', hr', hagain'⟩ := hgoes
              cases houtcome.symm.trans hr'
              exact hagain hagain'
            refine ⟨[], round, rounds_succ.mpr ⟨round, hof, hstart, Or.inl ⟨rfl, rfl, hstops⟩⟩, ?_,
              houtcome.symm, ?_⟩
            · simp [Round.turns, Round.asking, Round.counting, Round.counted, houtcome]
            · simp [Round.counted, houtcome]
      · intro hclosed
        obtain ⟨earlier, last, hrounds, rfl, rfl, rfl⟩ := hclosed
        obtain ⟨round, hof, rfl, hrest⟩ := rounds_succ.mp hrounds
        rcases hrest with ⟨rfl, rfl, hstops⟩ | ⟨more, rfl, hgoes, hmore⟩
        · have hends := hof.ends
          cases houtcome : last.outcome with
          | error fault =>
              rw [houtcome] at hends
              refine Or.inl ⟨fault, rfl, ?_⟩
              simpa [Round.turns, Round.asking, Round.counting, Round.counted, houtcome] using hends
          | ok r =>
              have hstays : ¬ mode.again (count + 1) last.stop r = true :=
                fun hagain => hstops ⟨r, houtcome, hagain⟩
              rw [houtcome] at hends
              refine Or.inr ⟨last.execution (0 :: around) step,
                last.asking (0 :: around) ++ last.counting around label (count + 1), r, last.stop,
                by simp [Round.turns], hends, ends_look.mpr ⟨last.counting around label (count + 1), ?_, ?_⟩⟩
              · simp [Round.asking, houtcome]
              rw [if_neg hstays, ends_note]
              refine ⟨[], ?_, ends_report.mpr ⟨rfl, rfl, ?_⟩⟩
              · simp [Round.counting, Round.counted, houtcome]
              · simp [Round.counted, houtcome]
        · obtain ⟨r, houtcome, hagain⟩ := hgoes
          have hends := hof.ends
          rw [houtcome] at hends
          have hasking : round.asking (0 :: around) = [.own ⟨0 :: around, .upkeep⟩ [] round.stop round.stop] := by
            rw [Round.asking, houtcome]
          rw [List.cons_append, List.flatMap_cons, List.append_assoc, Round.turns, List.append_assoc,
            hasking]
          refine Or.inr ⟨_, _, r, round.stop, rfl, hends, ends_look.mpr ⟨_, rfl, ?_⟩⟩
          rw [if_pos hagain, List.length_cons, hnumber]
          exact ih.mpr ⟨more, last, hmore, rfl, rfl, rfl⟩

end

/-- **What a repetition does**, with its rounds, the turns, the outcome and the world that it leaves:
it looks at the guard of its step, once.  If the guard cannot be evaluated it ends with that error; if
it is false it fails; and otherwise it ends with the outcome of its last round. -/
inductive Repeats (ordered : Prop) (e : Evaluator) (patience : Nat) (place : Pool) (mode : Repetition)
    (step : Step) (w : World) : List Round → List Turn → Outcome → World → Prop
  | barred {error : ExpressionError} (hguard : step.settings.holds e w.context = .error error) :
      Repeats ordered e patience place mode step w [] [looks (0 :: place) step.settings w]
        (.error (.ofError error)) w
  | refused (hguard : step.settings.holds e w.context = .ok false) :
      Repeats ordered e patience place mode step w []
        [looks (0 :: place) step.settings w,
          .own ⟨0 :: place, .upkeep⟩ [] w
            (w.note .warn
              ("Not repeating " ++ step.label ++ ", condition not met: " ++ step.settings.guardText))]
        (.ok (.failed ("condition not met: " ++ step.settings.guardText)))
        (w.note .warn
          ("Not repeating " ++ step.label ++ ", condition not met: " ++ step.settings.guardText))
  | repeated {earlier : List Round} {last : Round}
      (hguard : step.settings.holds e w.context = .ok true)
      (hrounds : Rounds ordered e patience (0 :: place) step mode 0
        (Activity.roundsOf patience mode) w earlier last) :
      Repeats ordered e patience place mode step w (earlier ++ [last])
        (looks (0 :: place) step.settings w ::
          ((earlier ++ [last]).flatMap (Round.turns (0 :: place) step) ++
            last.counting place step.label (earlier.length + 1)))
        last.outcome (last.counted step.label (earlier.length + 1))

section

variable {ordered : Prop} {e : Evaluator} {patience : Nat} {name : String} {place : Pool}
variable {brief : Brief} {mode : Repetition} {step : Step} {w v : World} {h : List Turn} {o : Outcome}
variable {all earlier : List Round} {last : Round}

/-- **A repetition ends** in what a repetition does, and in nothing else. -/
theorem Flow.ends_repetition :
    Ends ordered ((Flow.repetition name mode step).marked e patience place brief) w h o v ↔
      ∃ all, Repeats ordered e patience place mode step w all h o v := by
  obtain ⟨settings, flow⟩ := step
  rw [Flow.marked, ends_check]
  have hbody : delayed (0 :: place) flow.first (Step.mk settings flow).label settings.delay
      (flow.marked e patience (0 :: place) (Step.mk settings flow).brief) =
        (Step.mk settings flow).marked e patience (0 :: place) := by
    rw [Step.marked]
  constructor
  · intro hlook
    obtain ⟨g, rfl, hcase⟩ := hlook
    rcases hcase with ⟨error, hguard, rfl, rfl, rfl⟩ | ⟨b, hguard, hends⟩
    · exact ⟨[], .barred hguard⟩
    · cases b with
      | false =>
          obtain ⟨g, rfl, hend⟩ := ends_note.mp hends
          obtain ⟨rfl, rfl, rfl⟩ := ends_report.mp hend
          exact ⟨[], .refused hguard⟩
      | true =>
          rw [hbody, ends_rounds] at hends
          obtain ⟨earlier, last, hrounds, rfl, rfl, rfl⟩ := hends
          rw [Nat.zero_add]
          exact ⟨earlier ++ [last], .repeated hguard hrounds⟩
  · intro hclosed
    obtain ⟨all, hrepeats⟩ := hclosed
    cases hrepeats with
    | barred hguard => exact ⟨[], rfl, Or.inl ⟨_, hguard, rfl, rfl, rfl⟩⟩
    | refused hguard =>
        refine ⟨_, rfl, Or.inr ⟨false, hguard, ?_⟩⟩
        exact ends_note.mpr ⟨[], rfl, ends_report.mpr ⟨rfl, rfl, rfl⟩⟩
    | repeated hguard hrounds =>
        refine ⟨_, rfl, Or.inr ⟨true, hguard, ?_⟩⟩
        rw [hbody, ends_rounds]
        exact ⟨_, _, hrounds, by rw [Nat.zero_add], rfl, by rw [Nat.zero_add]⟩

/-! ### The look at the guard, and the time -/

theorem Round.lookedAt_counting (around : Pool) (label : String) (number : Nat) (last : Round) :
    lookedAt place (last.counting around label number) = [] := by
  unfold counting
  split
  · rw [lookedAt_upkeep]
    rfl
  · rfl

theorem Round.ticks_counting (around : Pool) (label : String) (number : Nat) (last : Round) :
    ticks (last.counting around label number) = 0 := by
  unfold counting
  split <;> rfl

/-- In its rounds a repetition does not look at the guard of its step. -/
theorem lookedAt_rounds (hall : ∀ round ∈ all, round.Of ordered e patience (0 :: place) step) :
    lookedAt place (all.flatMap (Round.turns (0 :: place) step)) = [] := by
  induction all with
  | nil => rfl
  | cons round more ih =>
      obtain ⟨hof, hmore⟩ := List.forall_mem_cons.mp hall
      have hasking : lookedAt place (round.asking (0 :: place)) = [] := by
        unfold Round.asking
        split
        · exact lookedAt_upkeep ..
        · rfl
      rw [List.flatMap_cons, Round.turns, lookedAt_append, lookedAt_append, lookedAt_step hof.ends.run,
        hasking, ih hmore, List.append_nil, List.append_nil]

/-- Rounds take the time of each of them. -/
theorem ticks_rounds (all : List Round) : ticks (all.flatMap (Round.turns place step)) =
    (all.map fun round => step.settings.delay + ticks round.work).sum := by
  induction all with
  | nil => rfl
  | cons round more ih =>
      rw [List.flatMap_cons, ticks_append, Round.ticks_turns, ih, List.map_cons, List.sum_cons]

/-- **A repetition looks at the guard of its step once**, before anything else. -/
theorem Repeats.lookedAt (hrepeats : Repeats ordered e patience place mode step w all h o v) :
    lookedAt place h = [(0, w)] := by
  cases hrepeats with
  | barred hguard =>
      rw [lookedAt_looks]
      rfl
  | refused hguard =>
      rw [lookedAt_looks, lookedAt_upkeep]
      rfl
  | repeated hguard hrounds =>
      rw [lookedAt_looks, lookedAt_append, lookedAt_rounds hrounds.rounds_of, Round.lookedAt_counting,
        List.append_nil]

/-- **The time of a repetition** is the delay and the work of each of its rounds. -/
theorem Repeats.ticks (hrepeats : Repeats ordered e patience place mode step w all h o v) :
    ticks h = (all.map fun round => step.settings.delay + ticks round.work).sum := by
  cases hrepeats with
  | barred hguard => rfl
  | refused hguard => rfl
  | repeated hguard hrounds =>
      rw [looks, ticks_own, ticks_append, ticks_rounds, Round.ticks_counting, Nat.add_zero]

/-- A repetition has rounds if and only if the guard of its step is true. -/
theorem Repeats.ne_nil_iff (hrepeats : Repeats ordered e patience place mode step w all h o v) :
    all ≠ [] ↔ step.settings.holds e w.context = .ok true := by
  cases hrepeats with
  | barred hguard => simp [hguard]
  | refused hguard => simp [hguard]
  | repeated hguard hrounds => simp [hguard]

/-! ### The number of rounds -/

/-- **Counted rounds**: the repetition comes to its number, which is one if it is zero, unless a round
faults. -/
theorem rounds_times {n : Nat} :
    Rounds ordered e patience place step (.times n) 0 (Activity.roundsOf patience (.times n)) w earlier
        last ↔
      (∀ round ∈ earlier ++ [last], round.Of ordered e patience place step) ∧
      (earlier ++ [last]).map Round.start = w :: earlier.map Round.stop ∧
      (∀ round ∈ earlier, ∃ r, round.outcome = .ok r) ∧
      earlier.length + 1 ≤ max 1 n ∧
      ((∃ r, last.outcome = .ok r) → earlier.length + 1 = max 1 n) := by
  have hbound : Activity.roundsOf patience (.times n) = max 1 n := Nat.max_comm n 1
  constructor
  · intro hrounds
    have hlt := hrounds.length_lt
    rw [hbound] at hlt
    refine ⟨hrounds.rounds_of, hrounds.starts, ?_, hlt, ?_⟩
    · intro round hround
      obtain ⟨i, hi⟩ := List.mem_iff_getElem?.mp hround
      obtain ⟨r, hr, -⟩ := hrounds.goes_on i round hi
      exact ⟨r, hr⟩
    · intro hreport
      obtain ⟨r, hr⟩ := hreport
      have hle : ¬ 0 + earlier.length + 1 < n :=
        fun hmore => hrounds.stops ⟨r, hr, decide_eq_true hmore⟩
      omega
  · intro hclosed
    obtain ⟨hof, hstarts, hreports, hle, hcount⟩ := hclosed
    refine ⟨hof, hstarts, ?_, ?_, ?_⟩
    · intro i round hi
      obtain ⟨r, hr⟩ := hreports round (List.mem_of_getElem? hi)
      obtain ⟨hlt, -⟩ := List.getElem?_eq_some_iff.mp hi
      have hnumber : 0 + i + 1 < n := by omega
      exact ⟨r, hr, decide_eq_true hnumber⟩
    · intro hgoes
      obtain ⟨r, hr, hagain⟩ := hgoes
      have hmore : 0 + earlier.length + 1 < n := of_decide_eq_true hagain
      have hlength := hcount ⟨r, hr⟩
      omega
    · rw [hbound]
      exact hle

/-- **Rounds while a test holds**: the last round is the first one whose report does not pass, or that
faults. -/
theorem rounds_while {p : Predicate} :
    Rounds ordered e patience place step (.whileHolds p) 0 (Activity.roundsOf patience (.whileHolds p)) w
        earlier last ↔
      (∀ round ∈ earlier ++ [last], round.Of ordered e patience place step) ∧
      (earlier ++ [last]).map Round.start = w :: earlier.map Round.stop ∧
      (∀ round ∈ earlier, ∃ r, round.outcome = .ok r ∧ p.passes round.stop r = true) ∧
      (∀ r, last.outcome = .ok r → p.passes last.stop r = false) ∧
      earlier.length < patience := by
  constructor
  · intro hrounds
    refine ⟨hrounds.rounds_of, hrounds.starts, ?_, ?_, hrounds.length_lt⟩
    · intro round hround
      obtain ⟨i, hi⟩ := List.mem_iff_getElem?.mp hround
      exact hrounds.goes_on i round hi
    · intro r hr
      have hstays : ¬ p.passes last.stop r = true := fun hpasses => hrounds.stops ⟨r, hr, hpasses⟩
      exact Bool.eq_false_iff.mpr hstays
  · intro hclosed
    obtain ⟨hof, hstarts, hpass, hlast, hlt⟩ := hclosed
    refine ⟨hof, hstarts, fun i round hi => hpass round (List.mem_of_getElem? hi), ?_, hlt⟩
    intro hgoes
    obtain ⟨r, hr, hagain⟩ := hgoes
    cases (hlast r hr).symm.trans hagain

end

/-- **How often a repetition executes its step.**  For any step, whatever it does, any way of repeating it and any
context:

* a repetition does what `Repeats` says, and nothing else: with a guard that cannot be evaluated it ends with
  that error, with a false one it fails, and otherwise it ends after its rounds, with the outcome of the last
  one and in the world that it has left;
* it executes the step at all only if the guard is true, looks at the guard once, and takes the delay of the
  step and the time of its work for each round, and no other time;
* each round begins in the world that the one before has left.  Counted rounds are as many as their number, and
  one if it is zero, whatever is reported; rounds while a test holds go on up to the first report that does not
  pass in the world that the round has left, which must come while the run has patience; and in either way a
  fault ends them at once;
* the program, which lets the branches of parallel flows take turns in their order, comes to the end of such
  a repetition if it comes to an end. -/
theorem repetition_counts_rounds (ordered : Prop) (e : Evaluator) (patience : Nat) (name : String)
    (mode : Repetition) (place : Pool) (brief : Brief) (step : Step) (w v : World) (o : Outcome) :
    (∀ h, Ends ordered ((Flow.repetition name mode step).marked e patience place brief) w h o v ↔
      ∃ all, Repeats ordered e patience place mode step w all h o v) ∧
    (∀ all h, Repeats ordered e patience place mode step w all h o v →
      (all ≠ [] ↔ step.settings.holds e w.context = .ok true) ∧
      lookedAt place h = [(0, w)] ∧
      ticks h = (all.map fun round => step.settings.delay + ticks round.work).sum) ∧
    (∀ earlier last, Rounds ordered e patience (0 :: place) step mode 0 (Activity.roundsOf patience mode) w
        earlier last ↔
      (∀ round ∈ earlier ++ [last], round.Of ordered e patience (0 :: place) step) ∧
      (earlier ++ [last]).map Round.start = w :: earlier.map Round.stop ∧
      match mode with
      | .times n => (∀ round ∈ earlier, ∃ r, round.outcome = .ok r) ∧ earlier.length + 1 ≤ max 1 n ∧
          ((∃ r, last.outcome = .ok r) → earlier.length + 1 = max 1 n)
      | .whileHolds p =>
          (∀ round ∈ earlier, ∃ r, round.outcome = .ok r ∧ p.passes round.stop r = true) ∧
          (∀ r, last.outcome = .ok r → p.passes last.stop r = false) ∧ earlier.length < patience) ∧
    ((∃ fuel, Activity.run fuel ((Flow.repetition name mode step).work e patience place brief) w =
        some (o, v)) ↔
      ∃ all h, Repeats True e patience place mode step w all h o v) := by
  refine ⟨fun h => Flow.ends_repetition,
    fun all h hrepeats => ⟨hrepeats.ne_nil_iff, hrepeats.lookedAt, hrepeats.ticks⟩,
    fun earlier last => ?_, ?_⟩
  · cases mode with
    | times n => exact rounds_times
    | whileHolds p => exact rounds_while
  · rw [← Flow.plain_marked, run_iff_ends, exists_comm]
    exact exists_congr fun h => Flow.ends_repetition

/-- The task that makes an entry in the journal. -/
private def noting : Executable where
  name := "note"
  behave _ b := .instant fun w => (.completed, w.record "note" b.label "")

/-- A test that looks at the journal lets the step be executed until there are four entries. -/
example : (Activity.run 0 ((Flow.repetition "repeat"
      (.whileHolds (.looking fun w _ => decide (w.entries.length < 4))) (.mk {} (.task noting))).work
        (.standard {}) 10 [] ⟨"repeat", none, []⟩) {}).map
      (fun ending => (ending.1, ending.2.entries.length)) = some (.ok .completed, 4) :=
  rfl

end Runsheet
