import Runsheet.Proofs.Acceptance
import Runsheet.Proofs.MarkedWork
import Runsheet.Proofs.Nodes
import Runsheet.Proofs.Schedule

/-!
# Declared order

Steps of a sequence run in the order in which they are declared, wherever the sequence stands and
whatever goes on beside it.  `Before X Y s` says of a marked activity that it does everything with the
property `X` before anything with the property `Y`: at a turn with `Y` nothing with `X` is left, neither
under way nor to come.

* `Marked.Before.move`, `Marked.Before.elapse` — every move keeps it, and so does time;
* `Marked.Before.run` — what it says about a whole run;
* `Plan.before_of_stepsOf` — the steps of tasks, along the way to the block whose order it is;
* `declared_order` — the order of a compiled playbook.
-/

namespace Runsheet

namespace Marked

/-- Everything with the property `X` is done before anything with the property `Y`.  Where one activity
comes after the other, `Y` is not in the first or `X` is not in the second; of the branches of a split
at most one has anything to do with the two. -/
inductive Before (X Y : Mark → Prop) : Marked → Prop
  | past {s : Marked} (hs : Only (¬ X ·) s) : Before X Y s
  | act {m : Mark} {f : World → World} {next : World → Marked} (hm : ¬ Y m)
      (hnext : ∀ w, Before X Y (next w)) : Before X Y (.act m f next)
  | sleep {m : Mark} {ms : Nat} {next : World → Marked} (hm : ¬ Y m)
      (hnext : ∀ w, Before X Y (next w)) : Before X Y (.sleep m ms next)
  | first {s : Marked} {k : Outcome → Marked} (hs : Only (¬ Y ·) s)
      (hk : ∀ o, Before X Y (k o)) : Before X Y (s.bind k)
  | last {s : Marked} {k : Outcome → Marked} (hs : Before X Y s) (hk : ∀ o, Only (¬ X ·) (k o)) :
      Before X Y (s.bind k)
  | within {m : Mark} {left : Nat} {body : Marked} {next : Option Outcome → Marked}
      (hm : ¬ X m ∧ ¬ Y m) (hbody : Before X Y body) (hnext : ∀ o, Only (¬ X ·) (next o)) :
      Before X Y (.within m left body next)
  | fork {m : Mark} {tally : Tally} {slots : List (Slot Marked)} {i : Nat} {next : Reading → Marked}
      (hm : ¬ X m ∧ ¬ Y m) (hpart : ∀ s, Ongoing slots i s → Before X Y s)
      (hothers : ∀ j s, Ongoing slots j s → j ≠ i → Only (fun m => ¬ X m ∧ ¬ Y m) s)
      (hnext : ∀ r, Only (¬ X ·) (next r)) : Before X Y (.fork m tally slots next)

variable {X Y : Mark → Prop} {ordered : Prop} {m : Mark} {way : Activity.Way} {s t : Marked}
variable {w v : World}
variable {h g : List Turn}

/-! ### It is kept -/

/-- **A move keeps the order**, and when something with the second property has its turn nothing with
the first one is left. -/
theorem Before.move (hs : Before X Y s) (hmove : Move ordered m way s w t v) :
    Before X Y t ∧ (Y m → Only (¬ X ·) s) := by
  induction hs generalizing m way w t v with
  | past hs => exact ⟨.past (hs.move hmove).2, fun _ => hs⟩
  | act hm hnext =>
      cases hmove
      exact ⟨hnext _, fun hy => (hm hy).elim⟩
  | sleep hm hnext =>
      cases hmove
      exact ⟨hnext _, fun hy => (hm hy).elim⟩
  | first hs hk ih =>
      rcases hmove.of_bind with ⟨s', hfirst, rfl⟩ | ⟨o, rfl, hnext⟩
      · obtain ⟨hm, hs'⟩ := hs.move hfirst
        exact ⟨.first hs' hk, fun hy => (hm hy).elim⟩
      · exact ih o hnext
  | last hs hk ih =>
      rcases hmove.of_bind with ⟨s', hfirst, rfl⟩ | ⟨o, rfl, hnext⟩
      · obtain ⟨hs', hover⟩ := ih hfirst
        exact ⟨.last hs' hk, fun hy => (hover hy).bind hk⟩
      · exact ⟨.past ((hk o).move hnext).2, fun _ => hk o⟩
  | within hm hbody hnext ih =>
      cases hmove with
      | inside _ hmove =>
          obtain ⟨hbody', hover⟩ := ih hmove
          exact ⟨.within hm hbody' hnext, fun hy => .within hm.1 (hover hy) hnext⟩
      | inTime => exact ⟨.past (hnext _), fun hy => (hm.2 hy).elim⟩
      | late => exact ⟨.past (hnext _), fun hy => (hm.2 hy).elim⟩
  | @fork n tally slots i next hm hpart hothers hnext ih =>
      -- When the branch that matters is over for the first property, the whole split is.
      have hover (hbranch : ∀ s, Ongoing slots i s → Only (¬ X ·) s) :
          Only (¬ X ·) (.fork n tally slots next) := by
        refine .fork hm.1 (forall_ongoing fun j s hs => ?_) hnext
        by_cases hji : j = i
        · exact hbranch s (hji ▸ hs)
        · exact (hothers j s hs hji).mono fun _ hm => hm.1
      cases hmove.of_fork with
      | @works _ _ k s t _ _ _ hslot hmove =>
          have hs := ongoing_running hslot
          by_cases hki : k = i
          · subst hki
            obtain ⟨ht, hdone⟩ := ih s hs hmove
            refine ⟨.fork (i := k) hm (fun r hr => ?_) (fun j r hr hjk => ?_) hnext, fun hy => hover ?_⟩
            · rcases hr.of_set with ⟨-, heq⟩ | ⟨hne, -⟩
              · cases heq
                exact ht
              · exact (hne rfl).elim
            · exact hothers j r (hr.of_set_other hjk) hjk
            · intro r hr
              rw [hr.unique hs]
              exact hdone hy
          · obtain ⟨hmark, ht⟩ := (hothers k s hs hki).move hmove
            refine ⟨.fork (i := i) hm (fun r hr => ?_) (fun j r hr hji => ?_) hnext, fun hy =>
              (hmark.2 hy).elim⟩
            · exact hpart r (hr.of_set_other (Ne.symm hki))
            · exact hr.set_running (P := fun j r => j ≠ i → Only (fun m => ¬ X m ∧ ¬ Y m) r)
                (fun _ => ht) hothers hji
      | passes _ _ hparts =>
          exact ⟨.fork (i := i) hm (fun r hr => hpart r (hparts i r hr))
            (fun j r hr => hothers j r (hparts j r hr)) hnext, fun hy => (hm.2 hy).elim⟩
      | ends => exact ⟨.past (hnext _), fun hy => (hm.2 hy).elim⟩

theorem Before.elapse (hs : Before X Y s) (ms : Nat) : Before X Y (s.elapse ms) := by
  induction hs with
  | past hs => exact .past (hs.elapse ms)
  | act hm hnext => exact .act hm hnext
  | sleep hm hnext => exact .sleep hm hnext
  | @first s k hs hk ih =>
      rcases elapse_bind s k ms with heq | ⟨o, rfl⟩
      · exact heq ▸ .first (hs.elapse ms) hk
      · exact ih o
  | @last s k hs hk ih =>
      rcases elapse_bind s k ms with heq | ⟨o, rfl⟩
      · exact heq ▸ .last ih hk
      · exact .past ((hk o).elapse ms)
  | within hm _ hnext ih => exact .within hm ih hnext
  | @fork n tally slots i next hm hpart hothers hnext ih =>
      refine .fork (i := i) hm (fun r hr => ?_) (fun j r hr hji => ?_) hnext
      · obtain ⟨s, hs, rfl | ⟨-, rfl⟩⟩ := of_ongoing_elapse hr
        · exact hpart _ hs
        · exact ih s hs
      · obtain ⟨s, hs, rfl | ⟨-, rfl⟩⟩ := of_ongoing_elapse hr
        · exact hothers j _ hs hji
        · exact (hothers j s hs hji).elapse ms

/-- **The order of a run.**  When something with the second property has its turn, nothing with the
first one is left, and none has a turn any more. -/
theorem Before.run (hs : Before X Y s) {x y : World}
    (hrun : Run ordered s w (h ++ .own m way x y :: g) t v) (hy : Y m) :
    ∃ r, Run ordered s w h r x ∧ Only (¬ X ·) r ∧ ∀ n way' x' y', .own n way' x' y' ∈ g → ¬ X n := by
  obtain ⟨r, u, hbefore, hafter⟩ := hrun.split
  have hr : Before X Y r := hbefore.invariant hs (fun hs hmove => (hs.move hmove).1)
    fun hs => hs.elapse 1
  cases hafter with
  | own hmove hrest =>
      have hover := (hr.move hmove).2 hy
      exact ⟨r, hbefore, hover, ((hover.move hmove).2.run hrest).1⟩

/-! ### It is put together -/

section

variable {place pool : Pool} {e : Evaluator} {settings : Settings} {label name : String}

theorem Before.check (hm : ¬ Y ⟨place, .guard settings⟩) {next : Bool → Marked}
    (hnext : ∀ b, Before X Y (next b)) : Before X Y (check place settings e next) := by
  refine .act hm fun w => ?_
  cases settings.holds e w.context with
  | ok b => exact hnext b
  | error error => exact .past .done

theorem Before.note (hm : ¬ Y m) {level : Level} {text : String} (ht : Before X Y t) :
    Before X Y (note m level text t) :=
  .act hm fun _ => ht

theorem Before.delayed (hplace : ∀ purpose, ¬ Y ⟨place, purpose⟩) {first : Purpose} {ms : Nat}
    (ht : Before X Y t) : Before X Y (delayed place first label ms t) := by
  unfold Marked.delayed
  split
  · exact .note (hplace _) ht
  · exact .note (hplace _) (.sleep (hplace _) fun _ => .note (hplace _) ht)

theorem Before.limited (hplace : ∀ purpose, ¬ X ⟨place, purpose⟩ ∧ ¬ Y ⟨place, purpose⟩)
    {limit index : Nat} (ht : Before X Y t) : Before X Y (limited place limit index label t) := by
  unfold Marked.limited
  split
  · exact ht
  · refine .within (hplace _) ht fun o => ?_
    cases o with
    | some o => exact .done
    | none => exact .note (hplace _).1 .done

theorem Before.branch (hplace : ∀ purpose, ¬ X ⟨place, purpose⟩ ∧ ¬ Y ⟨place, purpose⟩)
    {limit index : Nat} (ht : Before X Y t) :
    Before X Y (branch place e limit index label settings t) := by
  refine .check (hplace _).2 fun b => ?_
  cases b with
  | false => exact .past (.note (hplace _).1 .done)
  | true => exact ht.limited hplace

theorem Before.batch (hpool : ∀ purpose, ¬ X ⟨pool, purpose⟩ ∧ ¬ Y ⟨pool, purpose⟩)
    {threads limit i : Nat} {branches : List Marked}
    (hbranch : ∀ t, branches[i]? = some t → Before X Y t)
    (hothers : ∀ j t, branches[j]? = some t → j ≠ i → Only (fun m => ¬ X m ∧ ¬ Y m) t) :
    Before X Y (batch name pool threads limit branches) := by
  refine .act (hpool _).2 fun w => ?_
  split
  · exact .past .done
  · refine .note (hpool _).2 (.fork (i := i) (hpool _) (fun t ht => hbranch t (ongoing_fresh.mp ht))
      (fun j t ht => hothers j t (ongoing_fresh.mp ht)) (.conclude (hpool _).1))

end

end Marked

open Marked

/-! ### The steps of a sequence -/

/-- The properties are those of marks below a place, and not of its own. -/
def Inside (place : Pool) (X : Mark → Prop) : Prop :=
  ∀ m, X m → place <:+ m.place ∧ m.place ≠ place

section

variable {X Y : Mark → Prop} {place : Pool} {e : Evaluator} {patience i j k index : Nat}

/-- What is below one part of a place is not below another one. -/
theorem not_below_of_ne (hij : i ≠ j) : Below (fun p => ¬ (i :: place) <:+ p) (j :: place) :=
  fun _ hj hi => hij (place_unique hi hj)

theorem Inside.not_at (hX : Inside (k :: place) X) (purpose : Purpose) : ¬ X ⟨k :: place, purpose⟩ :=
  fun hx => (hX _ hx).2 rfl

theorem Inside.not_above (hX : Inside (k :: place) X) (purpose : Purpose) :
    ¬ X ⟨place, purpose⟩ := by
  intro hx
  have hle := (hX _ hx).1.length_le
  simp only [List.length_cons] at hle
  omega

theorem Inside.only (hX : Inside (k :: place) X) {s : Marked}
    (hs : Only (fun m => ¬ (k :: place) <:+ m.place) s) : Only (¬ X ·) s :=
  hs.mono fun _ hm hx => hm (hX _ hx).1

/-- **The steps of a sequence**: all that one of them does, it does before any later one begins. -/
theorem Flow.markedSequence_ordered (hij : i < j) (steps : List Step) (name : String)
    (scope : SequenceScope) (last : Option Report) :
    Before (fun m => (i :: place) <:+ m.place) (fun m => (j :: place) <:+ m.place)
      (Flow.markedSequence e patience name scope last place index steps) := by
  induction steps generalizing index last with
  | nil => exact .past .done
  | cons step rest ih =>
      obtain ⟨s, flow⟩ := step
      by_cases hindex : i < index
      · have hlater : BelowFrom (fun p => ¬ (i :: place) <:+ p) place index :=
          fun k hk => not_below_of_ne (by omega)
        exact .past (Flow.markedSequence_only (.mk s flow :: rest) hlater name scope last)
      · have hnot : Below (fun p => ¬ (j :: place) <:+ p) (index :: place) :=
          not_below_of_ne (by omega)
        rw [Flow.markedSequence.eq_def]
        refine .check hnot.at fun b => ?_
        cases b with
        | false =>
            cases scope with
            | block => exact .note hnot.at (.past .done)
            | playbook => exact .note hnot.at (ih last)
        | true =>
            refine .first (.delayed hnot.at hnot.at (Flow.marked_only flow hnot _)) fun o => ?_
            rcases o with fault | r
            · exact .past .done
            · dsimp only
              split
              · exact .note hnot.at (.past .done)
              · exact .note hnot.at (ih (some r))

/-- What a step of a sequence does in order is done in order, since no other step has to do with it. -/
theorem Flow.markedSequence_before (hX : Inside (k :: place) X) (hY : Inside (k :: place) Y)
    (steps : List Step) (hstep : ∀ s flow brief, steps[k - index]? = some (.mk s flow) →
      Before X Y (flow.marked e patience (k :: place) brief)) (hindex : index ≤ k) (name : String)
    (scope : SequenceScope) (last : Option Report) :
    Before X Y (Flow.markedSequence e patience name scope last place index steps) := by
  induction steps generalizing index last with
  | nil => exact .past .done
  | cons step rest ih =>
      obtain ⟨s, flow⟩ := step
      rw [Flow.markedSequence.eq_def]
      rcases Nat.eq_or_lt_of_le hindex with rfl | hlt
      · have hrest (last : Option Report) : Only (¬ X ·)
            (Flow.markedSequence e patience name scope last place (index + 1) rest) :=
          hX.only (Flow.markedSequence_only rest (fun j hj => not_below_of_ne (by omega)) name scope
            last)
        refine .check (hY.not_at _) fun b => ?_
        cases b with
        | false =>
            cases scope with
            | block => exact .past (.note (hX.not_at _) .done)
            | playbook => exact .past (.note (hX.not_at _) (hrest last))
        | true =>
            refine .last (.delayed hY.not_at (hstep s flow _ (by simp))) fun o => ?_
            rcases o with fault | r
            · exact .done
            · dsimp only
              split
              · exact .note (hX.not_at _) .done
              · exact .note (hX.not_at _) (hrest (some r))
      · have hother : Below (fun p => ¬ (k :: place) <:+ p) (index :: place) :=
          not_below_of_ne (by omega)
        have hnot (purpose : Purpose) : ¬ Y ⟨index :: place, purpose⟩ :=
          fun hy => hother.at (hY _ hy).1
        have hrest (last : Option Report) : Before X Y
            (Flow.markedSequence e patience name scope last place (index + 1) rest) := by
          refine ih (fun s flow brief hmem => hstep s flow brief ?_) hlt last
          rw [show k - index = k - (index + 1) + 1 by omega]
          exact hmem
        refine .check (hnot _) fun b => ?_
        cases b with
        | false =>
            cases scope with
            | block => exact .note (hnot _) (.past .done)
            | playbook => exact .note (hnot _) (hrest last)
        | true =>
            refine .first (.delayed (hnot _) (hnot _)
              (hY.only (Flow.marked_only flow hother _))) fun o => ?_
            rcases o with fault | r
            · exact .past .done
            · dsimp only
              split
              · exact .note (hnot _) (.past .done)
              · exact .note (hnot _) (hrest (some r))

/-- What a branch of a parallel flow does in order is done in order, since no other branch has to do
with it. -/
theorem Flow.markedBranches_before (hX : Inside (k :: place) X) (hY : Inside (k :: place) Y)
    (steps : List Step) (hstep : ∀ s flow brief, steps[k]? = some (.mk s flow) →
      Before X Y (flow.marked e patience (k :: place) brief)) (name : String) (threads limit : Nat) :
    Before X Y (batch name place threads limit
      (Flow.markedBranches e patience limit place 0 steps)) := by
  refine .batch (i := k) (fun purpose => ⟨hX.not_above purpose, hY.not_above purpose⟩)
    (fun t ht => ?_) (fun j t ht hjk => ?_)
  · rw [Flow.markedBranches_getElem?, Option.map_eq_some_iff] at ht
    obtain ⟨⟨s, flow⟩, hmem, rfl⟩ := ht
    rw [Nat.zero_add]
    exact .branch (fun purpose => ⟨hX.not_at purpose, hY.not_at purpose⟩)
      (.delayed hY.not_at (hstep s flow _ hmem))
  · rw [Flow.markedBranches_getElem?, Option.map_eq_some_iff] at ht
    obtain ⟨step, -, rfl⟩ := ht
    rw [Nat.zero_add]
    have hother : Below (fun p => ¬ (k :: place) <:+ p) (j :: place) :=
      not_below_of_ne (Ne.symm hjk)
    exact (Only.branch (fun _ => hother.at) (Step.marked_only step hother)).mono fun m hm =>
      ⟨fun hx => hm (hX m hx).1, fun hy => hm (hY m hy).1⟩

end

/-! ### Along the way to a block -/

/-- **The steps of tasks**, along the way to the list of tasks whose order it is: they do what comes
first in that list before what comes later.  A list of tasks side by side is not ordered itself. -/
theorem Plan.before_of_stepsOf (e : Evaluator) (patience : Nat) (place : Pool) {r : Registry}
    {i j : Nat} (hij : i < j) {above : List Nat} {ts : List Task} {steps : List Step} {path : String}
    (hsteps : Plan.stepsOf r path 0 ts = .ok steps)
    (howner : above ≠ [] → ∃ t, Task.at? ts above = some t ∧ t.id = blockId) :
    (∀ name scope last, Before (fun m => (i :: (above.reverse ++ place)) <:+ m.place)
      (fun m => (j :: (above.reverse ++ place)) <:+ m.place)
      (Flow.markedSequence e patience name scope last place 0 steps)) ∧
    (above ≠ [] → ∀ name threads limit, Before
      (fun m => (i :: (above.reverse ++ place)) <:+ m.place)
      (fun m => (j :: (above.reverse ++ place)) <:+ m.place)
      (batch name place threads limit (Flow.markedBranches e patience limit place 0 steps))) := by
  induction above generalizing ts steps path place with
  | nil => exact ⟨Flow.markedSequence_ordered hij steps, fun h => (h rfl).elim⟩
  | cons k rest ih =>
      have hplace : (k :: rest).reverse ++ place = rest.reverse ++ k :: place := by simp
      rw [hplace]
      have hinside (n : Nat) : Inside (k :: place)
          fun m => (n :: (rest.reverse ++ k :: place)) <:+ m.place := by
        refine fun m hm => ⟨?_, fun heq => ?_⟩
        · exact ((List.suffix_append _ _).trans (List.suffix_cons ..)).trans hm
        · have hle := hm.length_le
          simp only [heq, List.length_cons, List.length_append] at hle
          omega
      obtain ⟨owner, hat, hblock⟩ := howner (List.cons_ne_nil k rest)
      obtain ⟨t, ht, hat⟩ := Task.at?_cons.mp hat
      have hstep (s : Settings) (flow : Flow) (brief : Brief) (hmem : steps[k]? = some (.mk s flow)) :
          Before (fun m => (i :: (rest.reverse ++ k :: place)) <:+ m.place)
            (fun m => (j :: (rest.reverse ++ k :: place)) <:+ m.place)
            (flow.marked e patience (k :: place) brief) := by
        obtain ⟨step, hsome, hstep⟩ := Plan.exists_step hsteps ht
        obtain rfl : step = .mk s flow := Option.some.inj (hsome.symm.trans hmem)
        rcases Plan.stepOf_eq_ok.mp hstep with
          ⟨-, hne, inner, hinner, heq⟩ | ⟨hcontainer, hnil, -⟩
        · obtain ⟨hordered, hsplit⟩ := ih (k :: place) hinner fun hrest =>
            ⟨owner, hat.resolve_left fun h => hrest h.1, hblock⟩
          cases heq
          by_cases hid : t.id = blockId
          · rw [if_pos hid, Flow.marked]
            exact hordered blockId .block none
          · rw [if_neg hid, Flow.marked]
            refine hsplit (fun hrest => ?_) t.label t.threads _
            obtain ⟨-, rfl⟩ := hat.resolve_right fun hdeep => by simp [hrest, Task.at?] at hdeep
            exact hid hblock
        · rcases hat with ⟨-, rfl⟩ | hdeep
          · simp [Task.isContainer, hblock] at hcontainer
          · cases rest <;> simp [hnil, Task.at?] at hdeep
      exact ⟨Flow.markedSequence_before (hinside i) (hinside j) steps hstep (Nat.zero_le k),
        fun _ => Flow.markedBranches_before (hinside i) (hinside j) steps hstep⟩

/-- The mark is that of the task at positions, or of something within it. -/
def Mark.Within (positions : List Nat) (m : Mark) : Prop :=
  positions.reverse <:+ m.place

/-- **Declared order is respected.**  Take any run of the plan of a playbook, whatever turns parallel
branches take and whatever else goes on beside it: its turns have marks.  And wherever a list of tasks
is that of the playbook or of a block, however deep, an earlier task of the list, with all that is
within it, comes before a later one.  When anything at or within the later task has a turn, be it that a
guard is looked at, that an invocation begins or that a task goes on, nothing of the earlier one is left,
neither under way nor to come, and none of it has a turn any more; the world of that turn is the one that
the history so far has left, with everything that the earlier task wrote. -/
theorem declared_order {r : Registry} {p : Playbook} {plan : Plan}
    (hplan : Plan.ofPlaybook r p = .ok plan) (e : Evaluator) (ordered : Prop) :
    (∀ {w k b v}, Activity.Run ordered (plan.work e) w k b v →
      ∃ h t, Run ordered (plan.marked e) w h t v ∧ h.map Turn.plain = k ∧ t.plain = b) ∧
    ∀ (above : List Nat) (i j : Nat), i < j →
      (above ≠ [] → ∃ owner, p.task? above = some owner ∧ owner.id = blockId) →
      ∀ {w h m way x y g t v},
        Run ordered (plan.marked e) w (h ++ .own m way x y :: g) t v → m.Within (above ++ [j]) →
        ∃ s, Run ordered (plan.marked e) w h s x ∧
          Only (fun n => ¬ n.Within (above ++ [i])) s ∧
          (∀ n way' x' y', .own n way' x' y' ∈ g → ¬ n.Within (above ++ [i])) ∧
          x = Activity.worldAfter w (h.map Turn.plain) := by
  refine ⟨fun hrun => Run.marked (by rwa [Plan.plain_marked]), ?_⟩
  intro above i j hij howner w h m way x y g t v hrun hm
  obtain ⟨-, steps, hsteps, rfl⟩ := Plan.ofPlaybook_eq_ok.mp hplan
  have hwithin (n : Nat) : Mark.Within (above ++ [n]) =
      fun m => (n :: (above.reverse ++ [])) <:+ m.place := by
    funext m
    simp [Mark.Within]
  have hbefore : Before (Mark.Within (above ++ [i])) (Mark.Within (above ++ [j]))
      (Plan.marked ⟨p.id, steps⟩ e) := by
    rw [hwithin, hwithin]
    exact (Plan.before_of_stepsOf e patience [] hij hsteps howner).1 p.id .playbook none
  obtain ⟨s, hs, hover, hnever⟩ := hbefore.run hrun hm
  exact ⟨s, hs, hover, hnever, hs.plain.worldAfter⟩

/-- The task that stores its label. -/
private def store : Executable where
  name := "store"
  behave _ b := .instant fun w => (.completed, w.put "last" (.string b.label))

/-- A block of two tasks. -/
private def twice : Playbook where
  id := "twice"
  tasks := [{ id := "block", children := [{ id := "store", name := "first" }, { id := "store" }] }]

private def twicePlan : Plan where
  id := "twice"
  steps := [.mk {} (.sequence "block" .block
    [.mk { name := "first" } (.task store), .mk {} (.task store)])]

/-- When the guard of the second task is looked at, nothing of the first one is left, and what it wrote
is there. -/
theorem declared_order_twice : Plan.ofPlaybook ⟨[("store", store)]⟩ twice = .ok twicePlan ∧
    ∃ h s x, Run False (twicePlan.marked (.standard {})) {} h s x ∧
      Only (fun n => ¬ n.Within [0, 0]) s ∧ x.context.text? "last" = some "first" := by
  have hplan : Plan.ofPlaybook ⟨[("store", store)]⟩ twice = .ok twicePlan := rfl
  have hfirst := (.own .act <| .own .act <| .own .act <| .own .act <| .own .act <| .own .act .stop :
    Run False (twicePlan.marked (.standard {})) {} _ _ _)
  obtain ⟨s, hs, hover, -, -⟩ := (declared_order hplan (.standard {}) False).2 [0] 0 1
    (by decide) (fun _ => ⟨_, rfl, rfl⟩) (hfirst.append (.own .act .stop)) ⟨[], rfl⟩
  exact ⟨hplan, _, s, _, hs, hover, rfl⟩

end Runsheet
