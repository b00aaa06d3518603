import Runsheet.Flow.Work
import Runsheet.Proofs.Branches

/-!
# Everything an activity may ever do

`Throughout P pools a` says that every change of the world that the activity `a` may ever make,
together with what follows it, has the property `P`, and that `a` splits on pools of `pools` alone.
It is kept by every move and by time, so that it holds wherever a run leads, and it is put together
along the tree of a flow: `Flow.work_throughout` asks for the executables and the guards of the tree,
and for the few changes that flows make by themselves.
-/

namespace Runsheet

/-- The test of a way of repeating, if it has one, has a property. -/
def Repetition.Every (test : Predicate → Prop) : Repetition → Prop
  | .times _ => True
  | .whileHolds p => test p

namespace Activity

/-- Every change that the activity may make has a property, and every split is on certain pools.  To
wait is to make no change and then look at the world. -/
inductive Throughout (P : (World → World) → (World → Activity) → Prop) (pools : Pool → Prop) :
    Activity → Prop
  | done {o : Outcome} : Throughout P pools (.done o)
  | act {f : World → World} {next : World → Activity} (hact : P f next)
      (hnext : ∀ w, Throughout P pools (next w)) : Throughout P pools (.act f next)
  | sleep {ms : Nat} {next : World → Activity} (hwake : P id next)
      (hnext : ∀ w, Throughout P pools (next w)) : Throughout P pools (.sleep ms next)
  | never : Throughout P pools .never
  | within {left : Nat} {body : Activity} {next : Option Outcome → Activity}
      (hbody : Throughout P pools body) (hnext : ∀ o, Throughout P pools (next o)) :
      Throughout P pools (.within left body next)
  | fork {t : Tally} {slots : List (Slot Activity)} {next : Reading → Activity} (hpool : pools t.pool)
      (hslots : ∀ s ∈ slots, ∀ a, s.body? = some a → Throughout P pools a)
      (hnext : ∀ r, Throughout P pools (next r)) : Throughout P pools (.fork t slots next)

variable {P : (World → World) → (World → Activity) → Prop} {pools : Pool → Prop}
variable {ordered : Prop} {way : Way} {a b c : Activity} {w v u : World} {h g : List Turn}

/-! ### It is kept -/

private theorem throughout_set {slots : List (Slot Activity)} {i : Nat} {s : Slot Activity}
    (hslots : ∀ s ∈ slots, ∀ a, s.body? = some a → Throughout P pools a)
    (hs : ∀ a, s.body? = some a → Throughout P pools a) :
    ∀ s' ∈ slots.set i s, ∀ a, s'.body? = some a → Throughout P pools a := by
  intro s' hmem
  rcases List.mem_or_eq_of_mem_set hmem with hold | rfl
  · exact hslots s' hold
  · exact hs

theorem Throughout.move (ha : Throughout P pools a) (hmove : Move ordered way a w b v) :
    Throughout P pools b := by
  induction hmove with
  | @act f next w =>
      cases ha with
      | act hact hnext => exact hnext w
  | @wake next w =>
      cases ha with
      | sleep hwake hnext => exact hnext w
  | inside _ _ ih =>
      cases ha with
      | within hbody hnext => exact .within (ih hbody) hnext
  | inTime =>
      cases ha with
      | within hbody hnext => exact hnext _
  | late =>
      cases ha with
      | within hbody hnext => exact hnext none
  | deal _ hslot hdeal =>
      have hdealt := Tally.dealt_iff.mp hdeal
      cases ha with
      | fork hpool hslots hnext =>
          exact .fork (hdealt.pool ▸ hpool) (throughout_set hslots fun a ha =>
            hslots _ (List.mem_of_getElem? hslot) a (hdealt.body ha)) hnext
  | branch _ hslot _ ih =>
      cases ha with
      | fork hpool hslots hnext =>
          refine .fork hpool (throughout_set hslots ?_) hnext
          rintro _ ⟨rfl⟩
          exact ih (hslots _ (List.mem_of_getElem? hslot) _ rfl)
  | finish =>
      cases ha with
      | fork hpool hslots hnext => exact .fork hpool (throughout_set hslots nofun) hnext
  | read =>
      cases ha with
      | fork hpool hslots hnext => exact .fork hpool hslots hnext
  | abort =>
      cases ha with
      | fork hpool hslots hnext => exact hnext _
  | leave =>
      cases ha with
      | fork hpool hslots hnext => exact hnext _

theorem Throughout.elapse (ha : Throughout P pools a) (ms : Nat) :
    Throughout P pools (a.elapse ms) := by
  induction ha with
  | done => exact .done
  | act hact hnext => exact .act hact hnext
  | sleep hwake hnext => exact .sleep hwake hnext
  | never => exact .never
  | within _ hnext ih _ => exact .within ih hnext
  | fork hpool hslots hnext ih _ =>
      refine .fork hpool (fun s hmem a ha => ?_) hnext
      rw [elapseSlots_eq_map, List.mem_map] at hmem
      obtain ⟨s, hs, rfl⟩ := hmem
      cases s with
      | running body =>
          cases ha
          exact ih _ hs body rfl
      | fresh | queued | ended => exact hslots _ hs a ha

/-- **Wherever a run leads**, what is left of an activity does nothing else. -/
theorem Throughout.run (ha : Throughout P pools a) (hrun : Run ordered a w h b v) :
    Throughout P pools b :=
  hrun.invariant (P := fun a _ => Throughout P pools a) ha (fun ha hmove => ha.move hmove)
    (fun _ ha => ha) (fun ha _ => ha.elapse 1)

/-- What every change does, every move does. -/
theorem Throughout.move_world {R : World → World → Prop} (ha : Throughout P pools a)
    (hP : ∀ f next, P f next → ∀ w, R w (f w)) (hrefl : ∀ w, R w w)
    (hmove : Move ordered way a w b v) : R w v := by
  induction hmove with
  | @act f next w =>
      cases ha with
      | act hact hnext => exact hP f next hact w
  | inside _ _ ih =>
      cases ha with
      | within hbody hnext => exact ih hbody
  | branch _ hslot _ ih =>
      cases ha with
      | fork hpool hslots hnext => exact ih (hslots _ (List.mem_of_getElem? hslot) _ rfl)
  | _ => exact hrefl _

/-- What every change does, every turn of an activity's own does. -/
theorem Throughout.own_turns {R : World → World → Prop} (ha : Throughout P pools a)
    (hP : ∀ f next, P f next → ∀ w, R w (f w)) (hrefl : ∀ w, R w w)
    (hrun : Run ordered a w h b v) : ∀ way x y, .own way x y ∈ h → R x y := by
  induction hrun with
  | stop => simp
  | own hmove _ ih =>
      intro way x y hmem
      rcases List.mem_cons.mp hmem with heq | hmem
      · cases heq
        exact ha.move_world hP hrefl hmove
      · exact ih (ha.move hmove) way x y hmem
  | other _ ih =>
      intro way x y hmem
      rcases List.mem_cons.mp hmem with heq | hmem
      · cases heq
      · exact ih ha way x y hmem
  | tick _ _ ih =>
      intro way x y hmem
      rcases List.mem_cons.mp hmem with heq | hmem
      · cases heq
      · exact ih (ha.elapse 1) way x y hmem

/-- A branch does nothing else in its turns. -/
theorem BranchMove.throughout {i : Nat} {t t' : Tally} {s s' : Slot Activity}
    (hmove : BranchMove ordered i way t s w t' s' v)
    (hs : ∀ a, s.body? = some a → Throughout P pools a) :
    ∀ a, s'.body? = some a → Throughout P pools a := by
  intro a ha
  cases hmove with
  | dealt hdealt => exact hs a (hdealt.body ha)
  | works hmove =>
      cases ha
      exact (hs _ rfl).move hmove
  | finishes => cases ha

/-- **What every change of a branch does**, every turn of the branch does while its split lasts. -/
theorem Lasting.branch_turns {R : World → World → Prop} {t t' : Tally}
    {slots slots' : List (Slot Activity)} {i : Nat} {x y : World}
    (hlast : Lasting ordered t slots w h t' slots' u)
    (hs : ∀ s a, slots[i]? = some s → s.body? = some a → Throughout P pools a)
    (hP : ∀ f next, P f next → ∀ w, R w (f w)) (hrefl : ∀ w, R w w)
    (hmem : .own ((t.pool, i) :: way) x y ∈ h) : R x y := by
  induction hlast with
  | stop => cases hmem
  | @turn j _ t t' _ slots _ s s' _ _ _ _ _ hslot hmove _ ih =>
      have hlt : j < slots.length := (List.getElem?_eq_some_iff.mp hslot).1
      rcases List.mem_cons.mp hmem with heq | hmem
      · cases heq
        cases hmove with
        | dealt | finishes => exact hrefl _
        | works hmove => exact (hs _ _ hslot rfl).move_world hP hrefl hmove
      · refine ih (fun s₁ a hslot₁ ha => ?_) (hmove.pool ▸ hmem)
        by_cases hj : j = i
        · subst hj
          obtain rfl : s' = s₁ := by simpa [hlt] using hslot₁
          exact hmove.throughout (fun a ha => hs s a hslot ha) a ha
        · rw [List.getElem?_set_ne hj] at hslot₁
          exact hs s₁ a hslot₁ ha
  | read _ _ _ _ ih =>
      rcases List.mem_cons.mp hmem with heq | hmem
      · cases heq
      · exact ih hs hmem
  | other _ ih =>
      rcases List.mem_cons.mp hmem with heq | hmem
      · cases heq
      · exact ih hs hmem
  | tick _ _ ih =>
      rcases List.mem_cons.mp hmem with heq | hmem
      · cases heq
      · refine ih (fun s₁ a hslot₁ ha => ?_) hmem
        rw [elapseSlots_eq_map, List.getElem?_map, Option.map_eq_some_iff] at hslot₁
        obtain ⟨s, hslot, rfl⟩ := hslot₁
        cases s with
        | running body =>
            cases ha
            exact (hs _ body hslot rfl).elapse 1
        | fresh | queued | ended => exact hs _ a hslot ha

/-! ### What the siblings of a branch do -/

section

variable {R : World → World → Prop} {place : Pool} {i : Nat} {x y : World}

/-- The turn is one of the branch, or does what the siblings do. -/
def Aside (R : World → World → Prop) (place : Pool) (i : Nat) (h : List Turn) : Prop :=
  ∀ way x y, .own way x y ∈ h → (∃ rest, way = (place, i) :: rest) ∨ R x y

theorem aside_append : Aside R place i (h ++ g) ↔ Aside R place i h ∧ Aside R place i g :=
  forall_own_append

/-- While a split lasts, its turns are those of a branch or of the siblings. -/
theorem Lasting.aside {t t' : Tally} {slots slots' : List (Slot Activity)}
    (hlast : Lasting ordered t slots w h t' slots' u)
    (hsiblings : ∀ j s a, j ≠ i → slots[j]? = some s → s.body? = some a → Throughout P pools a)
    (hP : ∀ f next, P f next → ∀ w, R w (f w)) (hrefl : ∀ w, R w w) : Aside R t.pool i h := by
  intro way x y hmem
  rcases hlast.turns hmem with ⟨_, rfl⟩ | ⟨j, rest, rfl, _⟩
  · exact Or.inr (hrefl _)
  · by_cases hij : j = i
    · subst hij
      exact Or.inl ⟨rest, rfl⟩
    · exact Or.inr (hlast.branch_turns (fun s a => hsiblings j s a hij) hP hrefl hmem)

/-- What a branch sees of others is what the siblings do and what others do. -/
theorem Aside.view (haside : Aside R place i h) (hothers : ∀ x y, .other x y ∈ h → R x y)
    (hmem : .other x y ∈ view place i h) : R x y := by
  obtain ⟨t, ht, heq⟩ := List.mem_map.mp hmem
  rcases t with ⟨_ | ⟨step, way⟩, v, z⟩ | ⟨v, z⟩ | _
  · cases heq
    rcases haside [] x y ht with ⟨rest, hway⟩ | hR
    · cases hway
    · exact hR
  · by_cases hstep : step = (place, i)
    · simp [Turn.seenBy, hstep] at heq
    · rw [Turn.seenBy, if_neg hstep] at heq
      cases heq
      rcases haside _ x y ht with ⟨rest, hway⟩ | hR
      · exact (hstep (List.cons.inj hway).1).elim
      · exact hR
  · cases heq
    exact hothers x y ht
  · cases heq

/-- What the siblings do, a history does in which a branch does no work. -/
theorem Aside.lifts (haside : Aside R place i h) (hrun : Run ordered a w h b v)
    (hpatient : Patient place i h) (hothers : ∀ x y, .other x y ∈ h → R x y) (hrefl : ∀ w, R w w)
    (htrans : ∀ {w v u}, R w v → R v u → R w u) (htick : ∀ w, R w (w.wait 1)) : R w v := by
  refine hrun.lifts hrefl htrans (fun way x y hmem => ?_) hothers htick
  rcases haside way x y hmem with ⟨rest, rfl⟩ | hR
  · obtain ⟨_, rfl⟩ := hpatient rest x y hmem
    exact hrefl _
  · exact hR

end

/-- A weaker property is no harm. -/
theorem Throughout.imp {P' : (World → World) → (World → Activity) → Prop} (ha : Throughout P pools a)
    (hP : ∀ f next, P f next → P' f next) : Throughout P' pools a := by
  induction ha with
  | done => exact .done
  | act hact _ ih => exact .act (hP _ _ hact) ih
  | sleep hwake _ ih => exact .sleep (hP _ _ hwake) ih
  | never => exact .never
  | within _ _ ih₁ ih₂ => exact .within ih₁ ih₂
  | fork hpool _ _ ih₁ ih₂ => exact .fork hpool ih₁ ih₂

/-- More pools are no harm. -/
theorem Throughout.mono {pools' : Pool → Prop} (ha : Throughout P pools a)
    (hpools : ∀ p, pools p → pools' p) : Throughout P pools' a := by
  induction ha with
  | done => exact .done
  | act hact _ ih => exact .act hact ih
  | sleep hwake _ ih => exact .sleep hwake ih
  | never => exact .never
  | within _ _ ih₁ ih₂ => exact .within ih₁ ih₂
  | fork hpool _ _ ih₁ ih₂ => exact .fork (hpools _ hpool) ih₁ ih₂

/-! ### It is put together -/

/-- The guard of a step fits: looking at it is a change with the property. -/
def Guarded (P : (World → World) → (World → Activity) → Prop) (e : Evaluator) (s : Settings) :
    Prop :=
  ∀ next : Bool → Activity, P id fun w =>
    match s.holds e w.context with
    | .ok b => next b
    | .error error => fail (.ofError error)

/-- The test fits: looking at what it says is a change with the property. -/
def Tested (P : (World → World) → (World → Activity) → Prop) (p : Predicate) : Prop :=
  ∀ (r : Report) (next : Bool → Activity), P id fun w => next (p.passes w r)

/-- What flows do by themselves fits: events, pauses, and their pools, which they look at and close. -/
structure Fits (P : (World → World) → (World → Activity) → Prop) (pools : Pool → Prop) : Prop where
  bind {f : World → World} {next : World → Activity} (k : Outcome → Activity) :
    P f next → P f fun w => (next w).bind k
  note (level : Level) (text : String) (a : Activity) :
    P (fun w => w.note level text) fun _ => a
  pause (a : Activity) : P id fun _ => a
  enter {p : Pool} (a b : Activity) : pools p → P id fun w => if w.isClosed p then a else b
  leave {p : Pool} (text : String) (a : Activity) :
    pools p → P (fun w => (w.note .debug text).close p) fun _ => a

section

variable {place : Pool} {e : Evaluator} {s : Settings} {label name : String}

theorem Throughout.bind (hfits : Fits P pools) (ha : Throughout P pools a)
    {k : Outcome → Activity} (hk : ∀ o, Throughout P pools (k o)) :
    Throughout P pools (a.bind k) := by
  induction ha with
  | done => exact hk _
  | act hact _ ih => exact .act (hfits.bind k hact) ih
  | sleep hwake _ ih => exact .sleep (hfits.bind k hwake) ih
  | never => exact .never
  | within hbody _ _ ih => exact .within hbody ih
  | fork hpool hslots _ _ ih => exact .fork hpool hslots ih

theorem Throughout.onReport (hfits : Fits P pools) (ha : Throughout P pools a)
    {k : Report → Activity} (hk : ∀ r, Throughout P pools (k r)) :
    Throughout P pools (a.onReport k) := by
  refine ha.bind hfits fun o => ?_
  cases o with
  | ok r => exact hk r
  | error fault => exact .done

theorem Throughout.note (hfits : Fits P pools) {level : Level} {text : String}
    (ha : Throughout P pools a) : Throughout P pools (Activity.note level text a) :=
  .act (hfits.note level text a) fun _ => ha

theorem Throughout.check (hguard : Guarded P e s) {next : Bool → Activity}
    (hnext : ∀ b, Throughout P pools (next b)) : Throughout P pools (s.check e next) := by
  refine .act (hguard next) fun w => ?_
  cases s.holds e w.context with
  | ok b => exact hnext b
  | error error => exact .done

theorem Throughout.delayed (hfits : Fits P pools) {ms : Nat} (ha : Throughout P pools a) :
    Throughout P pools (delayed label ms a) := by
  unfold Activity.delayed
  split
  · exact ha.note hfits
  · exact .note hfits (.sleep (hfits.pause _) fun _ => ha.note hfits)

theorem Throughout.rounds (hfits : Fits P pools) {mode : Repetition}
    (hmode : mode.Every (Tested P)) {count : Nat} (ha : Throughout P pools a) (left : Nat) :
    Throughout P pools (rounds mode label a count left) := by
  induction left generalizing count with
  | zero => exact .never
  | succ left ih =>
      refine ha.onReport hfits fun r => .act ?_ fun w => ?_
      · cases mode with
        | times n => exact hfits.pause (if decide (count + 1 < n) = true then _ else _)
        | whileHolds p => exact hmode r fun passes => if passes then _ else _
      split
      · exact ih
      · exact .note hfits .done

theorem Throughout.limited (hfits : Fits P pools) {limit index : Nat}
    (ha : Throughout P pools a) : Throughout P pools (limited limit index label a) := by
  unfold Activity.limited
  split
  · exact ha
  · refine .within ha fun o => ?_
    cases o with
    | some o => exact .done
    | none => exact .note hfits .done

theorem Throughout.branch (hfits : Fits P pools) (hguard : Guarded P e s) {limit index : Nat}
    (ha : Throughout P pools a) : Throughout P pools (branch e limit index label s a) := by
  refine .check hguard fun b => ?_
  cases b with
  | false => exact .note hfits .done
  | true => exact ha.limited hfits

theorem Throughout.conclude (hfits : Fits P pools) (hplace : pools place) {count : String}
    (reading : Reading) : Throughout P pools (conclude name place count reading) := by
  rcases reading with ⟨index, fault⟩ | reports
  · exact .note hfits (.act (hfits.leave _ _ hplace) fun _ => .done)
  · refine .act (hfits.leave _ _ hplace) fun _ => ?_
    cases gatherFrom 0 reports with
    | error fault => exact .done
    | ok rs => exact .note hfits .done

theorem Throughout.batch (hfits : Fits P pools) (hplace : pools place)
    {threads limit : Nat} {branches : List Activity}
    (hbranches : ∀ a ∈ branches, Throughout P pools a) :
    Throughout P pools (batch name place threads limit branches) := by
  refine .act (hfits.enter _ _ hplace) fun w => ?_
  split
  · exact .done
  · refine .note hfits (.fork hplace (fun s hs a ha => ?_) (.conclude hfits hplace))
    obtain ⟨body, hbody, rfl⟩ := List.mem_map.mp hs
    cases ha
    exact hbranches _ hbody

end

end Activity

open Activity

/-! ### The tree of a flow -/

section

variable (leaf : Executable → Prop) (guard : Settings → Prop)
variable (test : Predicate → Prop := fun _ => True)

mutual

/-- The executables, the settings and the tests of a flow have given properties. -/
def Flow.Every : Flow → Prop
  | .task executable => leaf executable
  | .sequence _ _ steps => Flow.EveryStep steps
  | .parallel _ _ _ branches => Flow.EveryStep branches
  | .repetition _ mode step => mode.Every test ∧ Step.Every step
  | .choice _ initial predicate held otherwise =>
    test predicate ∧ Step.Every initial ∧ Step.Every held ∧ Flow.EveryOption otherwise

/-- The executables, the settings and the tests of a step have given properties. -/
def Step.Every : Step → Prop
  | .mk s flow => guard s ∧ Flow.Every flow

/-- The executables, the settings and the tests of steps have given properties. -/
def Flow.EveryStep : List Step → Prop
  | [] => True
  | step :: rest => Step.Every step ∧ Flow.EveryStep rest

/-- The executables, the settings and the tests of a step that may be absent have given properties. -/
def Flow.EveryOption : Option Step → Prop
  | none => True
  | some step => Step.Every step

end

end

section

variable {P : (World → World) → (World → Activity) → Prop} {pools : Pool → Prop}
variable {leaf : Executable → Prop} {guard : Settings → Prop} {test : Predicate → Prop}
variable {e : Evaluator} {patience : Nat}

theorem Flow.everyStep_getElem? {steps : List Step} {i : Nat} {step : Step}
    (hsteps : Flow.EveryStep leaf guard test steps) (hstep : steps[i]? = some step) :
    step.Every leaf guard test := by
  induction steps generalizing i with
  | nil => cases hstep
  | cons first rest ih =>
      cases i with
      | zero =>
          cases hstep
          exact hsteps.1
      | succ i => exact ih hsteps.2 hstep

/-- A pool lies below one part of a place at most. -/
theorem place_unique {q place : Pool} {i j : Nat} (hi : (i :: place) <:+ q)
    (hj : (j :: place) <:+ q) : i = j := by
  obtain ⟨l, hl⟩ := hi
  obtain ⟨r, hr⟩ := hj
  have heq : (l ++ [i]) ++ place = (r ++ [j]) ++ place := by simp [hl, hr]
  have hlast := List.append_cancel_right heq
  simpa using congrArg List.getLast? hlast

/-- All pools at a place and below it are among the given ones. -/
def Below (pools : Pool → Prop) (place : Pool) : Prop :=
  ∀ p, place <:+ p → pools p

/-- All pools below a place, from its part with an index on, are among the given ones. -/
def BelowFrom (pools : Pool → Prop) (place : Pool) (index : Nat) : Prop :=
  ∀ i, index ≤ i → Below pools (i :: place)

theorem Below.at {place : Pool} (hplace : Below pools place) : pools place :=
  hplace place (List.suffix_refl place)

theorem Below.parts {place : Pool} (hplace : Below pools place) (index : Nat) :
    BelowFrom pools place index :=
  fun i _ p hp => hplace p ((List.suffix_cons i place).trans hp)

theorem BelowFrom.part {place : Pool} {index : Nat} (hplace : BelowFrom pools place index) :
    Below pools (index :: place) :=
  hplace index (Nat.le_refl index)

theorem BelowFrom.rest {place : Pool} {index : Nat} (hplace : BelowFrom pools place index) :
    BelowFrom pools place (index + 1) :=
  fun i hi => hplace i (by omega)

/-- The pool of a place is none of those below it. -/
theorem belowFrom_self (place : Pool) (index : Nat) : BelowFrom (· ≠ place) place index := by
  rintro i _ p hp rfl
  have hle := hp.length_le
  rw [List.length_cons] at hle
  omega

/-! ### The steps of a flow -/

/-- Steps that fit make a sequence that fits. -/
theorem Activity.Throughout.sequenceWork (hfits : Fits P pools) {place : Pool} {steps : List Step} {index : Nat}
    (hsteps : ∀ (i : Nat) (step : Step), steps[i]? = some step → Guarded P e step.settings ∧
      Throughout P pools (step.work e patience ((index + i) :: place)))
    (name : String) (scope : SequenceScope) (last : Option Report) :
    Throughout P pools (Flow.sequenceWork e patience name scope last place index steps) := by
  induction steps generalizing index last with
  | nil => exact .done
  | cons step rest ih =>
      obtain ⟨s, flow⟩ := step
      obtain ⟨hguard, hfirst⟩ := hsteps 0 (.mk s flow) rfl
      have hrest (last : Option Report) :
          Throughout P pools (Flow.sequenceWork e patience name scope last place (index + 1) rest) := by
        apply ih
        intro i step hstep
        have hlater := hsteps (i + 1) step hstep
        rwa [show index + (i + 1) = index + 1 + i by omega] at hlater
      rw [Flow.sequenceWork.eq_def]
      refine .check hguard fun b => ?_
      cases b with
      | false =>
          cases scope with
          | block => exact .note hfits .done
          | playbook => exact .note hfits (hrest last)
      | true =>
          rw [Step.work] at hfirst
          refine .onReport hfits hfirst fun r => ?_
          split
          · exact .note hfits .done
          · exact .note hfits (hrest (some r))

/-- Steps that fit make branches that fit. -/
theorem Activity.Throughout.branchWorks (hfits : Fits P pools) {place : Pool} {steps : List Step} {index : Nat}
    (hsteps : ∀ (i : Nat) (step : Step), steps[i]? = some step → Guarded P e step.settings ∧
      Throughout P pools (step.work e patience ((index + i) :: place))) {limit : Nat} :
    ∀ a ∈ Flow.branchWorks e patience limit place index steps, Throughout P pools a := by
  induction steps generalizing index with
  | nil => simp [Flow.branchWorks]
  | cons step rest ih =>
      obtain ⟨s, flow⟩ := step
      obtain ⟨hguard, hfirst⟩ := hsteps 0 (.mk s flow) rfl
      rw [Step.work] at hfirst
      intro a ha
      rcases List.mem_cons.mp ha with rfl | hmem
      · exact .branch hfits hguard hfirst
      · refine ih (fun i step hstep => ?_) a hmem
        have hlater := hsteps (i + 1) step hstep
        rwa [show index + (i + 1) = index + 1 + i by omega] at hlater

/-- A parallel flow fits if its steps do. -/
theorem Activity.Throughout.parallelWork (hfits : Fits P pools) {place : Pool} (hplace : pools place)
    {steps : List Step} (hsteps : ∀ (i : Nat) (step : Step), steps[i]? = some step → Guarded P e step.settings ∧
      Throughout P pools (step.work e patience (i :: place)))
    (name : String) (threads limit : Nat) (brief : Brief) :
    Throughout P pools ((Flow.parallel name threads limit steps).work e patience place brief) := by
  rw [Flow.work]
  apply Throughout.batch hfits hplace
  apply Throughout.branchWorks hfits
  intro i step hstep
  rw [Nat.zero_add]
  exact hsteps i step hstep

/-- **All parts of a flow suit** a property of changes: what flows do by themselves, what their executables
do, and what their guards and their tests look at. -/
structure Suits (P : (World → World) → (World → Activity) → Prop) (pools : Pool → Prop) (e : Evaluator)
    (leaf : Executable → Prop) (guard : Settings → Prop) (test : Predicate → Prop) : Prop where
  fits : Fits P pools
  behave {x : Executable} (brief : Brief) : leaf x → Throughout P pools (x.behave e brief)
  look {s : Settings} : guard s → Guarded P e s
  test {p : Predicate} : test p → Tested P p

mutual

/-- **The work of a flow does nothing but** what its executables do, what its guards look at, and the
few changes that flows make by themselves. -/
theorem Flow.work_throughout (hparts : Suits P pools e leaf guard test) (f : Flow)
    (hf : f.Every leaf guard test) {place : Pool} (hplace : Below pools place) (brief : Brief) :
    Throughout P pools (f.work e patience place brief) := by
  match f with
  | .task x => exact hparts.behave brief hf
  | .sequence name scope steps =>
      rw [Flow.work]
      apply Throughout.sequenceWork hparts.fits
      exact Flow.steps_throughout hparts steps hf (hplace.parts 0)
  | .parallel name threads limit branches =>
      rw [Flow.work]
      apply Throughout.batch hparts.fits hplace.at
      apply Throughout.branchWorks hparts.fits
      exact Flow.steps_throughout hparts branches hf (hplace.parts 0)
  | .repetition name mode (.mk s flow) =>
      refine .check (hparts.look hf.2.1) fun b => ?_
      cases b with
      | false => exact .note hparts.fits .done
      | true =>
          refine .rounds hparts.fits ?_ (.delayed hparts.fits ?_) _
          · cases mode with
            | times n => trivial
            | whileHolds p => exact hparts.test hf.1
          · exact Flow.work_throughout hparts flow hf.2.2
              (hplace.parts 0).part _
  | .choice name initial predicate held otherwise =>
      refine .onReport hparts.fits (Step.work_throughout hparts initial hf.2.1
        (hplace.parts 0).part) fun r => ?_
      refine .act (hparts.test hf.1 r fun passes => if passes then _ else _) fun w => ?_
      split
      · exact .note hparts.fits (Step.work_throughout hparts held hf.2.2.1
          (hplace.parts 1).part)
      · match otherwise with
        | none => exact .done
        | some step =>
            exact .note hparts.fits (Step.work_throughout hparts step hf.2.2.2
              (hplace.parts 2).part)

theorem Flow.steps_throughout (hparts : Suits P pools e leaf guard test) (steps : List Step)
    (hsteps : Flow.EveryStep leaf guard test steps) {place : Pool} {index : Nat}
    (hplace : BelowFrom pools place index) (i : Nat) (step : Step) (hstep : steps[i]? = some step) :
    Guarded P e step.settings ∧
      Throughout P pools (step.work e patience ((index + i) :: place)) := by
  match steps, i with
  | .mk s flow :: rest, 0 =>
      cases hstep
      exact ⟨hparts.look hsteps.1.1,
        Step.work_throughout hparts (.mk s flow) hsteps.1 hplace.part⟩
  | .mk s flow :: rest, i + 1 =>
      have hlater := Flow.steps_throughout hparts rest hsteps.2 hplace.rest i step hstep
      rwa [show index + 1 + i = index + (i + 1) by omega] at hlater

theorem Step.work_throughout (hparts : Suits P pools e leaf guard test) (step : Step)
    (hstep : step.Every leaf guard test) {place : Pool} (hplace : Below pools place) :
    Throughout P pools (step.work e patience place) := by
  match step with
  | .mk s flow =>
      exact .delayed hparts.fits (Flow.work_throughout hparts flow hstep.2 hplace _)

end

theorem Flow.sequenceWork_throughout (hparts : Suits P pools e leaf guard test) (steps : List Step)
    (hsteps : Flow.EveryStep leaf guard test steps) {place : Pool} {index : Nat}
    (hplace : BelowFrom pools place index) (name : String) (scope : SequenceScope)
    (last : Option Report) :
    Throughout P pools (Flow.sequenceWork e patience name scope last place index steps) :=
  .sequenceWork hparts.fits (Flow.steps_throughout hparts steps hsteps hplace) name scope last

theorem Flow.branchWorks_throughout (hparts : Suits P pools e leaf guard test) (steps : List Step)
    (hsteps : Flow.EveryStep leaf guard test steps) {place : Pool} {limit index : Nat}
    (hplace : BelowFrom pools place index) :
    ∀ a ∈ Flow.branchWorks e patience limit place index steps, Throughout P pools a :=
  .branchWorks hparts.fits (Flow.steps_throughout hparts steps hsteps hplace)

end

end Runsheet
