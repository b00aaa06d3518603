import Runsheet.Proofs.Determinism
import Runsheet.Proofs.Guards

/-!
# How an activity ends by itself

A run to the end in which nobody else has a turn: the history, the outcome and the world that is left.
Endings can be read off an activity from its beginning on: each piece of work adds its turns to the
history, and an activity after another begins where the first one has ended.

* `Ends.bind`, `ends_bind`, `ends_onReport` — one activity after the other;
* `ends_act`, `ends_sleep`, `ends_check`, `ends_note`, `ends_delayed` — the pieces of a flow;
* `lookedAt_step` — the work of a step looks at no guard of the flow that it is a step of;
* `run_iff_ends` — what `run` computes is the ending of the activity.
-/

namespace Runsheet

open Activity (Way)

theorem World.wait_wait (w : World) (ms more : Nat) : (w.wait ms).wait more = w.wait (ms + more) := by
  simp [World.wait, Nat.add_assoc]

namespace Marked

/-- Nobody else has a turn in the history. -/
def Alone (h : List Turn) : Prop :=
  ∀ x y, Turn.other x y ∉ h

/-- The milliseconds of a history. -/
def ticks (h : List Turn) : Nat :=
  Activity.ticks (h.map Turn.plain)

/-- **An activity ends by itself** after a history, with an outcome and in a world. -/
structure Ends (ordered : Prop) (s : Marked) (w : World) (h : List Turn) (o : Outcome) (v : World) :
    Prop where
  alone : Alone h
  run : Run ordered s w h (.done o) v

variable {ordered : Prop} {m : Mark} {way : Way} {s t : Marked} {w v u : World} {h g : List Turn}
variable {o : Outcome}

/-! ### Histories -/

theorem alone_nil : Alone [] :=
  fun _ _ => List.not_mem_nil

theorem alone_append : Alone (h ++ g) ↔ Alone h ∧ Alone g := by
  simp only [Alone, List.mem_append, not_or]
  exact ⟨fun hall => ⟨fun x y => (hall x y).1, fun x y => (hall x y).2⟩,
    fun hboth x y => ⟨hboth.1 x y, hboth.2 x y⟩⟩

theorem alone_own : Alone (.own m way w v :: h) ↔ Alone h := by
  simp [Alone]

theorem alone_tick : Alone (.tick :: h) ↔ Alone h := by
  simp [Alone]

theorem not_alone_other : ¬ Alone (.other w v :: h) :=
  fun halone => halone w v (List.mem_cons_self ..)

theorem Alone.plain (halone : Alone h) : Activity.Alone (h.map Turn.plain) := by
  intro x y hmem
  obtain ⟨turn, hturn, heq⟩ := List.mem_map.mp hmem
  cases turn with
  | own m way w v => cases heq
  | other w v =>
      cases heq
      exact halone _ _ hturn
  | tick => cases heq

@[simp] theorem ticks_nil : ticks [] = 0 :=
  rfl

@[simp] theorem ticks_own : ticks (.own m way w v :: h) = ticks h :=
  rfl

@[simp] theorem ticks_tick : ticks (.tick :: h) = ticks h + 1 :=
  rfl

@[simp] theorem ticks_append (h g : List Turn) : ticks (h ++ g) = ticks h + ticks g := by
  rw [ticks, List.map_append, Activity.ticks_append]
  rfl

@[simp] theorem ticks_replicate (k : Nat) : ticks (List.replicate k .tick) = k := by
  rw [ticks, List.map_replicate]
  exact Activity.ticks_replicate k

/-! ### One activity after the other -/

/-- While the first activity runs, the second one waits. -/
theorem Run.bind (hrun : Run ordered s w h t v) (k : Outcome → Marked) :
    Run ordered (s.bind k) w h (t.bind k) v := by
  induction hrun with
  | stop => exact .stop
  | own hmove _ ih => exact .own (hmove.bind) ih
  | other _ ih => exact .other ih
  | @tick s r w u h hsettled _ ih =>
      have helapse : (s.bind k).elapse 1 = (s.elapse 1).bind k := by
        rcases elapse_bind s k 1 with heq | ⟨o, rfl⟩
        · exact heq
        · exact hsettled.elim
      refine .tick ?_ (helapse ▸ ih)
      cases s with
      | done o => exact hsettled.elim
      | _ => exact hsettled

/-- An activity that has ended does nothing by itself. -/
theorem ends_done {o' : Outcome} : Ends ordered (.done o') w h o v ↔ h = [] ∧ o = o' ∧ v = w := by
  constructor
  · rintro ⟨halone, hrun⟩
    cases hrun with
    | stop => exact ⟨rfl, rfl, rfl⟩
    | own hmove _ => cases hmove
    | other _ => exact (not_alone_other halone).elim
    | tick hsettled _ => exact hsettled.elim
  · rintro ⟨rfl, rfl, rfl⟩
    exact ⟨alone_nil, .stop⟩

/-- What follows an activity begins where it has ended. -/
theorem Ends.bind {k : Outcome → Marked} {o' : Outcome} (hfirst : Ends ordered s w h o' u)
    (hnext : Ends ordered (k o') u g o v) : Ends ordered (s.bind k) w (h ++ g) o v :=
  ⟨alone_append.mpr ⟨hfirst.alone, hnext.alone⟩, (hfirst.run.bind k).append hnext.run⟩

/-- **One after the other**: the first activity ends, and then what follows it does. -/
theorem ends_bind {k : Outcome → Marked} : Ends ordered (s.bind k) w h o v ↔
    ∃ h₁ h₂ o' u, h = h₁ ++ h₂ ∧ Ends ordered s w h₁ o' u ∧ Ends ordered (k o') u h₂ o v := by
  constructor
  · rintro ⟨halone, hrun⟩
    generalize hbind : s.bind k = r at hrun
    generalize hdone : Marked.done o = d at hrun
    induction hrun generalizing s with
    | @stop r w =>
        subst hdone
        cases s with
        | done o' => exact ⟨[], [], o', w, rfl, ends_done.mpr ⟨rfl, rfl, rfl⟩, alone_nil, hbind ▸ .stop⟩
        | _ => cases hbind
    | own hmove hrest ih =>
        subst hbind
        have hlater := alone_own.mp halone
        rcases hmove.of_bind with ⟨t, hfirst, rfl⟩ | ⟨o', rfl, hnext⟩
        · obtain ⟨h₁, h₂, o', u, rfl, hends, hnext⟩ := ih hlater rfl hdone
          exact ⟨_, h₂, o', u, rfl, ⟨alone_own.mpr hends.alone, .own hfirst hends.run⟩, hnext⟩
        · subst hdone
          exact ⟨[], _, o', _, rfl, ends_done.mpr ⟨rfl, rfl, rfl⟩, halone, .own hnext hrest⟩
    | other _ _ => exact (not_alone_other halone).elim
    | @tick r _ w _ h hsettled hrest ih =>
        subst hbind
        have hlater := alone_tick.mp halone
        rcases elapse_bind s k 1 with heq | ⟨o', rfl⟩
        · have hs : Activity.Settled s.plain ∨ ∃ o', s = .done o' := by
            cases s with
            | done o' => exact Or.inr ⟨o', rfl⟩
            | _ => exact Or.inl hsettled
          rcases hs with hs | ⟨o', rfl⟩
          · obtain ⟨h₁, h₂, o', u, rfl, hends, hnext⟩ := ih hlater heq.symm hdone
            exact ⟨_, h₂, o', u, rfl, ⟨alone_tick.mpr hends.alone, .tick hs hends.run⟩, hnext⟩
          · subst hdone
            exact ⟨[], _, o', w, rfl, ends_done.mpr ⟨rfl, rfl, rfl⟩, halone, .tick hsettled hrest⟩
        · subst hdone
          exact ⟨[], _, o', w, rfl, ends_done.mpr ⟨rfl, rfl, rfl⟩, halone, .tick hsettled hrest⟩
  · rintro ⟨h₁, h₂, o', u, rfl, hfirst, hnext⟩
    exact hfirst.bind hnext

/-- A fault ends the work, and what follows a report begins where it was given. -/
theorem ends_onReport {k : Report → Marked} : Ends ordered (s.onReport k) w h o v ↔
    (∃ fault, o = .error fault ∧ Ends ordered s w h (.error fault) v) ∨
      ∃ h₁ h₂ r u, h = h₁ ++ h₂ ∧ Ends ordered s w h₁ (.ok r) u ∧ Ends ordered (k r) u h₂ o v := by
  rw [onReport, ends_bind]
  constructor
  · rintro ⟨h₁, h₂, o', u, rfl, hfirst, hnext⟩
    cases o' with
    | error fault =>
        obtain ⟨rfl, rfl, rfl⟩ := ends_done.mp hnext
        rw [List.append_nil]
        exact Or.inl ⟨fault, rfl, hfirst⟩
    | ok r => exact Or.inr ⟨h₁, h₂, r, u, rfl, hfirst, hnext⟩
  · intro hcase
    rcases hcase with ⟨fault, rfl, hfirst⟩ | ⟨h₁, h₂, r, u, rfl, hfirst, hnext⟩
    · exact ⟨h, [], .error fault, v, (List.append_nil h).symm, hfirst, ends_done.mpr ⟨rfl, rfl, rfl⟩⟩
    · exact ⟨h₁, h₂, .ok r, u, rfl, hfirst, hnext⟩

/-! ### The pieces of a flow -/

theorem ends_act {f : World → World} {next : World → Marked} :
    Ends ordered (.act m f next) w h o v ↔
      ∃ g, h = .own m [] w (f w) :: g ∧ Ends ordered (next w) (f w) g o v := by
  constructor
  · rintro ⟨halone, hrun⟩
    cases hrun with
    | own hmove hrest =>
        cases hmove
        exact ⟨_, rfl, alone_own.mp halone, hrest⟩
    | other _ => exact (not_alone_other halone).elim
    | tick hsettled _ => exact hsettled.elim
  · rintro ⟨g, rfl, hnext⟩
    exact ⟨alone_own.mpr hnext.alone, .own .act hnext.run⟩

theorem ends_look {next : World → Marked} : Ends ordered (look m next) w h o v ↔
    ∃ g, h = .own m [] w w :: g ∧ Ends ordered (next w) w g o v :=
  ends_act

/-- A sleep ends when its time has passed. -/
theorem ends_sleep {ms : Nat} {next : World → Marked} : Ends ordered (.sleep m ms next) w h o v ↔
    ∃ g, h = List.replicate ms .tick ++ .own m [] (w.wait ms) (w.wait ms) :: g ∧
      Ends ordered (next (w.wait ms)) (w.wait ms) g o v := by
  induction ms generalizing w h with
  | zero =>
      constructor
      · rintro ⟨halone, hrun⟩
        cases hrun with
        | own hmove hrest =>
            cases hmove
            exact ⟨_, rfl, alone_own.mp halone, hrest⟩
        | other _ => exact (not_alone_other halone).elim
        | tick hsettled _ => exact (hsettled rfl).elim
      · rintro ⟨g, rfl, hnext⟩
        exact ⟨alone_own.mpr hnext.alone, .own .wake hnext.run⟩
  | succ ms ih =>
      have hwait : (w.wait 1).wait ms = w.wait (ms + 1) := by
        rw [World.wait_wait, Nat.add_comm]
      constructor
      · rintro ⟨halone, hrun⟩
        cases hrun with
        | own hmove _ => cases hmove
        | other _ => exact (not_alone_other halone).elim
        | tick hsettled hrest =>
            obtain ⟨g, rfl, hnext⟩ := ih.mp ⟨alone_tick.mp halone, hrest⟩
            rw [hwait] at hnext ⊢
            exact ⟨g, rfl, hnext⟩
      · rintro ⟨g, rfl, hnext⟩
        have hrest : Ends ordered (.sleep m ms next) (w.wait 1)
            (List.replicate ms .tick ++ .own m [] (w.wait (ms + 1)) (w.wait (ms + 1)) :: g) o v := by
          rw [ih, hwait]
          exact ⟨g, rfl, hnext⟩
        exact ⟨alone_tick.mpr hrest.alone, .tick (Nat.succ_ne_zero ms) hrest.run⟩

theorem not_ends_never : ¬ Ends ordered (.never m) w h o v := by
  rintro ⟨halone, hrun⟩
  generalize hnever : Marked.never m = r at hrun
  generalize hdone : Marked.done o = d at hrun
  induction hrun with
  | stop =>
      subst hnever
      cases hdone
  | own hmove _ _ =>
      subst hnever
      cases hmove
  | other _ _ => exact not_alone_other halone
  | tick _ _ ih =>
      subst hnever
      exact ih (alone_tick.mp halone) rfl hdone

theorem ends_report {r : Report} : Ends ordered (report r) w h o v ↔ h = [] ∧ o = .ok r ∧ v = w :=
  ends_done

theorem ends_note {level : Level} {text : String} : Ends ordered (note m level text s) w h o v ↔
    ∃ g, h = .own m [] w (w.note level text) :: g ∧ Ends ordered s (w.note level text) g o v :=
  ends_act

section

variable {place : Pool} {settings : Settings} {e : Evaluator}

/-- The turn in which the guard of a step is looked at. -/
def looks (place : Pool) (settings : Settings) (w : World) : Turn :=
  .own ⟨place, .guard settings⟩ [] w w

/-- **A guard** is looked at once, and decides what follows. -/
theorem ends_check {next : Bool → Marked} : Ends ordered (check place settings e next) w h o v ↔
    ∃ g, h = looks place settings w :: g ∧
      ((∃ error, settings.holds e w.context = .error error ∧ g = [] ∧
          o = .error (.ofError error) ∧ v = w) ∨
        ∃ b, settings.holds e w.context = .ok b ∧ Ends ordered (next b) w g o v) := by
  rw [check, ends_act]
  simp only [id_eq]
  refine exists_congr fun g => and_congr_right fun _ => ?_
  cases hholds : settings.holds e w.context with
  | error error =>
      rw [ends_done]
      constructor
      · exact fun hends => Or.inl ⟨error, rfl, hends⟩
      · rintro (⟨_, ⟨rfl⟩, hends⟩ | ⟨_, hok, -⟩)
        · exact hends
        · cases hok
  | ok b =>
      constructor
      · exact fun hends => Or.inr ⟨b, rfl, hends⟩
      · rintro (⟨_, herror, -⟩ | ⟨_, ⟨rfl⟩, hends⟩)
        · cases herror
        · exact hends

/-- The turns before the work of a step: it waits for its delay, and begins. -/
def opening (place : Pool) (first : Purpose) (label : String) (ms : Nat) (w : World) : List Turn :=
  if ms = 0 then [.own ⟨place, first⟩ [] w (w.note .debug ("Executing " ++ label))]
  else
    let x := w.note .debug ("Delaying " ++ label ++ " by " ++ Duration.text ms)
    .own ⟨place, .upkeep⟩ [] w x :: (List.replicate ms .tick ++
      [.own ⟨place, .upkeep⟩ [] (x.wait ms) (x.wait ms),
        .own ⟨place, first⟩ [] (x.wait ms) ((x.wait ms).note .debug ("Executing " ++ label))])

/-- The world in which the work of a step begins. -/
def opened (label : String) (ms : Nat) (w : World) : World :=
  if ms = 0 then w.note .debug ("Executing " ++ label)
  else
    ((w.note .debug ("Delaying " ++ label ++ " by " ++ Duration.text ms)).wait ms).note .debug
      ("Executing " ++ label)

/-- The delay passes before the work, and no other time does. -/
theorem ticks_opening (first : Purpose) (label : String) (ms : Nat) (w : World) :
    ticks (opening place first label ms w) = ms := by
  unfold opening
  by_cases hms : ms = 0
  · rw [if_pos hms, hms]
    rfl
  · rw [if_neg hms]
    simp

/-- **The delay** comes before the work. -/
theorem ends_delayed {first : Purpose} {label : String} {ms : Nat} :
    Ends ordered (delayed place first label ms s) w h o v ↔
      ∃ g, h = opening place first label ms w ++ g ∧ Ends ordered s (opened label ms w) g o v := by
  unfold delayed opening opened
  by_cases hms : ms = 0
  · simp only [if_pos hms]
    exact ends_note
  · simp only [if_neg hms, ends_note, ends_sleep]
    constructor
    · rintro ⟨_, rfl, _, rfl, g, rfl, hends⟩
      exact ⟨g, by simp, hends⟩
    · rintro ⟨g, rfl, hends⟩
      exact ⟨_, rfl, _, by simp, g, rfl, hends⟩

end

/-! ### The guards of the steps of a flow -/

/-- The number of the step of a flow at a place whose guard is looked at in a turn, and the world that is
seen then. -/
def Turn.look? (place : Pool) : Turn → Option (Nat × World)
  | .own ⟨i :: around, .guard _⟩ _ w _ => if around = place then some (i, w) else none
  | _ => none

/-- The guards of the steps of a flow that are looked at in a history, one after the other. -/
def lookedAt (place : Pool) (h : List Turn) : List (Nat × World) :=
  h.filterMap (Turn.look? place)

theorem lookedAt_append (place : Pool) (h g : List Turn) :
    lookedAt place (h ++ g) = lookedAt place h ++ lookedAt place g :=
  List.filterMap_append ..

theorem lookedAt_looks (place : Pool) (i : Nat) (settings : Settings) (w : World) (h : List Turn) :
    lookedAt place (looks (i :: place) settings w :: h) = (i, w) :: lookedAt place h := by
  simp [lookedAt, looks, Turn.look?]

theorem lookedAt_upkeep (place q : Pool) (h : List Turn) :
    lookedAt place (.own ⟨q, .upkeep⟩ way w v :: h) = lookedAt place h := by
  simp [lookedAt, Turn.look?]

theorem lookedAt_reported (place q : Pool) (r : Report) (h : List Turn) :
    lookedAt place (.own ⟨q, .reported r⟩ way w v :: h) = lookedAt place h := by
  simp [lookedAt, Turn.look?]

theorem look?_eq_some {place : Pool} {turn : Turn} {seen : Nat × World}
    (hlook : turn.look? place = some seen) :
    ∃ settings way v, turn = .own ⟨seen.1 :: place, .guard settings⟩ way seen.2 v := by
  unfold Turn.look? at hlook
  split at hlook
  next i around settings way w v =>
    split at hlook
    next heq =>
      cases hlook
      exact ⟨settings, way, v, by rw [heq]⟩
    next => cases hlook
  next => cases hlook

/-- **The work of a step** looks neither at its own guard nor at one of a step beside it. -/
theorem lookedAt_step {e : Evaluator} {patience : Nat} {place : Pool} {i : Nat} {step : Step}
    (hrun : Run ordered (step.marked e patience (i :: place)) w h t v) : lookedAt place h = [] := by
  have honly : Only (fun m => ∀ j settings, m ≠ ⟨j :: place, .guard settings⟩)
      (step.marked e patience (i :: place)) := by
    obtain ⟨settings, flow⟩ := step
    have hfirst (j : Nat) (s : Settings) : (⟨i :: place, flow.first⟩ : Mark) ≠ ⟨j :: place, .guard s⟩ :=
      fun heq => flow.first_ne_guard s (congrArg Mark.purpose heq)
    refine .delayed hfirst nofun ?_
    have hbelow : Only (fun m => (i :: place) <:+ m.place)
        (flow.marked e patience (i :: place) (Step.mk settings flow).brief) :=
      Flow.marked_only flow (fun _ hq => hq : Below ((i :: place) <:+ ·) (i :: place)) _
    refine (hbelow.and flow.marked_unlooked).mono fun m hm j s heq => ?_
    obtain ⟨hsuffix, hown⟩ := hm
    rw [heq] at hsuffix
    obtain rfl := place_unique hsuffix (List.suffix_refl _)
    exact hown s heq
  rw [lookedAt, List.filterMap_eq_nil_iff]
  intro turn hturn
  cases hlook : turn.look? place with
  | none => rfl
  | some seen =>
      obtain ⟨settings, way, x, rfl⟩ := look?_eq_some hlook
      exact ((honly.run hrun).1 _ _ _ _ hturn seen.1 settings rfl).elim

/-- **What `run` computes is the ending of the activity**, if it has enough patience. -/
theorem run_iff_ends : (∃ fuel, Activity.run fuel s.plain w = some (o, v)) ↔
    ∃ h, Ends True s w h o v := by
  constructor
  · rintro ⟨fuel, hrun⟩
    obtain ⟨h, halone, hends⟩ := Run.of_run hrun
    exact ⟨h, halone, hends⟩
  · rintro ⟨h, halone, hrun⟩
    exact ⟨_, Activity.run_of_alone hrun.plain halone.plain (Nat.le_refl _)⟩

end Marked

end Runsheet
