import Runsheet.Flow.Tally

/-!
# Activities

What work does over time, as a value: it changes the world, sleeps, works under a time limit, or
splits into branches that share a number of permits.  `settle` carries an activity as far as it gets
without time passing, `elapse` lets time pass, and `run` alternates the two.  All that is left of an
activity is in its value, so a branch that is given up cannot act again.
-/

namespace Runsheet

/-- Work over time. -/
inductive Activity
  /-- The work has ended. -/
  | done (outcome : Outcome)
  /-- Changes the world at once; what follows sees the world as it was before. -/
  | act (change : World → World) (next : World → Activity)
  /-- Waits for a number of milliseconds. -/
  | sleep (ms : Nat) (next : World → Activity)
  /-- Goes on for ever and never waits, so that no time passes. -/
  | never
  /-- Works for as long as there is time left; what follows gets no outcome if it ran out. -/
  | within (left : Nat) (body : Activity) (next : Option Outcome → Activity)
  /-- Works side by side on a pool.  What follows gets the reports of the branches, or the fault that
  was read first with its branch. -/
  | fork (tally : Tally) (slots : List (Slot Activity)) (next : Reading → Activity)

namespace Activity

/-- Changes the world, and then goes on. -/
def change (f : World → World) (a : Activity) : Activity :=
  .act f fun _ => a

/-- Goes on as the world says. -/
def look (next : World → Activity) : Activity :=
  .act id next

/-- Ends at once, and with a change of the world. -/
def attempt (f : World → Outcome × World) : Activity :=
  .act (fun w => (f w).2) fun w => .done (f w).1

/-- Ends at once with a report, and with a change of the world. -/
def instant (f : World → Report × World) : Activity :=
  .act (fun w => (f w).2) fun w => .done (.ok (f w).1)

/-- Work that ends with a fault. -/
def fail (fault : Fault) : Activity :=
  .done (.error fault)

/-- Goes on with the outcome of an activity. -/
def bind (k : Outcome → Activity) : Activity → Activity
  | .done o => k o
  | .act f next => .act f fun w => bind k (next w)
  | .sleep ms next => .sleep ms fun w => bind k (next w)
  | .never => .never
  | .within left body next => .within left body fun o => bind k (next o)
  | .fork tally slots next => .fork tally slots fun r => bind k (next r)

/-- Goes on with the report of an activity; a fault ends the work. -/
def onReport (a : Activity) (k : Report → Activity) : Activity :=
  a.bind fun
    | .ok r => k r
    | .error fault => .fail fault

/-! ### Rest -/

/-- Work waits with its own hands: for time to pass, or for a branch of its to end. -/
def AtRest : Activity → Prop
  | .done _ | .act .. | .never => False
  | .sleep ms _ => ms ≠ 0
  | .within left body _ => left ≠ 0 ∧ AtRest body
  | .fork tally slots _ => tally.arrivals = [] ∧ ∃ s ∈ slots, s.isEnded = false

/-- Whether work waits with its own hands can be seen. -/
def decideAtRest : (a : Activity) → Decidable (AtRest a)
  | .done _ | .act .. | .never => isFalse id
  | .sleep ms _ => inferInstanceAs (Decidable (ms ≠ 0))
  | .within left body _ =>
    have := decideAtRest body
    inferInstanceAs (Decidable (left ≠ 0 ∧ AtRest body))
  | .fork tally slots _ =>
    have : Decidable (tally.arrivals = []) := decidable_of_iff _ List.isEmpty_iff
    inferInstanceAs (Decidable (tally.arrivals = [] ∧ ∃ s ∈ slots, s.isEnded = false))

instance (a : Activity) : Decidable (AtRest a) :=
  decideAtRest a

/-! ### Branches -/

/-- What a split has come to, and the world. -/
structure Stage where
  tally : Tally
  slots : List (Slot Activity)
  world : World

namespace Stage

/-- A branch that has its permit gets as far as it can, and gives the permit back if it ends. -/
def carry (reach : World → Activity × World) (i : Nat) (p : Stage) : Stage :=
  match reach p.world with
  | (.done o, w) => ⟨p.tally.finish i o, p.slots.set i (.ended o), w⟩
  | (body, w) => ⟨p.tally, p.slots.set i (.running body), w⟩

/-- A branch asks for a permit or waits for one, and with a permit it gets as far as it can. -/
def deal (reach : World → Activity × World) (i : Nat) (s : Slot Activity) (p : Stage) : Stage :=
  match p.tally.deal (p.world.isClosed p.tally.pool) i s with
  | some (t, .running body) => carry reach i ⟨t, p.slots.set i (.running body), p.world⟩
  | some (t, s) => ⟨t, p.slots.set i s, p.world⟩
  | none => p

/-- The turn of a branch that runs or has not asked yet. -/
def visit (reaches : List (World → Activity × World)) (p : Stage) (i : Nat) : Stage :=
  match reaches[i]?, p.slots[i]? with
  | some reach, some (.running _) => p.carry reach i
  | some reach, some (.fresh body) => p.deal reach i (.fresh body)
  | _, _ => p

/-- The turns of those that wait in the line, for as long as there are permits. -/
def serve (reaches : List (World → Activity × World)) : List Nat → Stage → Stage
  | [], p => p
  | i :: rest, p =>
    if p.tally.free = 0 then p
    else
      match reaches[i]?, p.slots[i]? with
      | some reach, some (.queued body) => serve reaches rest (p.deal reach i (.queued body))
      | _, _ => p

/-- The turns of all branches: first of those that run or ask for a permit, in their order, and then of
those that wait for one. -/
def advance (reaches : List (World → Activity × World)) (p : Stage) : Stage :=
  let p := (List.range p.slots.length).foldl (visit reaches) p
  p.serve reaches p.tally.line

/-- Takes note of those that have ended.  If that is all of them, or one has faulted, the split is over. -/
def join (p : Stage) : (Reading × World) ⊕ Stage :=
  match p.tally.readAll with
  | .error fault => .inl (.error fault, p.world)
  | .ok reports =>
    if p.slots.all Slot.isEnded then .inl (.ok reports, p.world)
    else .inr { p with tally := { p.tally with arrivals := [], reports := reports } }

/-- The turns of all branches, and what is read after them; if the split is to stop `early`, it waits at
once where it can. -/
def proceed (early : Bool) (reaches : List (World → Activity × World)) (p : Stage) :
    (Reading × World) ⊕ Stage :=
  if early && p.tally.arrivals.isEmpty && !p.slots.all Slot.isEnded then .inr p
  else (p.advance reaches).join

end Stage

/-! ### Time -/

mutual

/-- Carries an activity as far as it gets without time passing.  If it is to stop `early`, it gets only so
far as it has to go before it waits with its own hands: its branches do not have their turns.  So it is
with work that has reached its limit. -/
def settle : Activity → Bool → World → Activity × World
  | .done o, _, w => (.done o, w)
  | .act f next, early, w => settle (next w) early (f w)
  | .sleep ms next, early, w => if ms = 0 then settle (next w) early w else (.sleep ms next, w)
  | .never, _, w => (.never, w)
  | .within left body next, early, w =>
    match settle body (early || left == 0) w with
    | (.done o, w) => settle (next (some o)) early w
    | (body, w) =>
      if left = 0 ∧ AtRest body then settle (next none) early w else (.within left body next, w)
  | .fork tally slots next, early, w =>
    match Stage.proceed early (reaches slots) ⟨tally, slots, w⟩ with
    | .inl (reading, w) => settle (next reading) early w
    | .inr p => (.fork p.tally p.slots next, p.world)
termination_by structural a => a

/-- How far the branches get, each by itself. -/
def reaches : List (Slot Activity) → List (World → Activity × World)
  | [] => []
  | .fresh body :: rest | .queued body :: rest | .running body :: rest =>
    settle body false :: reaches rest
  | .ended o :: rest => (fun w => (.done o, w)) :: reaches rest
termination_by structural a => a

end

mutual

/-- Lets time pass: sleeps and limits grow shorter. -/
def elapse (ms : Nat) : Activity → Activity
  | .done o => .done o
  | .act f next => .act f next
  | .sleep rest next => .sleep (rest - ms) next
  | .never => .never
  | .within left body next => .within (left - ms) (elapse ms body) next
  | .fork tally slots next => .fork tally (elapseSlots ms slots) next

/-- Lets time pass for the branches that run. -/
def elapseSlots (ms : Nat) : List (Slot Activity) → List (Slot Activity)
  | [] => []
  | .running body :: rest => .running (elapse ms body) :: elapseSlots ms rest
  | .fresh body :: rest => .fresh body :: elapseSlots ms rest
  | .queued body :: rest => .queued body :: elapseSlots ms rest
  | .ended o :: rest => .ended o :: elapseSlots ms rest

end

/-- The earlier of two times, of which either may never come. -/
def earlier : Option Nat → Option Nat → Option Nat
  | none, t => t
  | t, none => t
  | some s, some t => some (min s t)

mutual

/-- The time after which a settled activity goes on, or none if it never does. -/
def wake? : Activity → Option Nat
  | .done _ | .act .. | .never => none
  | .sleep ms _ => some ms
  | .within left body _ => earlier (some left) (wake? body)
  | .fork _ slots _ => wakeSlots? slots

/-- The time after which one of the branches goes on. -/
def wakeSlots? : List (Slot Activity) → Option Nat
  | [] => none
  | .running body :: rest => earlier (wake? body) (wakeSlots? rest)
  | .fresh _ :: rest | .queued _ :: rest | .ended _ :: rest => wakeSlots? rest

end

mutual

/-- Is there a part that goes on for ever and never waits? -/
def spins : Activity → Bool
  | .done _ | .act .. | .sleep .. => false
  | .never => true
  | .within _ body _ => spins body
  | .fork _ slots _ => spinsSlots slots

/-- Does one of the branches go on for ever without waiting? -/
def spinsSlots : List (Slot Activity) → Bool
  | [] => false
  | .running body :: rest => spins body || spinsSlots rest
  | .fresh _ :: rest | .queued _ :: rest | .ended _ :: rest => spinsSlots rest

end

/-- Carries an activity to its end, with at most `fuel` pauses; none if it does not get there. -/
def run (fuel : Nat) (a : Activity) (w : World) : Option (Outcome × World) :=
  match settle a false w with
  | (.done o, w) => some (o, w)
  | (a, w) =>
    if spins a then none
    else
      match fuel, wake? a with
      | fuel + 1, some ms => run fuel (elapse ms a) (w.wait ms)
      | _, _ => none

end Activity

end Runsheet
