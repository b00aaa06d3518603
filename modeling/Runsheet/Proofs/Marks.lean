import Runsheet.Flow.Work
import Runsheet.Proofs.Interleaving

/-!
# Marked activities

An activity in which each piece of work carries a mark: the place of the flow that it belongs to, and
what it is for.  A mark does nothing, so that a marked activity runs as the same activity without its
marks does; but a history then tells which part of a flow has each of its turns.

* `Marked.Run.marked`, `Marked.Run.plain` — the runs of a marked activity are the runs of the plain one;
* `Marked.Only` — all that is left of an activity carries certain marks;
* `Marked.Only.run` — then so does all that it ever does.
-/

namespace Runsheet

open Activity

/-- What a piece of the work of a flow is for. -/
inductive Purpose
  /-- It looks at the guard of a step. -/
  | guard (settings : Settings)
  /-- It begins an invocation of a task. -/
  | invocation
  /-- It is part of what a task does. -/
  | behavior
  /-- It takes note of the report of a step. -/
  | reported (report : Report)
  /-- It takes note of a branch that is late. -/
  | late
  /-- It is one of the few other things that flows do by themselves. -/
  | upkeep

/-- The place of a flow in the tree, and what a piece of its work is for. -/
structure Mark where
  place : Pool
  purpose : Purpose

/-- Work over time, with marks. -/
inductive Marked
  | done (outcome : Outcome)
  | act (mark : Mark) (change : World → World) (next : World → Marked)
  | sleep (mark : Mark) (ms : Nat) (next : World → Marked)
  | never (mark : Mark)
  | within (mark : Mark) (left : Nat) (body : Marked) (next : Option Outcome → Marked)
  | fork (mark : Mark) (tally : Tally) (slots : List (Slot Marked)) (next : Reading → Marked)

mutual

/-- The activity with the same mark on all of it. -/
def Activity.marked (m : Mark) : Activity → Marked
  | .done o => .done o
  | .act f next => .act m f fun w => Activity.marked m (next w)
  | .sleep ms next => .sleep m ms fun w => Activity.marked m (next w)
  | .never => .never m
  | .within left body next =>
    .within m left (Activity.marked m body) fun o => Activity.marked m (next o)
  | .fork tally slots next =>
    .fork m tally (Activity.markedSlots m slots) fun r => Activity.marked m (next r)

/-- The branches, with the same mark on all of them. -/
def Activity.markedSlots (m : Mark) : List (Slot Activity) → List (Slot Marked)
  | [] => []
  | .fresh body :: rest => .fresh (Activity.marked m body) :: Activity.markedSlots m rest
  | .queued body :: rest => .queued (Activity.marked m body) :: Activity.markedSlots m rest
  | .running body :: rest => .running (Activity.marked m body) :: Activity.markedSlots m rest
  | .ended o :: rest => .ended o :: Activity.markedSlots m rest

end

namespace Marked

mutual

/-- The activity without its marks. -/
def plain : Marked → Activity
  | .done o => .done o
  | .act _ f next => .act f fun w => plain (next w)
  | .sleep _ ms next => .sleep ms fun w => plain (next w)
  | .never _ => .never
  | .within _ left body next => .within left (plain body) fun o => plain (next o)
  | .fork _ tally slots next => .fork tally (plainSlots slots) fun r => plain (next r)

/-- The branches without their marks. -/
def plainSlots : List (Slot Marked) → List (Slot Activity)
  | [] => []
  | .fresh body :: rest => .fresh (plain body) :: plainSlots rest
  | .queued body :: rest => .queued (plain body) :: plainSlots rest
  | .running body :: rest => .running (plain body) :: plainSlots rest
  | .ended o :: rest => .ended o :: plainSlots rest

end

mutual

/-- Lets time pass: sleeps and limits grow shorter. -/
def elapse (ms : Nat) : Marked → Marked
  | .done o => .done o
  | .act m f next => .act m f next
  | .sleep m rest next => .sleep m (rest - ms) next
  | .never m => .never m
  | .within m left body next => .within m (left - ms) (elapse ms body) next
  | .fork m tally slots next => .fork m tally (elapseSlots ms slots) next

/-- Lets time pass for the branches that run. -/
def elapseSlots (ms : Nat) : List (Slot Marked) → List (Slot Marked)
  | [] => []
  | .running body :: rest => .running (elapse ms body) :: elapseSlots ms rest
  | .fresh body :: rest => .fresh body :: elapseSlots ms rest
  | .queued body :: rest => .queued body :: elapseSlots ms rest
  | .ended o :: rest => .ended o :: elapseSlots ms rest

end

/-- Goes on with the outcome of an activity. -/
def bind (k : Outcome → Marked) : Marked → Marked
  | .done o => k o
  | .act m f next => .act m f fun w => bind k (next w)
  | .sleep m ms next => .sleep m ms fun w => bind k (next w)
  | .never m => .never m
  | .within m left body next => .within m left body fun o => bind k (next o)
  | .fork m tally slots next => .fork m tally slots fun r => bind k (next r)

/-- Goes on with the report of an activity; a fault ends the work. -/
def onReport (s : Marked) (k : Report → Marked) : Marked :=
  s.bind fun
    | .ok r => k r
    | .error fault => .done (.error fault)

/-- **A move** of a marked activity: that of the plain one, with the mark of the part that moves.  What a
branch does to get its permit and to give it back has the mark of the split. -/
inductive Move (ordered : Prop) : Mark → Way → Marked → World → Marked → World → Prop
  | act {m : Mark} {f : World → World} {next : World → Marked} {w : World} :
      Move ordered m [] (.act m f next) w (next w) (f w)
  | wake {m : Mark} {next : World → Marked} {w : World} :
      Move ordered m [] (.sleep m 0 next) w (next w) w
  | inside {m n : Mark} {way : Way} {left : Nat} {s t : Marked} {next : Option Outcome → Marked}
      {w v : World} (hturn : ordered → left = 0 → ¬ AtRest s.plain)
      (hmove : Move ordered m way s w t v) :
      Move ordered m way (.within n left s next) w (.within n left t next) v
  | inTime {m : Mark} {left : Nat} {o : Outcome} {next : Option Outcome → Marked} {w : World} :
      Move ordered m [] (.within m left (.done o) next) w (next (some o)) w
  | late {m : Mark} {s : Marked} {next : Option Outcome → Marked} {w : World}
      (hrest : AtRest s.plain) : Move ordered m [] (.within m 0 s next) w (next none) w
  | deal {m : Mark} {i : Nat} {tally tally' : Tally} {slots : List (Slot Marked)}
      {slot slot' : Slot Marked} {next : Reading → Marked} {w : World}
      (hturn : ordered → InTurn tally (plainSlots slots) i) (hslot : slots[i]? = some slot)
      (hdeal : tally.deal (w.isClosed tally.pool) i slot = some (tally', slot')) :
      Move ordered m [(tally.pool, i)] (.fork m tally slots next) w
        (.fork m tally' (slots.set i slot') next) w
  | branch {m n : Mark} {way : Way} {i : Nat} {tally : Tally} {slots : List (Slot Marked)}
      {s t : Marked} {next : Reading → Marked} {w v : World}
      (hturn : ordered → InTurn tally (plainSlots slots) i) (hslot : slots[i]? = some (.running s))
      (hmove : Move ordered m way s w t v) :
      Move ordered m ((tally.pool, i) :: way) (.fork n tally slots next) w
        (.fork n tally (slots.set i (.running t)) next) v
  | finish {m : Mark} {i : Nat} {tally : Tally} {slots : List (Slot Marked)} {o : Outcome}
      {next : Reading → Marked} {w : World} (hturn : ordered → InTurn tally (plainSlots slots) i)
      (hslot : slots[i]? = some (.running (.done o))) :
      Move ordered m [(tally.pool, i)] (.fork m tally slots next) w
        (.fork m (tally.finish i o) (slots.set i (.ended o)) next) w
  | read {m : Mark} {tally : Tally} {slots : List (Slot Marked)} {arrival : Arrival}
      {rest : List Arrival} {reports : List (Option Report)} {next : Reading → Marked} {w : World}
      (hturn : ordered → Readable tally (plainSlots slots))
      (harrivals : tally.arrivals = arrival :: rest)
      (hverdict : Tally.verdict tally.reports arrival = .ok reports) :
      Move ordered m [] (.fork m tally slots next) w
        (.fork m { tally with arrivals := rest, reports := reports } slots next) w
  | abort {m : Mark} {tally : Tally} {slots : List (Slot Marked)} {arrival : Arrival}
      {rest : List Arrival} {fault : Nat × Fault} {next : Reading → Marked} {w : World}
      (hturn : ordered → Readable tally (plainSlots slots))
      (harrivals : tally.arrivals = arrival :: rest)
      (hverdict : Tally.verdict tally.reports arrival = .error fault) :
      Move ordered m [] (.fork m tally slots next) w (next (.error fault)) w
  | leave {m : Mark} {tally : Tally} {slots : List (Slot Marked)} {next : Reading → Marked}
      {w : World} (harrivals : tally.arrivals = []) (hended : ∀ slot ∈ slots, slot.isEnded = true) :
      Move ordered m [] (.fork m tally slots next) w (next (.ok tally.reports)) w

/-- A turn in a history, with the mark of the part whose turn it is. -/
inductive Turn
  | own (mark : Mark) (way : Way) (w v : World)
  | other (w v : World)
  | tick

/-- The turn without its mark. -/
def Turn.plain : Turn → Activity.Turn
  | .own _ way w v => .own way w v
  | .other w v => .other w v
  | .tick => .tick

/-- **A run** of a marked activity. -/
inductive Run (ordered : Prop) : Marked → World → List Turn → Marked → World → Prop
  | stop {s : Marked} {w : World} : Run ordered s w [] s w
  | own {m : Mark} {way : Way} {s t r : Marked} {w v u : World} {h : List Turn}
      (hmove : Move ordered m way s w t v) (hrun : Run ordered t v h r u) :
      Run ordered s w (.own m way w v :: h) r u
  | other {s r : Marked} {w v u : World} {h : List Turn} (hrun : Run ordered s v h r u) :
      Run ordered s w (.other w v :: h) r u
  | tick {s r : Marked} {w u : World} {h : List Turn} (hsettled : Settled s.plain)
      (hrun : Run ordered (elapse 1 s) (w.wait 1) h r u) : Run ordered s w (.tick :: h) r u

end Marked

namespace Marked

variable {ordered : Prop} {m n : Mark} {way : Way} {s t r : Marked} {w v u : World}
variable {h g : List Turn} {tally tally' : Tally} {slots : List (Slot Marked)} {i j : Nat}
variable {slot slot' : Slot Marked} {next : Reading → Marked}

/-- Lets time pass for a branch. -/
def elapseSlot (ms : Nat) : Slot Marked → Slot Marked
  | .running body => .running (body.elapse ms)
  | slot => slot

/-! ### Without marks -/

theorem plainSlots_eq_map (slots : List (Slot Marked)) : plainSlots slots = slots.map (Slot.map plain) := by
  induction slots with
  | nil => rfl
  | cons slot rest ih => cases slot <;> simp [plainSlots, Slot.map, ih]

theorem elapseSlots_eq_map (ms : Nat) (slots : List (Slot Marked)) :
    elapseSlots ms slots = slots.map (elapseSlot ms) := by
  induction slots with
  | nil => rfl
  | cons slot rest ih => cases slot <;> simp [elapseSlots, elapseSlot, ih]

@[simp] theorem plain_eq_done {o : Outcome} : s.plain = .done o ↔ s = .done o := by
  cases s <;> simp [plain]

theorem plainSlots_getElem? (slots : List (Slot Marked)) (i : Nat) :
    (plainSlots slots)[i]? = slots[i]?.map (Slot.map plain) := by
  rw [plainSlots_eq_map, List.getElem?_map]

theorem plainSlots_getElem?_running {a : Activity} :
    (plainSlots slots)[i]? = some (.running a) ↔
      ∃ s, slots[i]? = some (.running s) ∧ s.plain = a := by
  rw [plainSlots_getElem?, Option.map_eq_some_iff]
  constructor
  · rintro ⟨slot, hslot, hplain⟩
    obtain ⟨s, rfl, hs⟩ := Slot.map_eq_running.mp hplain
    exact ⟨s, hslot, hs⟩
  · rintro ⟨s, hslot, rfl⟩
    exact ⟨_, hslot, rfl⟩

theorem plainSlots_set (slots : List (Slot Marked)) (i : Nat) (slot : Slot Marked) :
    plainSlots (slots.set i slot) = (plainSlots slots).set i (slot.map plain) := by
  simp [plainSlots_eq_map, List.map_set]

theorem plainSlots_length (slots : List (Slot Marked)) : (plainSlots slots).length = slots.length := by
  simp [plainSlots_eq_map]

theorem plainSlots_ended :
    (∀ slot ∈ plainSlots slots, slot.isEnded = true) ↔ ∀ slot ∈ slots, slot.isEnded = true := by
  rw [plainSlots_eq_map, List.forall_mem_map]
  simp only [Slot.isEnded_map]

mutual

/-- To put a mark on an activity changes nothing. -/
theorem plain_marked (m : Mark) (a : Activity) : (a.marked m).plain = a := by
  match a with
  | .done o => rfl
  | .act f next => simp only [Activity.marked, plain, plain_marked m]
  | .sleep ms next => simp only [Activity.marked, plain, plain_marked m]
  | .never => rfl
  | .within left body next => simp only [Activity.marked, plain, plain_marked m]
  | .fork tally slots next =>
      simp only [Activity.marked, plain, plain_marked m, plainSlots_marked m]

theorem plainSlots_marked (m : Mark) (slots : List (Slot Activity)) :
    plainSlots (Activity.markedSlots m slots) = slots := by
  match slots with
  | [] => rfl
  | .fresh body :: rest | .queued body :: rest | .running body :: rest =>
      rw [Activity.markedSlots, plainSlots, plain_marked m body, plainSlots_marked m rest]
  | .ended o :: rest => rw [Activity.markedSlots, plainSlots, plainSlots_marked m rest]

end

@[simp] theorem plain_bind (s : Marked) (k : Outcome → Marked) :
    (s.bind k).plain = s.plain.bind fun o => (k o).plain := by
  match s with
  | .done o => rfl
  | .act m f next => simp only [bind, plain, Activity.bind, plain_bind]
  | .sleep m ms next => simp only [bind, plain, Activity.bind, plain_bind]
  | .never m => rfl
  | .within m left body next => simp only [bind, plain, Activity.bind, plain_bind]
  | .fork m tally slots next => simp only [bind, plain, Activity.bind, plain_bind]

@[simp] theorem plain_onReport (k : Report → Marked) :
    (s.onReport k).plain = s.plain.onReport fun r => (k r).plain := by
  rw [onReport, plain_bind, Activity.onReport]
  congr
  funext o
  cases o <;> rfl

mutual

theorem plain_elapse (ms : Nat) (s : Marked) : (s.elapse ms).plain = s.plain.elapse ms := by
  match s with
  | .done o => rfl
  | .act m f next => rfl
  | .sleep m rest next => rfl
  | .never m => rfl
  | .within m left body next => simp only [elapse, plain, Activity.elapse, plain_elapse ms body]
  | .fork m tally slots next =>
      simp only [elapse, plain, Activity.elapse, plainSlots_elapse ms slots]

theorem plainSlots_elapse (ms : Nat) (slots : List (Slot Marked)) :
    plainSlots (elapseSlots ms slots) = Activity.elapseSlots ms (plainSlots slots) := by
  match slots with
  | [] => rfl
  | .fresh body :: rest | .queued body :: rest | .ended o :: rest =>
      simp only [elapseSlots, plainSlots, Activity.elapseSlots, plainSlots_elapse ms rest]
  | .running body :: rest =>
      simp only [elapseSlots, plainSlots, Activity.elapseSlots, plain_elapse ms body,
        plainSlots_elapse ms rest]

end

/-! ### The same runs -/

/-- A move of the marked activity is one of the plain one. -/
theorem Move.plain (hmove : Move ordered m way s w t v) :
    Activity.Move ordered way s.plain w t.plain v := by
  induction hmove with
  | act => exact .act
  | wake => exact .wake
  | inside hturn _ ih => exact .inside hturn ih
  | inTime => exact .inTime
  | late hrest => exact .late hrest
  | deal hturn hslot hdeal =>
      rw [Marked.plain, Marked.plain, plainSlots_set]
      refine .deal hturn (by rw [plainSlots_getElem?, hslot, Option.map_some]) ?_
      rw [Tally.deal_map, hdeal]
      rfl
  | branch hturn hslot _ ih =>
      rw [Marked.plain, Marked.plain, plainSlots_set]
      exact .branch hturn (plainSlots_getElem?_running.mpr ⟨_, hslot, rfl⟩) ih
  | finish hturn hslot =>
      rw [Marked.plain, Marked.plain, plainSlots_set]
      exact .finish hturn (plainSlots_getElem?_running.mpr ⟨_, hslot, rfl⟩)
  | read hturn harrivals hverdict => exact .read hturn harrivals hverdict
  | abort hturn harrivals hverdict => exact .abort hturn harrivals hverdict
  | leave harrivals hended => exact .leave harrivals (plainSlots_ended.mpr hended)

theorem plain_eq_within {left : Nat} {a : Activity} {next : Option Outcome → Activity}
    (hplain : s.plain = .within left a next) :
    ∃ m body k, s = .within m left body k ∧ body.plain = a ∧ next = fun o => (k o).plain := by
  cases s with
  | within m left body k =>
      cases hplain
      exact ⟨m, body, k, rfl, rfl, rfl⟩
  | _ => cases hplain

theorem plain_eq_fork {slots : List (Slot Activity)} {next : Reading → Activity}
    (hplain : s.plain = .fork tally slots next) :
    ∃ m slots' k, s = .fork m tally slots' k ∧ plainSlots slots' = slots ∧
      next = fun r => (k r).plain := by
  cases s with
  | fork m tally slots k =>
      cases hplain
      exact ⟨m, slots, k, rfl, rfl, rfl⟩
  | _ => cases hplain

/-- A move of the plain activity is one of the marked one. -/
theorem Move.marked {b : Activity} (hmove : Activity.Move ordered way s.plain w b v) :
    ∃ m t, Move ordered m way s w t v ∧ t.plain = b := by
  generalize hplain : s.plain = a at hmove
  induction hmove generalizing s with
  | act =>
      cases s <;> cases hplain
      exact ⟨_, _, .act, rfl⟩
  | wake =>
      cases s <;> cases hplain
      exact ⟨_, _, .wake, rfl⟩
  | inside hturn _ ih =>
      obtain ⟨n, body, k, rfl, rfl, rfl⟩ := plain_eq_within hplain
      obtain ⟨m, t, hmove, rfl⟩ := ih rfl
      exact ⟨m, _, .inside hturn hmove, rfl⟩
  | inTime =>
      obtain ⟨n, body, k, rfl, hbody, rfl⟩ := plain_eq_within hplain
      obtain rfl := plain_eq_done.mp hbody
      exact ⟨_, _, .inTime, rfl⟩
  | late hrest =>
      obtain ⟨n, body, k, rfl, rfl, rfl⟩ := plain_eq_within hplain
      exact ⟨_, _, .late hrest, rfl⟩
  | deal hturn hslot hdeal =>
      obtain ⟨n, slots, k, rfl, rfl, rfl⟩ := plain_eq_fork hplain
      rw [plainSlots_getElem?, Option.map_eq_some_iff] at hslot
      obtain ⟨slot, hslot, rfl⟩ := hslot
      rw [Tally.deal_map, Option.map_eq_some_iff] at hdeal
      obtain ⟨⟨tally', slot'⟩, hdeal, heq⟩ := hdeal
      cases heq
      refine ⟨_, _, .deal hturn hslot hdeal, ?_⟩
      rw [Marked.plain, plainSlots_set]
  | branch hturn hslot _ ih =>
      obtain ⟨n, slots, k, rfl, rfl, rfl⟩ := plain_eq_fork hplain
      obtain ⟨s, hslot, hs⟩ := plainSlots_getElem?_running.mp hslot
      obtain ⟨m, t, hmove, rfl⟩ := ih hs
      refine ⟨m, _, .branch hturn hslot hmove, ?_⟩
      rw [Marked.plain, plainSlots_set, Slot.map]
  | finish hturn hslot =>
      obtain ⟨n, slots, k, rfl, rfl, rfl⟩ := plain_eq_fork hplain
      obtain ⟨s, hslot, hs⟩ := plainSlots_getElem?_running.mp hslot
      obtain rfl := plain_eq_done.mp hs
      refine ⟨_, _, .finish hturn hslot, ?_⟩
      rw [Marked.plain, plainSlots_set, Slot.map]
  | read hturn harrivals hverdict =>
      obtain ⟨n, slots, k, rfl, rfl, rfl⟩ := plain_eq_fork hplain
      exact ⟨_, _, .read hturn harrivals hverdict, rfl⟩
  | abort hturn harrivals hverdict =>
      obtain ⟨n, slots, k, rfl, rfl, rfl⟩ := plain_eq_fork hplain
      exact ⟨_, _, .abort hturn harrivals hverdict, rfl⟩
  | leave harrivals hended =>
      obtain ⟨n, slots, k, rfl, rfl, rfl⟩ := plain_eq_fork hplain
      exact ⟨_, _, .leave harrivals (plainSlots_ended.mp hended), rfl⟩

/-- A run of the marked activity is one of the plain one. -/
theorem Run.plain (hrun : Run ordered s w h t v) :
    Activity.Run ordered s.plain w (h.map Turn.plain) t.plain v := by
  induction hrun with
  | stop => exact .stop
  | own hmove _ ih => exact .own hmove.plain ih
  | other _ ih => exact .other ih
  | tick hsettled _ ih => exact .tick hsettled (by rwa [← plain_elapse])

/-- **A run of the plain activity is one of the marked one**, turn by turn. -/
theorem Run.marked {k : List Activity.Turn} {b : Activity}
    (hrun : Activity.Run ordered s.plain w k b v) :
    ∃ h t, Run ordered s w h t v ∧ h.map Turn.plain = k ∧ t.plain = b := by
  generalize hplain : s.plain = a at hrun
  induction hrun generalizing s with
  | stop => exact ⟨[], s, .stop, rfl, hplain⟩
  | own hmove _ ih =>
      subst hplain
      obtain ⟨m, t, hmarked, rfl⟩ := Move.marked hmove
      obtain ⟨h, r, hrun, rfl, hr⟩ := ih rfl
      exact ⟨_, r, .own hmarked hrun, rfl, hr⟩
  | other _ ih =>
      obtain ⟨h, r, hrun, rfl, hr⟩ := ih hplain
      exact ⟨_, r, .other hrun, rfl, hr⟩
  | tick hsettled _ ih =>
      subst hplain
      obtain ⟨h, r, hrun, rfl, hr⟩ := ih (plain_elapse 1 s)
      exact ⟨_, r, .tick hsettled hrun, rfl, hr⟩

theorem Run.append (hl : Run ordered s w h t v) (hr : Run ordered t v g r u) :
    Run ordered s w (h ++ g) r u := by
  induction hl with
  | stop => exact hr
  | own hmove _ ih => exact .own hmove (ih hr)
  | other _ ih => exact .other (ih hr)
  | tick hsettled _ ih => exact .tick hsettled (ih hr)

theorem Run.split (hrun : Run ordered s w (h ++ g) r u) :
    ∃ t v, Run ordered s w h t v ∧ Run ordered t v g r u := by
  induction h generalizing s w with
  | nil => exact ⟨s, w, .stop, hrun⟩
  | cons turn h ih =>
      cases hrun with
      | own hmove hrest =>
          obtain ⟨t, v, hl, hr⟩ := ih hrest
          exact ⟨t, v, .own hmove hl, hr⟩
      | other hrest =>
          obtain ⟨t, v, hl, hr⟩ := ih hrest
          exact ⟨t, v, .other hl, hr⟩
      | tick hsettled hrest =>
          obtain ⟨t, v, hl, hr⟩ := ih hrest
          exact ⟨t, v, .tick hsettled hl, hr⟩

/-- What every turn keeps holds after every history. -/
theorem Run.invariant {P : Marked → Prop} (hrun : Run ordered s w h t v) (hs : P s)
    (hown : ∀ {m way s w t v}, P s → Move ordered m way s w t v → P t)
    (htick : ∀ {s}, P s → P (elapse 1 s)) : P t := by
  induction hrun with
  | stop => exact hs
  | own hmove _ ih => exact ih (hown hs hmove)
  | other _ ih => exact ih hs
  | tick _ _ ih => exact ih (htick hs)

/-! ### One activity after the other -/

/-- A move of one activity after another is one of the first, or the first has ended. -/
theorem Move.of_bind {k : Outcome → Marked} (hmove : Move ordered m way (s.bind k) w r v) :
    (∃ t, Move ordered m way s w t v ∧ r = t.bind k) ∨
      ∃ o, s = .done o ∧ Move ordered m way (k o) w r v := by
  cases s with
  | done o => exact Or.inr ⟨o, rfl, hmove⟩
  | act m f next => cases hmove; exact Or.inl ⟨_, .act, rfl⟩
  | sleep m ms next => cases hmove; exact Or.inl ⟨_, .wake, rfl⟩
  | never m => cases hmove
  | within m left body next =>
      cases hmove with
      | inside hturn hmove => exact Or.inl ⟨_, .inside hturn hmove, rfl⟩
      | inTime => exact Or.inl ⟨_, .inTime, rfl⟩
      | late hrest => exact Or.inl ⟨_, .late hrest, rfl⟩
  | fork m tally slots next =>
      cases hmove with
      | deal hturn hslot hdeal => exact Or.inl ⟨_, .deal hturn hslot hdeal, rfl⟩
      | branch hturn hslot hmove => exact Or.inl ⟨_, .branch hturn hslot hmove, rfl⟩
      | finish hturn hslot => exact Or.inl ⟨_, .finish hturn hslot, rfl⟩
      | read hturn harrivals hverdict => exact Or.inl ⟨_, .read hturn harrivals hverdict, rfl⟩
      | abort hturn harrivals hverdict => exact Or.inl ⟨_, .abort hturn harrivals hverdict, rfl⟩
      | leave harrivals hended => exact Or.inl ⟨_, .leave harrivals hended, rfl⟩

/-- Time passes for the first of two activities, if it has not ended. -/
theorem elapse_bind (s : Marked) (k : Outcome → Marked) (ms : Nat) :
    (s.bind k).elapse ms = (s.elapse ms).bind k ∨ ∃ o, s = .done o := by
  cases s with
  | done o => exact Or.inr ⟨o, rfl⟩
  | _ => exact Or.inl rfl

/-! ### The branches of a split -/

theorem of_ongoing_elapse {ms : Nat} (ht : Ongoing (elapseSlots ms slots) i t) :
    ∃ s, Ongoing slots i s ∧ (t = s ∨ (slots[i]? = some (.running s) ∧ t = s.elapse ms)) := by
  rw [elapseSlots_eq_map] at ht
  apply ht.of_map
  · intro s
    rfl
  · intro slot hslot
    cases slot with
    | running s => cases hslot
    | fresh | queued | ended => rfl

theorem elapse_eq_ended {ms : Nat} {o : Outcome} :
    (elapseSlots ms slots)[i]? = some (.ended o) ↔ slots[i]? = some (.ended o) := by
  rw [elapseSlots_eq_map, List.getElem?_map]
  rcases slots[i]? with _ | slot
  · rfl
  · cases slot <;> simp [elapseSlot]

theorem elapse_eq_running {ms : Nat} : (elapseSlots ms slots)[i]? = some (.running t) ↔
    ∃ s, slots[i]? = some (.running s) ∧ t = s.elapse ms := by
  rw [elapseSlots_eq_map, List.getElem?_map]
  rcases slots[i]? with _ | slot
  · simp
  · cases slot <;> simp [elapseSlot, eq_comm]

theorem elapse_eq_fresh {ms : Nat} :
    (elapseSlots ms slots)[i]? = some (.fresh s) ↔ slots[i]? = some (.fresh s) := by
  rw [elapseSlots_eq_map, List.getElem?_map]
  rcases slots[i]? with _ | slot
  · rfl
  · cases slot <;> simp [elapseSlot]

theorem elapse_eq_queued {ms : Nat} :
    (elapseSlots ms slots)[i]? = some (.queued s) ↔ slots[i]? = some (.queued s) := by
  rw [elapseSlots_eq_map, List.getElem?_map]
  rcases slots[i]? with _ | slot
  · rfl
  · cases slot <;> simp [elapseSlot]

/-- Time changes nothing in what a tally says of its branches. -/
theorem tracks_elapse (htracks : tally.Tracks slots) (ms : Nat) :
    tally.Tracks (elapseSlots ms slots) :=
  htracks.congr (by rw [elapseSlots_eq_map, List.length_map]) elapse_eq_ended
    (exists_congr fun _ => elapse_eq_queued)

/-- **What becomes of a split in a move**: a branch works, what is kept about the branches changes, or the
split is over. -/
inductive ForkMove (ordered : Prop) (n : Mark) (tally : Tally) (slots : List (Slot Marked))
    (next : Reading → Marked) : Mark → Way → World → Marked → World → Prop
  | works {m : Mark} {way : Way} {i : Nat} {s t : Marked} {w v : World}
      (hturn : ordered → InTurn tally (plainSlots slots) i) (hslot : slots[i]? = some (.running s))
      (hmove : Move ordered m way s w t v) :
      ForkMove ordered n tally slots next m ((tally.pool, i) :: way) w
        (.fork n tally (slots.set i (.running t)) next) v
  | passes {way : Way} {tally' : Tally} {slots' : List (Slot Marked)} {w : World}
      (hway : way = [] ∨ ∃ i, way = [(tally.pool, i)]) (hpool : tally'.pool = tally.pool)
      (hparts : ∀ i s, Ongoing slots' i s → Ongoing slots i s) :
      ForkMove ordered n tally slots next n way w (.fork n tally' slots' next) w
  | ends {reading : Reading} {w : World} :
      ForkMove ordered n tally slots next n [] w (next reading) w

theorem Move.of_fork (hmove : Move ordered m way (.fork n tally slots next) w t v) :
    ForkMove ordered n tally slots next m way w t v := by
  cases hmove with
  | deal _ hslot hdeal =>
      exact .passes (.inr ⟨_, rfl⟩) (Tally.dealt_iff.mp hdeal).pool fun _ _ ht => ht.of_dealt hdeal hslot
  | branch hturn hslot hmove => exact .works hturn hslot hmove
  | finish => exact .passes (.inr ⟨_, rfl⟩) rfl fun _ _ ht => ht.of_set_ended.2
  | read => exact .passes (.inl rfl) rfl fun _ _ ht => ht
  | abort | leave => exact .ends

/-! ### Everything an activity may ever do -/

/-- All of an activity, and all that may follow it, carries marks with a property. -/
inductive Only (P : Mark → Prop) : Marked → Prop
  | done {o : Outcome} : Only P (.done o)
  | act {m : Mark} {f : World → World} {next : World → Marked} (hm : P m)
      (hnext : ∀ w, Only P (next w)) : Only P (.act m f next)
  | sleep {m : Mark} {ms : Nat} {next : World → Marked} (hm : P m)
      (hnext : ∀ w, Only P (next w)) : Only P (.sleep m ms next)
  | never {m : Mark} (hm : P m) : Only P (.never m)
  | within {m : Mark} {left : Nat} {body : Marked} {next : Option Outcome → Marked} (hm : P m)
      (hbody : Only P body) (hnext : ∀ o, Only P (next o)) : Only P (.within m left body next)
  | fork {m : Mark} {tally : Tally} {slots : List (Slot Marked)} {next : Reading → Marked} (hm : P m)
      (hslots : ∀ slot ∈ slots, ∀ s, slot.body? = some s → Only P s)
      (hnext : ∀ r, Only P (next r)) : Only P (.fork m tally slots next)

variable {P Q : Mark → Prop}

theorem Only.mono (hs : Only P s) (hPQ : ∀ m, P m → Q m) : Only Q s := by
  induction hs with
  | done => exact .done
  | act hm _ ih => exact .act (hPQ _ hm) ih
  | sleep hm _ ih => exact .sleep (hPQ _ hm) ih
  | never hm => exact .never (hPQ _ hm)
  | within hm _ _ ihbody ihnext => exact .within (hPQ _ hm) ihbody ihnext
  | fork hm _ _ ihslots ihnext => exact .fork (hPQ _ hm) ihslots ihnext

theorem Only.and (hP : Only P s) (hQ : Only Q s) : Only (fun m => P m ∧ Q m) s := by
  induction hP with
  | done => exact .done
  | act hm _ ih =>
      cases hQ with
      | act hm' hnext => exact .act ⟨hm, hm'⟩ fun w => ih w (hnext w)
  | sleep hm _ ih =>
      cases hQ with
      | sleep hm' hnext => exact .sleep ⟨hm, hm'⟩ fun w => ih w (hnext w)
  | never hm =>
      cases hQ with
      | never hm' => exact .never ⟨hm, hm'⟩
  | within hm _ _ ihbody ihnext =>
      cases hQ with
      | within hm' hbody hnext =>
          exact .within ⟨hm, hm'⟩ (ihbody hbody) fun o => ihnext o (hnext o)
  | fork hm _ _ ihslots ihnext =>
      cases hQ with
      | fork hm' hslots hnext =>
          exact .fork ⟨hm, hm'⟩ (fun slot hmem s hs => ihslots slot hmem s hs (hslots slot hmem s hs))
            fun r => ihnext r (hnext r)

theorem Only.bind (hs : Only P s) {k : Outcome → Marked} (hk : ∀ o, Only P (k o)) :
    Only P (s.bind k) := by
  induction hs with
  | done => exact hk _
  | act hm _ ih => exact .act hm ih
  | sleep hm _ ih => exact .sleep hm ih
  | never hm => exact .never hm
  | within hm hbody _ _ ih => exact .within hm hbody ih
  | fork hm hslots _ _ ih => exact .fork hm hslots ih

theorem Only.onReport (hs : Only P s) {k : Report → Marked} (hk : ∀ r, Only P (k r)) :
    Only P (s.onReport k) := by
  refine hs.bind fun o => ?_
  cases o with
  | ok r => exact hk r
  | error fault => exact .done

theorem Only.part (hs : Only P (.fork n tally slots next)) (ht : Ongoing slots i t) : Only P t := by
  cases hs with
  | fork _ hslots _ =>
      obtain ⟨slot, hslot, ht⟩ := ht
      exact hslots slot (List.mem_of_getElem? hslot) t ht

/-- A move has one of the marks, and leaves an activity with no other ones. -/
theorem Only.move (hs : Only P s) (hmove : Move ordered m way s w t v) : P m ∧ Only P t := by
  induction hs generalizing m way w t v with
  | done => cases hmove
  | act hm hnext =>
      cases hmove
      exact ⟨hm, hnext _⟩
  | sleep hm hnext =>
      cases hmove
      exact ⟨hm, hnext _⟩
  | never => cases hmove
  | within hm hbody hnext ih =>
      cases hmove with
      | inside _ hmove => exact ⟨(ih hmove).1, .within hm (ih hmove).2 hnext⟩
      | inTime | late => exact ⟨hm, hnext _⟩
  | @fork n tally slots next hm hslots hnext ih =>
      have hall : Only P (.fork n tally slots next) := .fork hm hslots hnext
      cases hmove.of_fork with
      | @works _ _ i s t _ _ _ hslot hmove =>
          obtain ⟨hmark, ht⟩ := ih _ (List.mem_of_getElem? hslot) s rfl hmove
          refine ⟨hmark, .fork hm (forall_ongoing fun j r hr => ?_) hnext⟩
          exact hr.set_running (P := fun _ => Only P) ht fun _ _ hpart => hall.part hpart
      | passes _ _ hparts =>
          exact ⟨hm, .fork hm (forall_ongoing fun j r hr => hall.part (hparts j r hr)) hnext⟩
      | ends => exact ⟨hm, hnext _⟩

theorem Only.elapse (hs : Only P s) (ms : Nat) : Only P (s.elapse ms) := by
  induction hs with
  | done => exact .done
  | act hm hnext => exact .act hm hnext
  | sleep hm hnext => exact .sleep hm hnext
  | never hm => exact .never hm
  | within hm _ hnext ih => exact .within hm ih hnext
  | fork hm hslots hnext ih =>
      refine .fork hm (forall_ongoing fun i t ht => ?_) hnext
      obtain ⟨s, ⟨slot, hslot, hs⟩, rfl | ⟨hrunning, rfl⟩⟩ := of_ongoing_elapse ht
      · exact hslots slot (List.mem_of_getElem? hslot) _ hs
      · exact ih _ (List.mem_of_getElem? hrunning) s rfl

/-- **Everything an activity ever does carries its marks**, and so does what it leaves. -/
theorem Only.run (hs : Only P s) (hrun : Run ordered s w h t v) :
    (∀ m way x y, .own m way x y ∈ h → P m) ∧ Only P t := by
  induction hrun with
  | stop => exact ⟨nofun, hs⟩
  | own hmove _ ih =>
      obtain ⟨hm, ht⟩ := hs.move hmove
      refine ⟨fun m way x y hmem => ?_, (ih ht).2⟩
      rcases List.mem_cons.mp hmem with heq | hmem
      · cases heq
        exact hm
      · exact (ih ht).1 m way x y hmem
  | other _ ih =>
      refine ⟨fun m way x y hmem => ?_, (ih hs).2⟩
      exact (ih hs).1 m way x y ((List.mem_cons.mp hmem).resolve_left nofun)
  | tick _ _ ih =>
      refine ⟨fun m way x y hmem => ?_, (ih (hs.elapse 1)).2⟩
      exact (ih (hs.elapse 1)).1 m way x y ((List.mem_cons.mp hmem).resolve_left nofun)

mutual

theorem only_marked (hm : P m) (a : Activity) : Only P (a.marked m) := by
  match a with
  | .done o => exact .done
  | .act f next => exact .act hm fun w => only_marked hm (next w)
  | .sleep ms next => exact .sleep hm fun w => only_marked hm (next w)
  | .never => exact .never hm
  | .within left body next => exact .within hm (only_marked hm body) fun o => only_marked hm (next o)
  | .fork tally slots next =>
      exact .fork hm (only_markedSlots hm slots) fun r => only_marked hm (next r)

theorem only_markedSlots (hm : P m) (slots : List (Slot Activity)) :
    ∀ slot ∈ Activity.markedSlots m slots, ∀ s, slot.body? = some s → Only P s := by
  match slots with
  | [] => nofun
  | .fresh body :: rest | .queued body :: rest | .running body :: rest =>
      intro slot hmem s hs
      rcases List.mem_cons.mp hmem with rfl | hmem
      · cases hs
        exact only_marked hm body
      · exact only_markedSlots hm rest slot hmem s hs
  | .ended o :: rest =>
      intro slot hmem s hs
      rcases List.mem_cons.mp hmem with rfl | hmem
      · cases hs
      · exact only_markedSlots hm rest slot hmem s hs

end

end Marked

end Runsheet
