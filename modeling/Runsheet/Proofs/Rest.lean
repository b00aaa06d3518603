import Runsheet.Flow.Activity
import Runsheet.Proofs.Tallies

/-!
# Rest

Where activities stand, and what time does to them.  An activity is settled if no part of it goes on
before time passes: its sleeps and limits have time left, and its splits wait for branches that run.  It
stands still if no part goes on at all, which is so too where a part goes on for ever without waiting.

* `settled_of_still` — what stands still and has no such part is settled;
* `Settled.atRest` — what is settled waits with its own hands;
* `Settled.elapse` — a settled activity stays settled until its `wake?` has come.
-/

namespace Runsheet

/-- A branch has asked for its permit, and rests if it has one. -/
def Slot.Calm {α : Type} (rests : α → Prop) : Slot α → Prop
  | .fresh _ => False
  | .queued _ | .ended _ => True
  | .running body => rests body

/-- A branch after some time. -/
def Slot.elapse (ms : Nat) : Slot Activity → Slot Activity
  | .running body => .running (body.elapse ms)
  | s => s

namespace Activity

mutual

/-- No part of the activity goes on before time passes.  `spin` says whether this may be because a part
goes on for ever and never waits. -/
def Resting (spin : Prop) : Activity → Prop
  | .done _ | .act .. => False
  | .sleep ms _ => ms ≠ 0
  | .never => spin
  | .within left body _ => Resting spin body ∧ (left = 0 → ¬ AtRest body)
  | .fork tally slots _ =>
    RestingSlots spin slots ∧ tally.arrivals = [] ∧ tally.Served slots ∧
      ∃ s ∈ slots, s.isEnded = false

/-- No branch goes on before time passes. -/
def RestingSlots (spin : Prop) : List (Slot Activity) → Prop
  | [] => True
  | .fresh _ :: _ => False
  | .running body :: rest => Resting spin body ∧ RestingSlots spin rest
  | .queued _ :: rest | .ended _ :: rest => RestingSlots spin rest

end

/-- No part of the activity goes on before time passes. -/
abbrev Settled : Activity → Prop :=
  Resting False

/-- No part of the activity goes on. -/
abbrev Still : Activity → Prop :=
  Resting True

/-- The activity has ended or stands still. -/
def Rests (a : Activity) : Prop :=
  (∃ o, a = .done o) ∨ Still a

variable {spin : Prop} {a body : Activity} {slots l r : List (Slot Activity)} {i : Nat}

theorem not_resting_done {o : Outcome} : ¬ Resting spin (.done o) := by
  simp [Resting]

/-- Branches rest together exactly if each one does. -/
theorem restingSlots_iff : RestingSlots spin slots ↔ ∀ s ∈ slots, s.Calm (Resting spin) := by
  induction slots with
  | nil => simp [RestingSlots]
  | cons s rest ih => cases s <;> simp [RestingSlots, Slot.Calm, ih]

theorem restingSlots_append :
    RestingSlots spin (l ++ r) ↔ RestingSlots spin l ∧ RestingSlots spin r := by
  simp only [restingSlots_iff, List.mem_append, or_imp, forall_and]

theorem RestingSlots.calm {s : Slot Activity} (hslots : RestingSlots spin slots)
    (hslot : slots[i]? = some s) : s.Calm (Resting spin) :=
  restingSlots_iff.mp hslots s (List.mem_of_getElem? hslot)

theorem RestingSlots.of_getElem? (hslots : RestingSlots spin slots)
    (hslot : slots[i]? = some (.running a)) : Resting spin a :=
  hslots.calm hslot

/-- What is settled waits with its own hands. -/
theorem Settled.atRest {a : Activity} (ha : Settled a) : AtRest a := by
  match a with
  | .done _ | .act .. | .never => exact ha.elim
  | .sleep ms next => exact ha
  | .within left body next =>
      have hbody : AtRest body := Settled.atRest ha.1
      exact ⟨fun hleft => ha.2 hleft hbody, hbody⟩
  | .fork tally slots next => exact ⟨ha.2.1, ha.2.2.2⟩

theorem settled_within {left : Nat} {next : Option Outcome → Activity} :
    Settled (.within left body next) ↔ left ≠ 0 ∧ Settled body := by
  refine ⟨fun ha => ⟨ha.atRest.1, ha.1⟩, fun ha => ⟨ha.2, fun hleft => (ha.1 hleft).elim⟩⟩

mutual

/-- What is settled stands still. -/
theorem Settled.still {a : Activity} (ha : Settled a) : Still a := by
  match a with
  | .done _ | .act .. | .never => exact ha.elim
  | .sleep ms next => exact ha
  | .within left body next => exact ⟨Settled.still ha.1, ha.2⟩
  | .fork tally slots next => exact ⟨SettledSlots.still ha.1, ha.2⟩

theorem SettledSlots.still {slots : List (Slot Activity)} (hslots : RestingSlots False slots) :
    RestingSlots True slots := by
  match slots with
  | [] => trivial
  | .fresh body :: rest => exact hslots
  | .queued body :: rest =>
      have hrest : RestingSlots False rest := hslots
      have ih := SettledSlots.still hrest
      exact ih
  | .ended o :: rest =>
      have hrest : RestingSlots False rest := hslots
      have ih := SettledSlots.still hrest
      exact ih
  | .running body :: rest => exact ⟨Settled.still hslots.1, SettledSlots.still hslots.2⟩

end

mutual

/-- What stands still waits for time to pass, unless a part goes on for ever without waiting. -/
theorem settled_of_still {a : Activity} (ha : Still a) (hspins : spins a = false) : Settled a := by
  match a with
  | .done _ | .act .. => exact ha.elim
  | .sleep ms next => exact ha
  | .never => cases hspins
  | .within left body next => exact ⟨settled_of_still ha.1 hspins, ha.2⟩
  | .fork tally slots next => exact ⟨settledSlots_of_still ha.1 hspins, ha.2⟩

theorem settledSlots_of_still {slots : List (Slot Activity)} (hslots : RestingSlots True slots)
    (hspins : spinsSlots slots = false) : RestingSlots False slots := by
  match slots with
  | [] => trivial
  | .fresh body :: rest => exact hslots
  | .queued body :: rest =>
      have hrest : RestingSlots True rest := hslots
      have ih := settledSlots_of_still hrest hspins
      exact ih
  | .ended o :: rest =>
      have hrest : RestingSlots True rest := hslots
      have ih := settledSlots_of_still hrest hspins
      exact ih
  | .running body :: rest =>
      rw [spinsSlots, Bool.or_eq_false_iff] at hspins
      exact ⟨settled_of_still hslots.1 hspins.1, settledSlots_of_still hslots.2 hspins.2⟩

end

mutual

/-- No part of what is settled goes on without waiting. -/
theorem Settled.not_spins {a : Activity} (ha : Settled a) : spins a = false := by
  match a with
  | .done _ | .act .. | .never => exact ha.elim
  | .sleep ms next => rfl
  | .within left body next =>
      have ih := Settled.not_spins ha.1
      exact ih
  | .fork tally slots next =>
      have ih := SettledSlots.not_spins ha.1
      exact ih

theorem SettledSlots.not_spins {slots : List (Slot Activity)} (hslots : RestingSlots False slots) :
    spinsSlots slots = false := by
  match slots with
  | [] => rfl
  | .fresh body :: rest => exact hslots.elim
  | .queued body :: rest =>
      have hrest : RestingSlots False rest := hslots
      have ih := SettledSlots.not_spins hrest
      exact ih
  | .ended o :: rest =>
      have hrest : RestingSlots False rest := hslots
      have ih := SettledSlots.not_spins hrest
      exact ih
  | .running body :: rest =>
      rw [spinsSlots, Settled.not_spins hslots.1, SettledSlots.not_spins hslots.2]
      rfl

end

/-! ### What time does -/

theorem elapseSlots_eq_map (ms : Nat) (slots : List (Slot Activity)) :
    elapseSlots ms slots = slots.map (Slot.elapse ms) := by
  induction slots with
  | nil => rfl
  | cons s rest ih => cases s <;> simp [elapseSlots, Slot.elapse, ih]

theorem isEnded_elapse (ms : Nat) (s : Slot Activity) : (s.elapse ms).isEnded = s.isEnded := by
  cases s <;> rfl

theorem elapse_eq_queued {ms : Nat} :
    (elapseSlots ms slots)[i]? = some (.queued body) ↔ slots[i]? = some (.queued body) := by
  rw [elapseSlots_eq_map, List.getElem?_map]
  cases slots[i]? with
  | none => simp
  | some s => cases s <;> simp [Slot.elapse]

theorem elapse_eq_ended {ms : Nat} {o : Outcome} :
    (elapseSlots ms slots)[i]? = some (.ended o) ↔ slots[i]? = some (.ended o) := by
  rw [elapseSlots_eq_map, List.getElem?_map]
  cases slots[i]? with
  | none => simp
  | some s => cases s <;> simp [Slot.elapse]

/-- Time serves no one who waits for a permit. -/
theorem served_elapse {tally : Tally} (ms : Nat) :
    tally.Served (elapseSlots ms slots) ↔ tally.Served slots := by
  simp only [Tally.Served, elapse_eq_queued]

theorem exists_not_ended_elapse (ms : Nat) :
    (∃ s ∈ elapseSlots ms slots, s.isEnded = false) ↔ ∃ s ∈ slots, s.isEnded = false := by
  rw [elapseSlots_eq_map]
  constructor
  · rintro ⟨_, hmem, hwaits⟩
    obtain ⟨s, hs, rfl⟩ := List.mem_map.mp hmem
    exact ⟨s, hs, (isEnded_elapse ms s).symm.trans hwaits⟩
  · rintro ⟨s, hs, hwaits⟩
    exact ⟨s.elapse ms, List.mem_map_of_mem hs, (isEnded_elapse ms s).trans hwaits⟩

mutual

theorem elapse_elapse (m n : Nat) (a : Activity) : elapse n (elapse m a) = elapse (m + n) a := by
  match a with
  | .done _ | .act .. | .never => rfl
  | .sleep ms next => simp [elapse, Nat.sub_sub]
  | .within left body next => simp [elapse, Nat.sub_sub, elapse_elapse m n body]
  | .fork tally slots next => simp [elapse, elapseSlots_elapseSlots m n slots]

theorem elapseSlots_elapseSlots (m n : Nat) (slots : List (Slot Activity)) :
    elapseSlots n (elapseSlots m slots) = elapseSlots (m + n) slots := by
  match slots with
  | [] => rfl
  | .fresh _ :: rest | .queued _ :: rest | .ended _ :: rest =>
      simp [elapseSlots, elapseSlots_elapseSlots m n rest]
  | .running body :: rest =>
      simp [elapseSlots, elapse_elapse m n body, elapseSlots_elapseSlots m n rest]

end

mutual

theorem elapse_zero (a : Activity) : elapse 0 a = a := by
  match a with
  | .done _ | .act .. | .never | .sleep .. => rfl
  | .within left body next => simp [elapse, elapse_zero body]
  | .fork tally slots next => simp [elapse, elapseSlots_zero slots]

theorem elapseSlots_zero (slots : List (Slot Activity)) : elapseSlots 0 slots = slots := by
  match slots with
  | [] => rfl
  | .fresh _ :: rest | .queued _ :: rest | .ended _ :: rest =>
      simp [elapseSlots, elapseSlots_zero rest]
  | .running body :: rest => simp [elapseSlots, elapse_zero body, elapseSlots_zero rest]

end

/-- The time has not come yet. -/
def Ahead (k : Nat) (time : Option Nat) : Prop :=
  ∀ ms, time = some ms → k < ms

theorem ahead_earlier {k : Nat} {s t : Option Nat} :
    Ahead k (earlier s t) ↔ Ahead k s ∧ Ahead k t := by
  cases s <;> cases t <;> simp only [Ahead, earlier, Option.some.injEq, forall_eq', Nat.lt_min] <;> simp

mutual

/-- A settled activity stays settled until the time has come at which it goes on. -/
theorem Settled.elapse {a : Activity} {k : Nat} (ha : Settled a) (hk : Ahead k (wake? a)) :
    Settled (a.elapse k) := by
  match a with
  | .done _ | .act .. | .never => exact ha.elim
  | .sleep ms next =>
      have hlt : k < ms := hk ms rfl
      show ms - k ≠ 0
      omega
  | .within left body next =>
      obtain ⟨hleft, hbody⟩ := ahead_earlier.mp hk
      have hlt : k < left := hleft left rfl
      exact settled_within.mpr ⟨by omega, Settled.elapse ha.1 hbody⟩
  | .fork tally slots next =>
      obtain ⟨hslots, harrivals, hserved, hwaits⟩ := ha
      exact ⟨SettledSlots.elapse hslots hk, harrivals, (served_elapse k).mpr hserved,
        (exists_not_ended_elapse k).mpr hwaits⟩

theorem SettledSlots.elapse {slots : List (Slot Activity)} {k : Nat}
    (hslots : RestingSlots False slots) (hk : Ahead k (wakeSlots? slots)) :
    RestingSlots False (elapseSlots k slots) := by
  match slots with
  | [] => trivial
  | .fresh body :: rest => exact hslots.elim
  | .queued body :: rest =>
      have hrest : RestingSlots False rest := hslots
      have ih := SettledSlots.elapse hrest hk
      exact ih
  | .ended o :: rest =>
      have hrest : RestingSlots False rest := hslots
      have ih := SettledSlots.elapse hrest hk
      exact ih
  | .running body :: rest =>
      obtain ⟨hbody, hrest⟩ := ahead_earlier.mp hk
      exact ⟨Settled.elapse hslots.1 hbody, SettledSlots.elapse hslots.2 hrest⟩

end

mutual

/-- A settled activity does not go on at once. -/
theorem Settled.ahead {a : Activity} (ha : Settled a) : Ahead 0 (wake? a) := by
  match a with
  | .done _ | .act .. | .never => exact ha.elim
  | .sleep ms next =>
      rintro _ ⟨rfl⟩
      exact Nat.pos_of_ne_zero ha
  | .within left body next =>
      refine ahead_earlier.mpr ⟨?_, Settled.ahead ha.1⟩
      rintro _ ⟨rfl⟩
      exact Nat.pos_of_ne_zero (settled_within.mp ha).1
  | .fork tally slots next => exact SettledSlots.ahead ha.1

theorem SettledSlots.ahead {slots : List (Slot Activity)} (hslots : RestingSlots False slots) :
    Ahead 0 (wakeSlots? slots) := by
  match slots with
  | [] => exact nofun
  | .fresh body :: rest => exact hslots.elim
  | .queued body :: rest =>
      have hrest : RestingSlots False rest := hslots
      have ih := SettledSlots.ahead hrest
      exact ih
  | .ended o :: rest =>
      have hrest : RestingSlots False rest := hslots
      have ih := SettledSlots.ahead hrest
      exact ih
  | .running body :: rest =>
      exact ahead_earlier.mpr ⟨Settled.ahead hslots.1, SettledSlots.ahead hslots.2⟩

end

end Activity

end Runsheet
