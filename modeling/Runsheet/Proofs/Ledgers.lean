import Runsheet.Proofs.Occupancy
import Runsheet.Proofs.Tenures

/-!
# Ledgers

The `Ledger` of a split says when each branch got its permit and for how long it has held it.  Permits are
handed out in the order in which branches have asked, whatever that is, and while a branch waits, all of
them are held.  Every turn keeps the ledger, so that it is the `Roster` of the batch when the batch ends.

* `Ledger.turn`, `Ledger.tick` — what a turn of a branch and a millisecond do to the ledger;
* `Lasting.booked` — a split keeps its ledger for as long as no branch is refused, and after that no time
  passes any more;
* `Lasting.asked_first` — in the order of the schedule, branches ask in the order of their numbers.
-/

namespace Runsheet

namespace Activity

variable {ordered : Prop} {way : Way} {a b : Activity} {w v u : World} {h g : List Turn}
variable {pool : Pool} {i : Nat} {s s' : Slot Activity} {step : Turn}

/-! ### The ledger of a split -/

/-- **The ledger of a split** after a history: every permit is free or held, permits are handed out in
the order in which branches have asked, each branch that has got one has its tenure, and when they got
them is a roster.  While branches wait, all permits were held at every moment so far.  The branches of
the ledger stand in the order in which they got their permits. -/
structure Ledger (ordered : Prop) (branches : List Activity) (total : Nat) (order : List Nat)
    (start time : Nat → Nat) (h : List Turn) (t : Tally) (slots : List (Slot Activity)) (u : World) :
    Prop where
  permits : t.free + Tally.held slots = total
  somePermit : 0 < total
  tracks : t.Tracks slots
  count : slots.length = branches.length
  inLine : order ++ t.line = asked t.pool h
  begun {k i : Nat} : order[k]? = some i → ∃ a s, branches[i]? = some a ∧ slots[i]? = some s ∧
    Tenure ordered t.pool i a (start k) (time k) h s u
  waiting {i : Nat} {s : Slot Activity} : slots[i]? = some s → i ∉ order →
    ∃ a, branches[i]? = some a ∧ s.body? = some a ∧ s.holds = false ∧ Patient t.pool i h
  roster : Roster total order.length (ticks h) start time
  crowded : order.length < branches.length →
    ∀ m < ticks h, busy start time order.length m = total

section

variable {start time : Nat → Nat} {total : Nat} {order : List Nat} {branches : List Activity}
variable {t t' : Tally} {slots slots' : List (Slot Activity)} {next : Reading → Activity}

theorem patient_append : Patient pool i (h ++ g) ↔ Patient pool i h ∧ Patient pool i g := by
  constructor
  · intro hall
    exact ⟨fun way w v hmem => hall way w v (List.mem_append_left _ hmem),
      fun way w v hmem => hall way w v (List.mem_append_right _ hmem)⟩
  · intro hboth way w v hmem
    rcases List.mem_append.mp hmem with hmem | hmem
    · exact hboth.1 way w v hmem
    · exact hboth.2 way w v hmem

theorem Quiet.patient (hquiet : Quiet pool i h) : Patient pool i h :=
  fun way w v hmem => (hquiet way w v hmem).elim

namespace Ledger

/-- Before any branch asks, no time has passed. -/
theorem opening {total : Nat} (hpermits : 0 < total) (hunsplit : Unsplit h) (hticks : ticks h = 0) :
    Ledger ordered branches total [] start time h (.opening pool total branches.length)
      (branches.map .fresh) u where
  permits := by
    have hheld : Tally.held (branches.map .fresh : List (Slot Activity)) = 0 := by
      simp [Tally.held, Slot.holds]
    rw [hheld]
    rfl
  somePermit := hpermits
  tracks := Tally.tracks_opening ..
  count := List.length_map ..
  inLine := by
    have hnobody : asked pool h = [] := asked_unsplit (h := []) hunsplit
    exact hnobody.symm
  begun hk := by simp at hk
  waiting hslot _ := by
    rw [List.getElem?_map, Option.map_eq_some_iff] at hslot
    obtain ⟨a, ha, rfl⟩ := hslot
    exact ⟨a, ha, rfl, rfl, Quiet.patient (hunsplit.quiet pool _)⟩
  roster := by
    rw [hticks]
    exact .empty
  crowded _ m hm := by omega

/-- The branches of the ledger are different ones. -/
theorem nodup (hledger : Ledger ordered branches total order start time h t slots u) : order.Nodup := by
  have hasked : (asked t.pool h).Nodup := nodup_asked
  rw [← hledger.inLine] at hasked
  exact (List.nodup_append.mp hasked).1

/-- A branch that waits for its permit is not among those of the ledger. -/
theorem not_begun (hledger : Ledger ordered branches total order start time h t slots u)
    (hslot : slots[i]? = some s) (hbody : s.body? = some b) (hwaits : s.holds = false) : i ∉ order := by
  intro hmem
  obtain ⟨k, hk⟩ := List.mem_iff_getElem?.mp hmem
  obtain ⟨a, s', _, hs', htenure⟩ := hledger.begun hk
  rw [hslot] at hs'
  cases hs'
  rw [htenure.not_waiting hbody] at hwaits
  cases hwaits

/-- A branch that has its permit is among those of the ledger. -/
theorem begun_of_running (hledger : Ledger ordered branches total order start time h t slots u)
    (hslot : slots[i]? = some (.running b)) : i ∈ order := by
  by_contra hnot
  obtain ⟨_, _, _, hholds, _⟩ := hledger.waiting hslot hnot
  cases hholds

/-- There is a place of the ledger for every branch. -/
theorem lt_length (hledger : Ledger ordered branches total order start time h t slots u)
    (hmem : i ∈ order) : i < branches.length := by
  obtain ⟨k, hk⟩ := List.mem_iff_getElem?.mp hmem
  obtain ⟨a, _, ha, _⟩ := hledger.begun hk
  exact (List.getElem?_eq_some_iff.mp ha).1

/-- While a branch waits, the ledger does not have all branches. -/
theorem length_lt (hledger : Ledger ordered branches total order start time h t slots u)
    (hlt : i < branches.length) (hnot : i ∉ order) : order.length < branches.length := by
  have hnodup : (i :: order).Nodup := List.nodup_cons.mpr ⟨hnot, hledger.nodup⟩
  have hsub : i :: order ⊆ List.range branches.length := by
    intro j hj
    rw [List.mem_range]
    rcases List.mem_cons.mp hj with rfl | hj
    · exact hlt
    · exact hledger.lt_length hj
  have hle := (List.subperm_of_subset hnodup hsub).length_le
  rw [List.length_cons, List.length_range] at hle
  omega

/-- The permits that are held are those of branches of the ledger. -/
theorem held_eq (hledger : Ledger ordered branches total order start time h t slots u) :
    Tally.held slots = Nat.count (fun k => holdsAt order slots k = true) order.length :=
  held_eq_count hledger.nodup fun _ _ hslot => hledger.begun_of_running hslot

/-- Nobody has a turn but others, or those that have ended are read. -/
theorem stays (hledger : Ledger ordered branches total order start time h t slots u)
    (hpool : t'.pool = t.pool) (hfree : t'.free = t.free) (hline : t'.line = t.line)
    (htracks : t'.Tracks slots) (hseen : ∀ i, step.seenBy t.pool i = .other u v)
    (hunsplit : Unsplit [step]) (hticks : ticks [step] = 0) :
    Ledger ordered branches total order start time (h ++ [step]) t' slots v := by
  have hsame : ticks (h ++ [step]) = ticks h := by rw [ticks_append, hticks, Nat.add_zero]
  constructor
  case permits =>
    rw [hfree]
    exact hledger.permits
  case somePermit => exact hledger.somePermit
  case tracks => exact htracks
  case count => exact hledger.count
  case inLine =>
    rw [hline, hpool, asked_unsplit hunsplit]
    exact hledger.inLine
  case begun =>
    intro k i hk
    obtain ⟨a, s, ha, hs, htenure⟩ := hledger.begun hk
    rw [hpool]
    exact ⟨a, s, ha, hs, htenure.stays (hseen i)⟩
  case waiting =>
    intro i s hslot hnot
    obtain ⟨a, ha, hbody, hholds, hpatient⟩ := hledger.waiting hslot hnot
    rw [hpool]
    exact ⟨a, ha, hbody, hholds,
      patient_append.mpr ⟨hpatient, (quiet_of_seenBy (hseen i)).patient⟩⟩
  case roster =>
    rw [hsame]
    exact hledger.roster
  case crowded =>
    rw [hsame]
    exact hledger.crowded

/-- A branch has a turn in which it does not get its permit. -/
theorem set (hledger : Ledger ordered branches total order start time h t slots u)
    (hslot : slots[i]? = some s) (hmove : BranchMove ordered i way t s u t' s' v)
    (hline : order ++ t'.line = asked t.pool (h ++ [.own ((t.pool, i) :: way) u v]))
    (hbegun : i ∈ order → ∀ a first last,
      Tenure ordered t.pool i a first last h s u →
        Tenure ordered t.pool i a first last (h ++ [.own ((t.pool, i) :: way) u v]) s' v)
    (hwaits : i ∉ order → s'.body? = s.body? ∧ s'.holds = false ∧ way = [] ∧ v = u) :
    Ledger ordered branches total order start time (h ++ [.own ((t.pool, i) :: way) u v]) t'
      (slots.set i s') v := by
  have hlt : i < slots.length := (List.getElem?_eq_some_iff.mp hslot).1
  have hself : (slots.set i s')[i]? = some s' := by simp [hlt]
  have hother {j : Nat} (hj : j ≠ i) : (slots.set i s')[j]? = slots[j]? :=
    List.getElem?_set_ne (Ne.symm hj)
  have hseen {j : Nat} (hj : j ≠ i) :
      (Turn.own ((t.pool, i) :: way) u v).seenBy t.pool j = .other u v := by
    simp [Turn.seenBy, Ne.symm hj]
  have hsame : ticks (h ++ [.own ((t.pool, i) :: way) u v]) = ticks h := by simp
  constructor
  case permits =>
    rw [hmove.permits hslot]
    exact hledger.permits
  case somePermit => exact hledger.somePermit
  case tracks => exact hmove.tracks hledger.tracks hslot
  case count => exact List.length_set.trans hledger.count
  case inLine =>
    rw [hmove.pool]
    exact hline
  case begun =>
    intro k j hk
    obtain ⟨a, s₁, ha, hs₁, htenure⟩ := hledger.begun hk
    rw [hmove.pool]
    by_cases hj : j = i
    · subst hj
      rw [hslot] at hs₁
      cases hs₁
      exact ⟨a, s', ha, hself, hbegun (List.mem_of_getElem? hk) _ _ _ htenure⟩
    · exact ⟨a, s₁, ha, (hother hj).trans hs₁, htenure.stays (hseen hj)⟩
  case waiting =>
    intro j s₁ hs₁ hnot
    rw [hmove.pool]
    by_cases hj : j = i
    · subst hj
      rw [hself] at hs₁
      cases hs₁
      obtain ⟨a, ha, hbody, _, hpatient⟩ := hledger.waiting hslot hnot
      obtain ⟨hbody', hholds', rfl, rfl⟩ := hwaits hnot
      refine ⟨a, ha, hbody'.trans hbody, hholds', patient_append.mpr ⟨hpatient, ?_⟩⟩
      exact patient_cons.mpr ⟨by rintro way x y ⟨⟩; exact ⟨rfl, rfl⟩, patient_nil⟩
    · rw [hother hj] at hs₁
      obtain ⟨a, ha, hbody, hholds, hpatient⟩ := hledger.waiting hs₁ hnot
      exact ⟨a, ha, hbody, hholds,
        patient_append.mpr ⟨hpatient, (quiet_of_seenBy (hseen hj)).patient⟩⟩
  case roster =>
    rw [hsame]
    exact hledger.roster
  case crowded =>
    rw [hsame]
    exact hledger.crowded

/-- A branch gets its permit. -/
theorem start_next (hledger : Ledger ordered branches total order start time h t slots u)
    (hslot : slots[i]? = some s) (hbody : s.body? = some a) (hwaits : s.holds = false)
    (hdealt : t.Dealt (u.isClosed t.pool) i s t' (.running a))
    (hline : order ++ [i] ++ t'.line = asked t.pool (h ++ [.own [(t.pool, i)] u u])) :
    Ledger ordered branches total (order ++ [i]) (Function.update start order.length (ticks h))
      (Function.update time order.length 0) (h ++ [.own [(t.pool, i)] u u]) t'
      (slots.set i (.running a)) u := by
  have hnot := hledger.not_begun hslot hbody hwaits
  have hlt : i < slots.length := (List.getElem?_eq_some_iff.mp hslot).1
  have hself : (slots.set i (.running a))[i]? = some (.running a) := by simp [hlt]
  have hother {j : Nat} (hj : j ≠ i) : (slots.set i (.running a))[j]? = slots[j]? :=
    List.getElem?_set_ne (Ne.symm hj)
  have hseen {j : Nat} (hj : j ≠ i) :
      (Turn.own [(t.pool, i)] u u).seenBy t.pool j = .other u u := by
    simp [Turn.seenBy, Ne.symm hj]
  have hticks : ticks (h ++ [.own [(t.pool, i)] u u]) = ticks h := by simp
  have hless := hledger.length_lt (hledger.count ▸ hlt) hnot
  have hroster := hledger.roster.next (hledger.crowded hless)
  constructor
  case permits =>
    rw [hdealt.permits hslot]
    exact hledger.permits
  case somePermit => exact hledger.somePermit
  case tracks => exact hledger.tracks.dealt hslot hdealt
  case count => exact List.length_set.trans hledger.count
  case inLine =>
    rw [hdealt.pool]
    exact hline
  case begun =>
    intro k j hk
    rw [hdealt.pool]
    by_cases hlast : k < order.length
    · rw [List.getElem?_append_left hlast] at hk
      obtain ⟨a', s₁, ha', hs₁, htenure⟩ := hledger.begun hk
      have hj : j ≠ i := fun heq => hnot (heq ▸ List.mem_of_getElem? hk)
      rw [Function.update_of_ne (by omega), Function.update_of_ne (by omega)]
      exact ⟨a', s₁, ha', (hother hj).trans hs₁, htenure.stays (hseen hj)⟩
    · rw [List.getElem?_append_right (by omega)] at hk
      obtain ⟨hzero, rfl⟩ : k - order.length = 0 ∧ j = i := by
        simpa [List.getElem?_singleton, eq_comm] using hk
      obtain rfl : k = order.length := by omega
      obtain ⟨a', ha', hbody', _, hpatient⟩ := hledger.waiting hslot hnot
      rw [hbody] at hbody'
      cases hbody'
      rw [Function.update_self, Function.update_self]
      exact ⟨a, _, ha', hself, .begin hpatient⟩
  case waiting =>
    intro j s₁ hs₁ hnot'
    rw [List.mem_append, List.mem_singleton, not_or] at hnot'
    rw [hother hnot'.2] at hs₁
    obtain ⟨a', ha', hbody', hholds, hpatient⟩ := hledger.waiting hs₁ hnot'.1
    rw [hdealt.pool]
    exact ⟨a', ha', hbody', hholds,
      patient_append.mpr ⟨hpatient, (quiet_of_seenBy (hseen hnot'.2)).patient⟩⟩
  case roster =>
    rw [hticks, List.length_append, List.length_singleton]
    exact hroster
  case crowded =>
    intro _ m hm
    rw [hticks] at hm
    have hfew := hroster.few m
    have hmono : busy (Function.update start order.length (ticks h))
        (Function.update time order.length 0) order.length m ≤
          busy (Function.update start order.length (ticks h))
            (Function.update time order.length 0) (order.length + 1) m := busy_mono (by omega)
    have hfull := hroster.full order.length (by omega) m (by rwa [Function.update_self])
    rw [List.length_append, List.length_singleton]
    omega

/-- **A turn of a branch** of a split with a ledger: the split has a ledger after it, or the branch has been
refused. -/
theorem turn (hledger : Ledger ordered branches total order start time h t slots u)
    (hslot : slots[i]? = some s) (hmove : BranchMove ordered i way t s u t' s' v) :
    (∃ order' start' time', Ledger ordered branches total order' start' time'
      (h ++ [.own ((t.pool, i) :: way) u v]) t' (slots.set i s') v) ∨
    s' = .ended (.error .poolShutdown) := by
  have hasked := hledger.inLine
  cases hmove with
  | works hmove =>
      have hmem := hledger.begun_of_running hslot
      refine .inl ⟨order, start, time, hledger.set hslot (.works hmove) ?_
        (fun _ _ _ _ htenure => htenure.works hmove) fun hnot => (hnot hmem).elim⟩
      rw [asked_own, if_pos (hasked ▸ List.mem_append_left _ hmem)]
      exact hasked
  | finishes =>
      have hmem := hledger.begun_of_running hslot
      refine .inl ⟨order, start, time, hledger.set hslot .finishes ?_
        (fun _ _ _ _ htenure => htenure.finish) fun hnot => (hnot hmem).elim⟩
      rw [asked_own, if_pos (hasked ▸ List.mem_append_left _ hmem)]
      exact hasked
  | dealt hdealt =>
      have hfresh {body : Activity} (hs : slots[i]? = some (.fresh body)) : i ∉ asked t.pool h := by
        rw [← hasked, List.mem_append, not_or]
        refine ⟨hledger.not_begun hs rfl rfl, fun hmem => ?_⟩
        obtain ⟨body', hqueued⟩ := hledger.tracks.line.mp hmem
        rw [hs] at hqueued
        cases hqueued
      cases hdealt with
      | admitted hopen hline hfree =>
          refine .inl ⟨_, _, _, hledger.start_next hslot rfl rfl (.admitted hopen hline hfree) ?_⟩
          rw [asked_own, if_neg (hfresh hslot), ← hasked, hline]
          simp
      | served hopen hline hfree =>
          refine .inl ⟨_, _, _, hledger.start_next hslot rfl rfl (.served hopen hline hfree) ?_⟩
          rw [asked_own, if_pos (by rw [← hasked, hline]; simp), ← hasked, hline]
          simp
      | lined hopen hwait =>
          have hnot := hledger.not_begun hslot rfl rfl
          refine .inl ⟨order, start, time, hledger.set hslot (.dealt (.lined hopen hwait)) ?_
            (fun hmem => (hnot hmem).elim) fun _ => ⟨rfl, rfl, rfl, rfl⟩⟩
          rw [asked_own, if_neg (hfresh hslot), ← hasked]
          simp
      | barred | dropped => exact .inr rfl

/-- While a branch of a settled split waits, all permits are held. -/
theorem all_held (hledger : Ledger ordered branches total order start time h t slots u)
    (hsettled : Settled (.fork t slots next)) (hless : order.length < branches.length) :
    t.free = 0 := by
  obtain ⟨i, hi, hnot⟩ : ∃ i < branches.length, i ∉ order := by
    by_contra hall
    push Not at hall
    have hsub : List.range branches.length ⊆ order := fun i hi => hall i (List.mem_range.mp hi)
    have hle := (List.subperm_of_subset List.nodup_range hsub).length_le
    rw [List.length_range] at hle
    omega
  have hlt : i < slots.length := hledger.count ▸ hi
  have hslot : slots[i]? = some slots[i] := List.getElem?_eq_getElem hlt
  obtain ⟨a, _, hbody, hholds, _⟩ := hledger.waiting hslot hnot
  have hcalm := hsettled.1.calm hslot
  cases hs : slots[i] with
  | fresh b =>
      rw [hs] at hcalm
      exact hcalm.elim
  | running b =>
      rw [hs] at hholds
      cases hholds
  | ended o =>
      rw [hs] at hbody
      cases hbody
  | queued b =>
      rw [hs] at hslot
      exact hsettled.no_permit hledger.tracks hslot

/-- **A millisecond** that passes: the branches that hold a permit hold it on, and if others wait, all
permits are held. -/
theorem tick (hledger : Ledger ordered branches total order start time h t slots u)
    (hsettled : Settled (.fork t slots next)) :
    Ledger ordered branches total order start (Roster.later (holdsAt order slots) time) (h ++ [.tick]) t
      (elapseSlots 1 slots) (u.wait 1) := by
  obtain ⟨hslots, _, hserved, _⟩ := id hsettled
  have hlength : (elapseSlots 1 slots).length = slots.length := by simp [elapseSlots_eq_map]
  have hticks : ticks (h ++ [.tick]) = ticks h + 1 := by simp
  have hpermits := hledger.permits
  have hheld := hledger.held_eq
  have hnow : ∀ k < order.length, holdsAt order slots k = true → start k + time k = ticks h := by
    intro k _ hk
    obtain ⟨i, b, hi, hb⟩ := holdsAt_iff.mp hk
    obtain ⟨a, s, _, hs, htenure⟩ := hledger.begun hi
    rw [hb] at hs
    cases hs
    exact htenure.until_now
  have hsome : ∃ k < order.length, holdsAt order slots k = true := by
    have hpositive := hledger.somePermit
    obtain ⟨i, b, hb, _⟩ := hsettled.exists_running hledger.tracks (by omega)
    obtain ⟨k, hk⟩ := List.mem_iff_getElem?.mp (hledger.begun_of_running hb)
    exact ⟨k, (List.getElem?_eq_some_iff.mp hk).1, holdsAt_iff.mpr ⟨i, b, hk, hb⟩⟩
  have hroster := hledger.roster.tick hnow (by omega) hsome
  constructor
  case permits =>
    rw [held_elapse]
    exact hpermits
  case somePermit => exact hledger.somePermit
  case tracks => exact tracks_elapse hledger.tracks 1
  case count => exact hlength.trans hledger.count
  case inLine =>
    rw [asked_snoc]
    exact hledger.inLine
  case begun =>
    intro k i hk
    obtain ⟨a, s, ha, hs, htenure⟩ := hledger.begun hk
    refine ⟨a, s.elapse 1, ha, by rw [elapseSlots_eq_map]; simp [hs], ?_⟩
    unfold Roster.later
    cases s with
    | fresh b => cases htenure
    | queued b => cases htenure
    | running b =>
        rw [if_pos (holdsAt_iff.mpr ⟨i, b, hk, hs⟩)]
        exact htenure.tick (hslots.of_getElem? hs)
    | ended o =>
        have hnot : ¬ holdsAt order slots k = true := by
          rw [holdsAt_iff]
          rintro ⟨j, b, hj, hb⟩
          rw [hk] at hj
          cases hj
          rw [hs] at hb
          cases hb
        rw [if_neg hnot]
        exact htenure.rest quiet_tick
  case waiting =>
    intro i s hs hnot
    rw [elapseSlots_eq_map, List.getElem?_map, Option.map_eq_some_iff] at hs
    obtain ⟨s', hs', rfl⟩ := hs
    obtain ⟨a, ha, hbody, hholds, hpatient⟩ := hledger.waiting hs' hnot
    have hsame : s'.elapse 1 = s' := by
      cases s' with
      | running b => cases hholds
      | _ => rfl
    rw [hsame]
    exact ⟨a, ha, hbody, hholds, patient_append.mpr ⟨hpatient, quiet_tick.patient⟩⟩
  case roster =>
    rw [hticks]
    exact hroster
  case crowded =>
    intro hless m hm
    rw [hticks] at hm
    have hfree := hledger.all_held hsettled hless
    by_cases hbefore : m < ticks h
    · rw [Roster.busy_later hnow hbefore]
      exact hledger.crowded hless m hbefore
    · obtain rfl : m = ticks h := by omega
      rw [hledger.roster.busy_now hnow]
      omega

end Ledger

/-! ### How a split keeps its ledger -/

/-- The split has a ledger after the history. -/
def Booked (ordered : Prop) (branches : List Activity) (total : Nat) (h : List Turn) (t : Tally)
    (slots : List (Slot Activity)) (u : World) : Prop :=
  ∃ order start time, Ledger ordered branches total order start time h t slots u

/-- A branch of the split has been refused, and no time has passed since. -/
def Refused (ordered : Prop) (branches : List Activity) (total : Nat) (h : List Turn)
    (slots : List (Slot Activity)) : Prop :=
  ∃ h₁ h₂ t₁ slots₁ x, h = h₁ ++ h₂ ∧ Booked ordered branches total h₁ t₁ slots₁ x ∧ ticks h₂ = 0 ∧
    ¬ Faultless slots

theorem Refused.not_reports {rs : List Report}
    (hrefused : Refused ordered branches total h (rs.map fun r => .ended (.ok r))) : False := by
  obtain ⟨_, _, _, _, _, _, _, _, hfault⟩ := hrefused
  refine hfault fun i fault hslot => ?_
  rw [List.getElem?_map, Option.map_eq_some_iff] at hslot
  obtain ⟨r, _, heq⟩ := hslot
  cases heq

/-- **A split keeps its ledger** for as long as no branch is refused, and after that no time passes. -/
theorem Lasting.booked (hlast : Lasting ordered t slots w g t' slots' u)
    (hbooked : Booked ordered branches total h t slots w) :
    Booked ordered branches total (h ++ g) t' slots' u ∨
      Refused ordered branches total (h ++ g) slots' := by
  induction hlast generalizing h with
  | stop =>
      rw [List.append_nil]
      exact .inl hbooked
  | @turn i way t t₁ t₂ slots slots₂ s s' w v u g hturn hslot hmove hlast ih =>
      obtain ⟨order, start, time, hledger⟩ := id hbooked
      rcases hledger.turn hslot hmove with hnext | rfl
      · have hlater := ih hnext
        rwa [List.append_assoc, List.singleton_append] at hlater
      · have hlt : i < slots.length := (List.getElem?_eq_some_iff.mp hslot).1
        have harrived : .ok (i, .error .poolShutdown) ∈ t₁.arrivals := by
          rw [hmove.arrivals]
          exact List.mem_append_right _ (List.mem_singleton.mpr rfl)
        have hzero := hlast.ticks_of_fault harrived
        obtain ⟨s, hs, hcourse⟩ := hlast.course (i := i) (s := .ended (.error .poolShutdown))
          (by simp [hlt])
        obtain ⟨rfl, _⟩ := hcourse.over
        exact .inr ⟨h, _, t, slots, w, rfl, hbooked, hzero, fun hnone => hnone i _ hs⟩
  | @read t t₂ slots slots₂ arrival rest reports w u g hturn harrivals hverdict hlast ih =>
      obtain ⟨order, start, time, hledger⟩ := hbooked
      have hturn : Unsplit [.own [] w w] := unsplit_own.mpr idle_nil.unsplit
      have hnext : Ledger ordered branches total order start time (h ++ [.own [] w w])
          { t with arrivals := rest, reports := reports } slots w :=
        hledger.stays rfl rfl rfl (hledger.tracks.read harrivals hverdict) (fun _ => rfl) hturn rfl
      have hlater := ih ⟨order, start, time, hnext⟩
      rwa [List.append_assoc, List.singleton_append] at hlater
  | @other t t₂ slots slots₂ w v u g hlast ih =>
      obtain ⟨order, start, time, hledger⟩ := hbooked
      have hturn : Unsplit [.other w v] := fun way x y hmem => by
        cases List.mem_singleton.mp hmem
      have hnext : Ledger ordered branches total order start time (h ++ [.other w v]) t slots v :=
        hledger.stays rfl rfl rfl hledger.tracks (fun _ => rfl) hturn rfl
      have hlater := ih ⟨order, start, time, hnext⟩
      rwa [List.append_assoc, List.singleton_append] at hlater
  | tick hsettled hlast ih =>
      obtain ⟨order, start, time, hledger⟩ := hbooked
      have hlater := ih ⟨order, start, _, hledger.tick hsettled⟩
      rwa [List.append_assoc, List.singleton_append] at hlater

/-! ### The order in which branches ask -/

/-- The branches have asked for their permits in the order of their numbers. -/
def Submitted (pool : Pool) (h : List Turn) : Prop :=
  ∃ n, asked pool h = List.range n

/-- The branches that have asked are the first ones, and they have asked in their order. -/
structure AskedFirst (n : Nat) (h : List Turn) (t : Tally) (slots : List (Slot Activity)) : Prop where
  asked : asked t.pool h = List.range n
  fresh {i : Nat} {b : Activity} : slots[i]? = some (.fresh b) → n ≤ i
  past {i : Nat} {s : Slot Activity} : slots[i]? = some s → (∀ b, s ≠ .fresh b) → i < n

theorem BranchMove.not_fresh (hmove : BranchMove ordered i way t s w t' s' v) (b : Activity) :
    s' ≠ .fresh b := by
  cases hmove with
  | dealt hdealt =>
      cases hdealt with
      | admitted | lined | served | barred | dropped => exact nofun
  | works | finishes => exact nofun

/-- **In their turns the branches ask in the order of their numbers.** -/
theorem AskedFirst.turn {n : Nat} (hfirst : AskedFirst n h t slots) (hturn : InTurn t slots i)
    (hslot : slots[i]? = some s) (hmove : BranchMove ordered i way t s w t' s' v) :
    ∃ n', AskedFirst n' (h ++ [.own ((t.pool, i) :: way) w v]) t' (slots.set i s') := by
  have hlt : i < slots.length := (List.getElem?_eq_some_iff.mp hslot).1
  have hothers {j : Nat} {r : Slot Activity} (hr : (slots.set i s')[j]? = some r) (hj : j ≠ i) :
      slots[j]? = some r := by
    rwa [List.getElem?_set_ne (Ne.symm hj)] at hr
  have hown {r : Slot Activity} (hr : (slots.set i s')[i]? = some r) : r = s' := by
    simpa [hlt, eq_comm] using hr
  by_cases hi : i < n
  · -- The branch has asked before.
    refine ⟨n, ?_, fun {j b} hr => ?_, fun {j r} hr hnot => ?_⟩
    · rw [hmove.pool, asked_own, hfirst.asked, if_pos (List.mem_range.mpr hi)]
    · by_cases hj : j = i
      · subst hj
        exact (hmove.not_fresh b (hown hr).symm).elim
      · exact hfirst.fresh (hothers hr hj)
    · by_cases hj : j = i
      · subst hj
        exact hi
      · exact hfirst.past (hothers hr hj) hnot
  · -- It asks now, and all those before it have asked: it is the next one.
    have hbefore : ∀ j < i, j < n := by
      intro j hj
      have hslot' : slots[j]? = some slots[j] := List.getElem?_eq_getElem (by omega)
      refine hfirst.past hslot' fun b heq => ?_
      have hcalm : Slot.Calm Still slots[j] := by
        refine hturn.1.calm (i := j) ?_
        rw [List.getElem?_take, if_pos hj, hslot']
      rw [heq] at hcalm
      exact hcalm
    have hnext : i = n := by
      rcases Nat.lt_or_ge n i with hless | hge
      · exact (Nat.lt_irrefl n (hbefore n hless)).elim
      · omega
    subst hnext
    refine ⟨i + 1, ?_, fun {j b} hr => ?_, fun {j r} hr hnot => ?_⟩
    · rw [hmove.pool, asked_own, hfirst.asked, if_neg (by simp), List.range_succ]
    · by_cases hj : j = i
      · subst hj
        exact (hmove.not_fresh b (hown hr).symm).elim
      · have hle := hfirst.fresh (hothers hr hj)
        omega
    · by_cases hj : j = i
      · omega
      · have hlater := hfirst.past (hothers hr hj) hnot
        omega

theorem Lasting.asked_first {n : Nat} (hlast : Lasting True t slots w g t' slots' u)
    (hfirst : AskedFirst n h t slots) : ∃ n', AskedFirst n' (h ++ g) t' slots' := by
  induction hlast generalizing h n with
  | stop =>
      rw [List.append_nil]
      exact ⟨n, hfirst⟩
  | turn hturn hslot hmove _ ih =>
      obtain ⟨n', hnext⟩ := hfirst.turn (hturn trivial) hslot hmove
      have hlater := ih hnext
      rwa [List.append_assoc, List.singleton_append] at hlater
  | @read t _ slots _ arrival rest reports w _ _ _ _ _ _ ih =>
      have hnext : AskedFirst n (h ++ [.own [] w w]) { t with arrivals := rest, reports := reports }
          slots := ⟨asked_snoc.trans hfirst.asked, hfirst.fresh, hfirst.past⟩
      have hlater := ih hnext
      rwa [List.append_assoc, List.singleton_append] at hlater
  | @other t _ slots _ w v _ _ _ ih =>
      have hnext : AskedFirst n (h ++ [.other w v]) t slots :=
        ⟨asked_snoc.trans hfirst.asked, hfirst.fresh, hfirst.past⟩
      have hlater := ih hnext
      rwa [List.append_assoc, List.singleton_append] at hlater
  | @tick t _ slots _ _ w _ _ _ _ ih =>
      have hnext : AskedFirst n (h ++ [.tick]) t (elapseSlots 1 slots) := by
        refine ⟨asked_snoc.trans hfirst.asked, fun {i b} hslot => ?_, fun {i s} hslot hnot => ?_⟩
        · rw [elapseSlots_eq_map, List.getElem?_map, Option.map_eq_some_iff] at hslot
          obtain ⟨s, hs, heq⟩ := hslot
          cases s with
          | fresh b => exact hfirst.fresh hs
          | queued b | running b | ended o => cases heq
        · rw [elapseSlots_eq_map, List.getElem?_map, Option.map_eq_some_iff] at hslot
          obtain ⟨s, hs, rfl⟩ := hslot
          refine hfirst.past hs fun b heq => ?_
          subst heq
          exact hnot b rfl
      have hlater := ih hnext
      rwa [List.append_assoc, List.singleton_append] at hlater

end

end Activity

end Runsheet
