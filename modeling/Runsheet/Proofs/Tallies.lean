import Runsheet.Flow.Tally

/-!
# What a tally counts

The steps of a tally one by one.  A branch that asks for a permit or waits for one meets one of five
fates, and what has arrived is what branches ended with.

* `Tally.Dealt`, `Tally.dealt_iff` — the fates of a branch that asks or waits;
* `Tally.held`, `Tally.Dealt.permits`, `Tally.finish_permits` — no permit is ever lost;
* `Tally.Tracks` — what a tally knows of its branches, and that each step of it keeps this;
* `gatherFrom_eq_ok` — all reports are there, or the first one that is missing is a fault;
* `Ongoing` — a branch that has not ended.
-/

namespace Runsheet

variable {α β : Type}

namespace Slot

@[simp] theorem isEnded_eq_true {s : Slot α} : s.isEnded = true ↔ ∃ o, s = .ended o := by
  cases s <;> simp [isEnded]

@[simp] theorem isEnded_map (f : α → β) (s : Slot α) : (s.map f).isEnded = s.isEnded := by
  cases s <;> rfl

theorem map_eq_running {f : α → β} {s : Slot α} {b : β} :
    s.map f = .running b ↔ ∃ a, s = .running a ∧ f a = b := by
  cases s <;> simp [map]

theorem map_eq_queued {f : α → β} {s : Slot α} {b : β} :
    s.map f = .queued b ↔ ∃ a, s = .queued a ∧ f a = b := by
  cases s <;> simp [map]

/-- What a branch that has not ended is still to do. -/
def body? : Slot α → Option α
  | .fresh body | .queued body | .running body => some body
  | .ended _ => none

/-- Does the branch hold a permit? -/
def holds : Slot α → Bool
  | .running _ => true
  | _ => false

end Slot

namespace Tally

variable {closed : Bool} {i : Nat} {t t' : Tally} {s s' : Slot α} {slots : List (Slot α)}

/-- The one who stands first in the line has no permit to get. -/
def Served (t : Tally) (slots : List (Slot α)) : Prop :=
  ∀ i body, t.line.head? = some i → slots[i]? = some (.queued body) → t.free = 0

/-- **The fates of a branch** that asks for a permit or waits for one: it gets a permit at once, stands in
the line, gets the permit it has waited for, or is refused by a closed pool. -/
inductive Dealt (closed : Bool) (i : Nat) : Tally → Slot α → Tally → Slot α → Prop
  | admitted {t : Tally} {body : α} (hopen : closed = false) (hline : t.line = [])
      (hfree : t.free ≠ 0) :
      Dealt closed i t (.fresh body) { t with free := t.free - 1 } (.running body)
  | lined {t : Tally} {body : α} (hopen : closed = false) (hwait : t.line = [] → t.free = 0) :
      Dealt closed i t (.fresh body) { t with line := t.line ++ [i] } (.queued body)
  | served {t : Tally} {body : α} {rest : List Nat} (hopen : closed = false)
      (hline : t.line = i :: rest) (hfree : t.free ≠ 0) :
      Dealt closed i t (.queued body) { t with free := t.free - 1, line := rest } (.running body)
  | barred {t : Tally} {body : α} (hclosed : closed = true) :
      Dealt closed i t (.fresh body) (t.arrive i (.error .poolShutdown))
        (.ended (.error .poolShutdown))
  | dropped {t : Tally} {body : α} (hclosed : closed = true) :
      Dealt closed i t (.queued body)
        ({ t with line := t.line.erase i }.arrive i (.error .poolShutdown))
        (.ended (.error .poolShutdown))

theorem dealt_iff : t.deal closed i s = some (t', s') ↔ Dealt closed i t s t' s' := by
  constructor
  · intro h
    cases s with
    | fresh body =>
        rw [deal] at h
        split at h
        next hclosed =>
          cases h
          exact .barred hclosed
        next hopen =>
          rw [Bool.not_eq_true] at hopen
          split at h
          next hfree =>
            cases h
            exact .admitted hopen hfree.1 hfree.2
          next hwait =>
            cases h
            exact .lined hopen fun hline => Classical.byContradiction fun hfree => hwait ⟨hline, hfree⟩
    | queued body =>
        rw [deal] at h
        split at h
        next hclosed =>
          cases h
          exact .dropped hclosed
        next hopen =>
          rw [Bool.not_eq_true] at hopen
          split at h
          next hfree =>
            cases h
            obtain ⟨rest, hline⟩ := List.head?_eq_some_iff.mp hfree.1
            rw [hline, List.tail_cons]
            exact .served hopen hline hfree.2
          next => cases h
    | running body => cases h
    | ended o => cases h
  · intro h
    cases h with
    | admitted hopen hline hfree => simp [deal, hopen, hline, hfree]
    | lined hopen hwait =>
        have hnot : ¬ (t.line = [] ∧ t.free ≠ 0) := fun h => h.2 (hwait h.1)
        simp [deal, hopen, hnot]
    | served hopen hline hfree => simp [deal, hopen, hline, hfree]
    | barred hclosed => simp [deal, hclosed]
    | dropped hclosed => simp [deal, hclosed]

/-- What is dealt does not depend on what the branch is to do. -/
theorem deal_map (f : α → β) (s : Slot α) :
    t.deal closed i (s.map f) = (t.deal closed i s).map fun p => (p.1, p.2.map f) := by
  cases s with
  | fresh body =>
      simp only [Slot.map, deal]
      split
      · rfl
      · split <;> rfl
  | queued body =>
      simp only [Slot.map, deal]
      split
      · rfl
      · split <;> rfl
  | running body => rfl
  | ended o => rfl

theorem Dealt.pool (h : Dealt closed i t s t' s') : t'.pool = t.pool := by
  cases h <;> rfl

/-- Nothing is dealt to those that run or have ended. -/
theorem Dealt.waits (h : Dealt closed i t s t' s') :
    ∃ body, s = .fresh body ∨ s = .queued body := by
  cases h with
  | admitted | lined | barred => exact ⟨_, .inl rfl⟩
  | served | dropped => exact ⟨_, .inr rfl⟩

theorem Dealt.arrivals (h : Dealt closed i t s t' s') (harrivals : t.arrivals ≠ []) :
    t'.arrivals ≠ [] := by
  cases h with
  | admitted | lined | served => exact harrivals
  | barred | dropped => simp [arrive]

/-- What is dealt changes nothing in what the branch is to do. -/
theorem Dealt.body {body : α} (h : Dealt closed i t s t' s') (hbody : s'.body? = some body) :
    s.body? = some body := by
  cases h with
  | admitted | lined | served => exact hbody
  | barred | dropped => cases hbody

/-- What there is to be read of a branch in a turn of its. -/
def arrivalOf (i : Nat) : Slot α → List Arrival
  | .ended o => [.ok (i, o)]
  | _ => []

/-- What a branch brings when it is dealt with is read after all the rest. -/
theorem Dealt.arrivals_eq (h : Dealt closed i t s t' s') :
    t'.arrivals = t.arrivals ++ arrivalOf i s' := by
  cases h with
  | admitted | lined | served => exact (List.append_nil _).symm
  | barred | dropped => rfl

/-- Who has ended when he asked for a permit or waited for one was refused. -/
theorem Dealt.refused {o : Outcome} (h : Dealt closed i t s t' (.ended o)) :
    closed = true ∧ o = .error .poolShutdown := by
  cases h with
  | barred hclosed | dropped hclosed => exact ⟨hclosed, rfl⟩

/-- A branch that asks gets an answer. -/
theorem deal_fresh {body : α} : t.deal closed i (.fresh body) ≠ none := by
  rw [deal]
  split
  · exact Option.some_ne_none _
  · split
    · exact Option.some_ne_none _
    · exact Option.some_ne_none _

/-! ### Permits -/

/-- The permits that branches hold. -/
def held (slots : List (Slot α)) : Nat :=
  slots.countP Slot.holds

theorem held_set {s : Slot α} (hslot : slots[i]? = some s) (s' : Slot α) :
    held (slots.set i s') + (if s.holds then 1 else 0) =
      held slots + if s'.holds then 1 else 0 := by
  obtain ⟨hlt, hget⟩ := List.getElem?_eq_some_iff.mp hslot
  unfold held
  rw [List.countP_set hlt, hget]
  have hpos : s.holds = true → 0 < slots.countP Slot.holds := fun hholds =>
    List.countP_pos_iff.mpr ⟨s, List.mem_of_getElem? hslot, hholds⟩
  cases hs : s.holds with
  | false => simp
  | true =>
      have hpos := hpos hs
      simp only [if_true]
      omega

/-- **No permit is lost** when one is dealt. -/
theorem Dealt.permits (h : Dealt closed i t s t' s') (hslot : slots[i]? = some s) :
    t'.free + held (slots.set i s') = t.free + held slots := by
  have hheld := held_set hslot s'
  cases h with
  | admitted _ _ hfree | served _ _ hfree =>
      simp only [Slot.holds, if_true, Bool.false_eq_true, if_false] at hheld ⊢
      omega
  | lined | barred | dropped =>
      simp only [Slot.holds, Bool.false_eq_true, if_false, arrive] at hheld ⊢
      omega

/-- **No permit is lost** when a branch gives its permit back. -/
theorem finish_permits {o : Outcome} {body : α} (hslot : slots[i]? = some (.running body)) :
    (t.finish i o).free + held (slots.set i (.ended o)) = t.free + held slots := by
  have hheld := held_set hslot (.ended o)
  simp only [Slot.holds, if_true, Bool.false_eq_true, if_false, finish] at hheld ⊢
  omega

theorem held_set_running {body body' : α} (hslot : slots[i]? = some (.running body)) :
    held (slots.set i (.running body')) = held slots := by
  have hheld := held_set hslot (.running body')
  simp only [Slot.holds, if_true] at hheld
  omega

/-- Where a permit is held, a branch runs. -/
theorem exists_running (hheld : 0 < held slots) : ∃ (i : Nat) (body : α), slots[i]? = some (.running body) := by
  obtain ⟨s, hs, hholds⟩ := List.countP_pos_iff.mp hheld
  cases s with
  | running body =>
      obtain ⟨i, hi⟩ := List.mem_iff_getElem?.mp hs
      exact ⟨i, body, hi⟩
  | fresh | queued | ended => cases hholds

/-! ### A tally and its branches -/

/-- **A tally that is right about its branches**: each place has a report at most, and it is the one with
which the branch has ended; whoever has ended is to be read or has a report; and the line holds those
that wait, each once. -/
structure Tracks (t : Tally) (slots : List (Slot α)) : Prop where
  length : t.reports.length = slots.length
  noted {i : Nat} {r : Report} : t.reports[i]? = some (some r) → slots[i]? = some (.ended (.ok r))
  arrived {arrival : Arrival} : arrival ∈ t.arrivals →
    ∃ i o, arrival = .ok (i, o) ∧ slots[i]? = some (.ended o)
  ended {i : Nat} {o : Outcome} : slots[i]? = some (.ended o) →
    .ok (i, o) ∈ t.arrivals ∨ ∃ r, o = .ok r ∧ t.reports[i]? = some (some r)
  line {i : Nat} : i ∈ t.line ↔ ∃ body, slots[i]? = some (.queued body)
  nodup : t.line.Nodup

theorem tracks_opening (pool : Pool) (permits : Nat) (bodies : List α) :
    (opening pool permits bodies.length).Tracks (bodies.map .fresh) := by
  have hfresh {i : Nat} {s : Slot α} (hslot : (bodies.map Slot.fresh)[i]? = some s) :
      ∃ body, s = .fresh body := by
    rw [List.getElem?_map, Option.map_eq_some_iff] at hslot
    obtain ⟨body, _, rfl⟩ := hslot
    exact ⟨body, rfl⟩
  refine ⟨by simp [opening], fun hnoted => ?_, nofun, fun hslot => ?_, fun {i} => ⟨nofun, ?_⟩,
    List.nodup_nil⟩
  · have hnone := List.mem_of_getElem? hnoted
    simp [opening] at hnone
  · obtain ⟨body, heq⟩ := hfresh hslot
    cases heq
  · rintro ⟨body, hslot⟩
    obtain ⟨body', heq⟩ := hfresh hslot
    cases heq

/-- A tally stays right when it says what becomes of a branch in a turn of its. -/
theorem Tracks.set (htracks : t.Tracks slots) (hslot : slots[i]? = some s) (hs : s.isEnded = false)
    (hreports : t'.reports = t.reports) (harrivals : t'.arrivals = t.arrivals ++ arrivalOf i s')
    (hsame : ∀ j ≠ i, j ∈ t'.line ↔ j ∈ t.line) (hown : i ∈ t'.line ↔ ∃ body, s' = .queued body)
    (hnodup : t'.line.Nodup) : t'.Tracks (slots.set i s') := by
  have hlt : i < slots.length := (List.getElem?_eq_some_iff.mp hslot).1
  have hself : (slots.set i s')[i]? = some s' := by simp [hlt]
  have hother {j : Nat} (hj : j ≠ i) : (slots.set i s')[j]? = slots[j]? :=
    List.getElem?_set_ne (Ne.symm hj)
  have hwas {j : Nat} {o : Outcome} (hended : slots[j]? = some (.ended o)) : j ≠ i := by
    rintro rfl
    rw [hslot] at hended
    cases hended
    cases hs
  refine ⟨by rw [hreports, htracks.length, List.length_set], fun {j r} hnoted => ?_,
    fun {arrival} hmem => ?_, fun {j o} hended => ?_, fun {j} => ?_, hnodup⟩
  · rw [hreports] at hnoted
    have hended := htracks.noted hnoted
    rw [hother (hwas hended)]
    exact hended
  · rw [harrivals, List.mem_append] at hmem
    rcases hmem with hmem | hmem
    · obtain ⟨j, o, rfl, hended⟩ := htracks.arrived hmem
      exact ⟨j, o, rfl, by rw [hother (hwas hended)]; exact hended⟩
    · cases s' with
      | ended o =>
          obtain rfl := List.mem_singleton.mp hmem
          exact ⟨i, o, rfl, hself⟩
      | fresh | queued | running => cases hmem
  · rw [harrivals, hreports]
    by_cases hj : j = i
    · subst hj
      rw [hself] at hended
      cases hended
      exact .inl (List.mem_append_right _ (List.mem_singleton.mpr rfl))
    · rw [hother hj] at hended
      rcases htracks.ended hended with hmem | hnoted
      · exact .inl (List.mem_append_left _ hmem)
      · exact .inr hnoted
  · by_cases hj : j = i
    · subst hj
      rw [hself, hown]
      simp
    · rw [hother hj, hsame j hj]
      exact htracks.line

/-- A tally stays right when it deals. -/
theorem Tracks.dealt (htracks : t.Tracks slots) (hslot : slots[i]? = some s)
    (hdealt : t.Dealt closed i s t' s') : t'.Tracks (slots.set i s') := by
  have hfresh {body : α} (hs : slots[i]? = some (.fresh body)) : i ∉ t.line := by
    intro hmem
    obtain ⟨body', hqueued⟩ := htracks.line.mp hmem
    rw [hs] at hqueued
    cases hqueued
  cases hdealt with
  | admitted =>
      exact htracks.set hslot rfl rfl (List.append_nil _).symm (fun _ _ => Iff.rfl)
        ⟨fun hmem => (hfresh hslot hmem).elim, nofun⟩ htracks.nodup
  | lined =>
      refine htracks.set hslot rfl rfl (List.append_nil _).symm (fun j hj => by simp [hj])
        ⟨fun _ => ⟨_, rfl⟩, fun _ => by simp⟩ ?_
      exact List.nodup_append.mpr ⟨htracks.nodup, by simp, fun j hj k hk hjk => by
        obtain rfl := List.mem_singleton.mp hk
        exact hfresh hslot (hjk ▸ hj)⟩
  | served _ hline =>
      have hnodup := htracks.nodup
      rw [hline, List.nodup_cons] at hnodup
      exact htracks.set hslot rfl rfl (List.append_nil _).symm (fun j hj => by simp [hline, hj])
        ⟨fun hmem => (hnodup.1 hmem).elim, nofun⟩ hnodup.2
  | barred =>
      exact htracks.set hslot rfl rfl rfl (fun _ _ => Iff.rfl)
        ⟨fun hmem => (hfresh hslot hmem).elim, nofun⟩ htracks.nodup
  | dropped =>
      exact htracks.set hslot rfl rfl rfl (fun j hj => List.mem_erase_of_ne hj)
        ⟨fun hmem => (htracks.nodup.not_mem_erase hmem).elim, nofun⟩ (htracks.nodup.erase i)

theorem Tracks.not_in_line {body : α} (htracks : t.Tracks slots)
    (hslot : slots[i]? = some (.running body)) : i ∉ t.line := by
  intro hmem
  obtain ⟨body', hqueued⟩ := htracks.line.mp hmem
  rw [hslot] at hqueued
  cases hqueued

/-- A tally stays right when a branch works. -/
theorem Tracks.works {body body' : α} (htracks : t.Tracks slots)
    (hslot : slots[i]? = some (.running body)) : t.Tracks (slots.set i (.running body')) :=
  htracks.set hslot rfl rfl (List.append_nil _).symm (fun _ _ => Iff.rfl)
    ⟨fun hmem => (htracks.not_in_line hslot hmem).elim, nofun⟩ htracks.nodup

/-- A tally stays right when a branch gives its permit back. -/
theorem Tracks.finish {body : α} {o : Outcome} (htracks : t.Tracks slots)
    (hslot : slots[i]? = some (.running body)) : (t.finish i o).Tracks (slots.set i (.ended o)) :=
  htracks.set hslot rfl rfl rfl (fun _ _ => Iff.rfl)
    ⟨fun hmem => (htracks.not_in_line hslot hmem).elim, nofun⟩ htracks.nodup

/-- A tally stays right when a report is put in its place. -/
theorem Tracks.read {arrival : Arrival} {rest : List Arrival} {reports : List (Option Report)}
    (htracks : t.Tracks slots) (harrivals : t.arrivals = arrival :: rest)
    (hverdict : verdict t.reports arrival = .ok reports) :
    { t with arrivals := rest, reports := reports }.Tracks slots := by
  obtain ⟨i, o, rfl, hslot⟩ := htracks.arrived (harrivals ▸ List.mem_cons_self)
  cases o with
  | error fault => cases hverdict
  | ok r =>
      cases hverdict
      have hlt : i < t.reports.length := by
        rw [htracks.length]
        exact (List.getElem?_eq_some_iff.mp hslot).1
      refine ⟨by rw [List.length_set, htracks.length], fun {j r'} hnoted => ?_, fun hmem =>
        htracks.arrived (harrivals ▸ List.mem_cons_of_mem _ hmem), fun {j o} hended => ?_,
        htracks.line, htracks.nodup⟩
      · by_cases hj : j = i
        · subst hj
          obtain rfl : r = r' := by simpa [hlt] using hnoted
          exact hslot
        · rw [List.getElem?_set_ne (Ne.symm hj)] at hnoted
          exact htracks.noted hnoted
      · by_cases hj : j = i
        · subst hj
          rw [hslot] at hended
          cases hended
          exact .inr ⟨r, rfl, by simp [hlt]⟩
        · rw [List.getElem?_set_ne (Ne.symm hj)]
          rcases htracks.ended hended with hmem | hnoted
          · rw [harrivals, List.mem_cons] at hmem
            rcases hmem with heq | hmem
            · cases heq
              exact (hj rfl).elim
            · exact .inl hmem
          · exact .inr hnoted

/-- What a tally says of its branches is which of them have ended and which stand in the line. -/
theorem Tracks.congr {slots' : List (Slot β)} (htracks : t.Tracks slots)
    (hlength : slots'.length = slots.length)
    (hended : ∀ {i : Nat} {o : Outcome}, slots'[i]? = some (.ended o) ↔ slots[i]? = some (.ended o))
    (hqueued : ∀ {i : Nat}, (∃ b, slots'[i]? = some (.queued b)) ↔ ∃ a, slots[i]? = some (.queued a)) :
    t.Tracks slots' where
  length := htracks.length.trans hlength.symm
  noted hnoted := hended.mpr (htracks.noted hnoted)
  arrived hmem := by
    obtain ⟨i, o, rfl, hslot⟩ := htracks.arrived hmem
    exact ⟨i, o, rfl, hended.mpr hslot⟩
  ended hslot := htracks.ended (hended.mp hslot)
  line := htracks.line.trans hqueued.symm
  nodup := htracks.nodup

private theorem exists_map_some {β : Type} {l : List (Option β)}
    (hall : ∀ x ∈ l, ∃ y, x = some y) : ∃ ys : List β, l = ys.map some := by
  induction l with
  | nil => exact ⟨[], rfl⟩
  | cons x l ih =>
      obtain ⟨y, rfl⟩ := hall x List.mem_cons_self
      obtain ⟨ys, rfl⟩ := ih fun x hx => hall x (List.mem_cons_of_mem _ hx)
      exact ⟨y :: ys, rfl⟩

/-- When all have ended and been read, there is a report of each. -/
theorem Tracks.all_reports (htracks : t.Tracks slots) (harrivals : t.arrivals = [])
    (hended : ∀ s ∈ slots, s.isEnded = true) :
    ∃ rs : List Report, t.reports = rs.map some ∧ slots = rs.map fun r => .ended (.ok r) := by
  have hall {i : Nat} (hi : i < slots.length) :
      ∃ r, slots[i]? = some (.ended (.ok r)) ∧ t.reports[i]? = some (some r) := by
    obtain ⟨o, ho⟩ := Slot.isEnded_eq_true.mp (hended slots[i] (List.getElem_mem hi))
    have hslot : slots[i]? = some (.ended o) := by rw [List.getElem?_eq_getElem hi, ho]
    rcases htracks.ended hslot with hmem | ⟨r, rfl, hnoted⟩
    · rw [harrivals] at hmem
      cases hmem
    · exact ⟨r, hslot, hnoted⟩
  have hsome : ∀ report ∈ t.reports, ∃ r, report = some r := by
    intro report hmem
    obtain ⟨i, hi⟩ := List.mem_iff_getElem?.mp hmem
    have hlt := (List.getElem?_eq_some_iff.mp hi).1
    rw [htracks.length] at hlt
    obtain ⟨r, _, hnoted⟩ := hall hlt
    rw [hi] at hnoted
    cases hnoted
    exact ⟨r, rfl⟩
  obtain ⟨rs, hrs⟩ := exists_map_some hsome
  refine ⟨rs, hrs, List.ext_getElem? fun i => ?_⟩
  have hlength : rs.length = slots.length := by rw [← htracks.length, hrs, List.length_map]
  by_cases hi : i < slots.length
  · obtain ⟨r, hslot, hnoted⟩ := hall hi
    rw [hrs, List.getElem?_map, Option.map_eq_some_iff] at hnoted
    obtain ⟨r', hr', heq⟩ := hnoted
    obtain rfl := Option.some.inj heq
    rw [hslot, List.getElem?_map, hr']
    rfl
  · rw [List.getElem?_eq_none (by omega), List.getElem?_eq_none (by simp; omega)]

end Tally

/-! ### Branches that have not ended -/

/-- The branch with a number, and what it is still to do, for as long as it has not ended. -/
def Ongoing (slots : List (Slot α)) (i : Nat) (a : α) : Prop :=
  ∃ slot, slots[i]? = some slot ∧ slot.body? = some a

section

variable {slots : List (Slot α)} {slot slot' : Slot α} {i j : Nat} {a b : α}

theorem ongoing_running (hslot : slots[i]? = some (.running a)) : Ongoing slots i a :=
  ⟨_, hslot, rfl⟩

theorem ongoing_fresh {branches : List α} : Ongoing (branches.map .fresh) i a ↔ branches[i]? = some a := by
  constructor
  · rintro ⟨slot, hslot, ha⟩
    rw [List.getElem?_map, Option.map_eq_some_iff] at hslot
    obtain ⟨body, hbody, rfl⟩ := hslot
    rwa [← ha]
  · intro ha
    exact ⟨.fresh a, by rw [List.getElem?_map, ha, Option.map_some], rfl⟩

theorem Ongoing.unique (ha : Ongoing slots i a) (hb : Ongoing slots i b) : a = b := by
  obtain ⟨slot, hslot, ha⟩ := ha
  obtain ⟨slot', hslot', hb⟩ := hb
  rw [hslot, Option.some.injEq] at hslot'
  subst hslot'
  rw [ha, Option.some.injEq] at hb
  exact hb

/-- To change a branch leaves the other branches as they are. -/
theorem Ongoing.of_set (hb : Ongoing (slots.set i slot) j b) :
    (j = i ∧ slot.body? = some b) ∨ (j ≠ i ∧ Ongoing slots j b) := by
  obtain ⟨slot', hslot', hb⟩ := hb
  by_cases hj : j = i
  · subst hj
    have hlt := (List.getElem?_eq_some_iff.mp hslot').1
    rw [List.length_set] at hlt
    rw [List.getElem?_set_self hlt, Option.some.injEq] at hslot'
    subst hslot'
    exact .inl ⟨rfl, hb⟩
  · rw [List.getElem?_set_ne (Ne.symm hj)] at hslot'
    exact .inr ⟨hj, slot', hslot', hb⟩

/-- What holds of every branch still does when one of them goes on to something of which it holds. -/
theorem Ongoing.set_running {P : Nat → α → Prop} (ha : P i a) (hparts : ∀ j b, Ongoing slots j b → P j b)
    (hb : Ongoing (slots.set i (.running a)) j b) : P j b := by
  rcases hb.of_set with ⟨rfl, heq⟩ | ⟨_, hold⟩
  · cases heq
    exact ha
  · exact hparts j b hold

theorem Ongoing.of_set_other (hji : j ≠ i) (hb : Ongoing (slots.set i slot) j b) : Ongoing slots j b :=
  (hb.of_set.resolve_left fun heq => hji heq.1).2

/-- The branches that are left when one has ended are the other ones. -/
theorem Ongoing.of_set_ended {o : Outcome} (hb : Ongoing (slots.set i (.ended o)) j b) :
    j ≠ i ∧ Ongoing slots j b :=
  hb.of_set.resolve_left nofun

/-- What is dealt to a branch leaves it what it is to do. -/
theorem Ongoing.of_dealt {closed : Bool} {t t' : Tally}
    (hdeal : t.deal closed i slot = some (t', slot')) (hslot : slots[i]? = some slot)
    (hb : Ongoing (slots.set i slot') j b) : Ongoing slots j b := by
  rcases hb.of_set with ⟨rfl, hbody⟩ | ⟨_, hold⟩
  · exact ⟨slot, hslot, (Tally.dealt_iff.mp hdeal).body hbody⟩
  · exact hold

/-- What is left of the branches where something goes on in those that run. -/
theorem Ongoing.of_map {f : Slot α → Slot α} {g : α → α} (hrun : ∀ a, f (.running a) = .running (g a))
    (hrest : ∀ s : Slot α, s.holds = false → f s = s) (hb : Ongoing (slots.map f) i b) :
    ∃ a, Ongoing slots i a ∧ (b = a ∨ (slots[i]? = some (.running a) ∧ b = g a)) := by
  obtain ⟨slot', hslot', hb⟩ := hb
  rw [List.getElem?_map, Option.map_eq_some_iff] at hslot'
  obtain ⟨slot, hslot, rfl⟩ := hslot'
  cases hholds : slot.holds with
  | false =>
      rw [hrest slot hholds] at hb
      exact ⟨b, ⟨slot, hslot, hb⟩, .inl rfl⟩
  | true =>
      cases slot with
      | running a =>
          rw [hrun a] at hb
          cases hb
          exact ⟨a, ongoing_running hslot, .inr ⟨hslot, rfl⟩⟩
      | fresh | queued | ended => cases hholds

/-- Where each branch has a property, every place has it. -/
theorem forall_ongoing {Q : α → Prop} (hparts : ∀ i a, Ongoing slots i a → Q a) :
    ∀ slot ∈ slots, ∀ a, slot.body? = some a → Q a := by
  intro slot hmem a ha
  obtain ⟨i, hi⟩ := List.mem_iff_getElem?.mp hmem
  exact hparts i a ⟨slot, hi, ha⟩

end

/-! ### All reports -/

/-- All reports are there exactly if each place has one. -/
theorem gatherFrom_eq_ok {index : Nat} {reports : List (Option Report)} {rs : List Report} :
    gatherFrom index reports = .ok rs ↔ reports = rs.map some := by
  induction reports generalizing index rs with
  | nil => cases rs <;> simp [gatherFrom]
  | cons report rest ih =>
      cases report with
      | none => cases rs <;> simp [gatherFrom]
      | some r =>
          have hbind : gatherFrom index (some r :: rest) = .ok rs ↔
              ∃ reports, gatherFrom (index + 1) rest = .ok reports ∧ r :: reports = rs := by
            rw [gatherFrom]
            cases gatherFrom (index + 1) rest with
            | error fault => exact ⟨nofun, nofun⟩
            | ok reports =>
                refine ⟨fun h => ?_, ?_⟩
                · cases h
                  exact ⟨reports, rfl, rfl⟩
                · rintro ⟨_, ⟨⟩, rfl⟩
                  rfl
          rw [hbind]
          constructor
          · rintro ⟨reports, hrest, rfl⟩
            rw [List.map_cons, ih.mp hrest]
          · intro h
            cases rs with
            | nil => cases h
            | cons r' rs =>
                rw [List.map_cons, List.cons.injEq, Option.some.injEq] at h
                exact ⟨rs, ih.mpr h.2, by rw [h.1]⟩

end Runsheet
