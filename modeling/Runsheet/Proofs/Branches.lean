import Runsheet.Proofs.Parts

/-!
# Branches

The run of a split, taken apart into the courses of its branches.  A branch asks for a permit, waits for
it, runs, and is over; its `Course` is a run of its own along the history as it sees it.  `Run.of_fork`
says that a split lasts, turn by turn, until it ends with the reports of all branches or with the fault
that is read first.

* `Lasting.course` — every branch is on its course for as long as the split lasts;
* `Course.of_running`, `Course.of_ended` — a branch that runs or has ended got its permit in a turn of its
  own, and has run since or run to its end; or a closed pool has refused it;
* `Lasting.permits` — no permit is ever lost;
* `Lasting.tracks` — the reports, and those that are to be read, are what the branches ended with.
-/

namespace Runsheet

namespace Activity

variable {ordered : Prop} {way : Way} {a b c : Activity} {w v u x : World} {h g : List Turn}
variable {i j : Nat} {t t' t'' : Tally} {slots slots' slots'' : List (Slot Activity)}
variable {s s' : Slot Activity} {next : Reading → Activity}

/-! ### How a split lasts -/

/-- **A split that lasts**: the branches have their turns, those that have ended are read, others have
their turns, and time passes. -/
inductive Lasting (ordered : Prop) : Tally → List (Slot Activity) → World → List Turn →
    Tally → List (Slot Activity) → World → Prop
  | stop {t : Tally} {slots : List (Slot Activity)} {w : World} :
      Lasting ordered t slots w [] t slots w
  | turn {i : Nat} {way : Way} {t t' t'' : Tally} {slots slots'' : List (Slot Activity)}
      {s s' : Slot Activity} {w v u : World} {h : List Turn} (hturn : ordered → InTurn t slots i)
      (hslot : slots[i]? = some s) (hmove : BranchMove ordered i way t s w t' s' v)
      (hlast : Lasting ordered t' (slots.set i s') v h t'' slots'' u) :
      Lasting ordered t slots w (.own ((t.pool, i) :: way) w v :: h) t'' slots'' u
  | read {t t'' : Tally} {slots slots'' : List (Slot Activity)} {arrival : Arrival}
      {rest : List Arrival} {reports : List (Option Report)} {w u : World} {h : List Turn}
      (hturn : ordered → Readable t slots) (harrivals : t.arrivals = arrival :: rest)
      (hverdict : Tally.verdict t.reports arrival = .ok reports)
      (hlast : Lasting ordered { t with arrivals := rest, reports := reports } slots w h t'' slots'' u) :
      Lasting ordered t slots w (.own [] w w :: h) t'' slots'' u
  | other {t t'' : Tally} {slots slots'' : List (Slot Activity)} {w v u : World} {h : List Turn}
      (hlast : Lasting ordered t slots v h t'' slots'' u) :
      Lasting ordered t slots w (.other w v :: h) t'' slots'' u
  | tick {t t'' : Tally} {slots slots'' : List (Slot Activity)} {next : Reading → Activity}
      {w u : World} {h : List Turn} (hsettled : Settled (.fork t slots next))
      (hlast : Lasting ordered t (elapseSlots 1 slots) (w.wait 1) h t'' slots'' u) :
      Lasting ordered t slots w (.tick :: h) t'' slots'' u

/-- The two ways in which a split ends: a fault is read, or all branches have ended and been read. -/
inductive Ending (ordered : Prop) (t : Tally) (slots : List (Slot Activity)) : Reading → Prop
  | abort {arrival : Arrival} {rest : List Arrival} {fault : Nat × Fault}
      (hturn : ordered → Readable t slots) (harrivals : t.arrivals = arrival :: rest)
      (hverdict : Tally.verdict t.reports arrival = .error fault) : Ending ordered t slots (.error fault)
  | leave (harrivals : t.arrivals = []) (hended : ∀ s ∈ slots, s.isEnded = true) :
      Ending ordered t slots (.ok t.reports)

theorem Lasting.append (hl : Lasting ordered t slots w h t' slots' v)
    (hr : Lasting ordered t' slots' v g t'' slots'' u) :
    Lasting ordered t slots w (h ++ g) t'' slots'' u := by
  induction hl with
  | stop => exact hr
  | turn hturn hslot hmove _ ih => exact .turn hturn hslot hmove (ih hr)
  | read hturn harrivals hverdict _ ih => exact .read hturn harrivals hverdict (ih hr)
  | other _ ih => exact .other (ih hr)
  | tick hsettled _ ih => exact .tick hsettled (ih hr)

/-- **The run of a split.**  It lasts, or it has lasted until it ended, and gone on with what it ended
with. -/
theorem Run.of_fork (hrun : Run ordered (.fork t slots next) w h c u) :
    (∃ t' slots', c = .fork t' slots' next ∧ Lasting ordered t slots w h t' slots' u) ∨
    ∃ h₁ h₂ v reading t' slots', h = h₁ ++ .own [] v v :: h₂ ∧
      Lasting ordered t slots w h₁ t' slots' v ∧ Ending ordered t' slots' reading ∧
      Run ordered (next reading) v h₂ c u := by
  generalize hfork : Activity.fork t slots next = d at hrun
  induction hrun generalizing t slots with
  | stop => exact Or.inl ⟨t, slots, hfork.symm, .stop⟩
  | @own way d b c w v u h hmove hrun ih =>
      subst hfork
      cases hmove.of_fork with
      | turn hturn hslot hmove =>
          rcases ih rfl with ⟨t', slots', rfl, hlast⟩ |
            ⟨h₁, h₂, x, reading, t', slots', rfl, hlast, hend, hrest⟩
          · exact Or.inl ⟨t', slots', rfl, .turn hturn hslot hmove hlast⟩
          · exact Or.inr ⟨_, h₂, x, reading, t', slots', rfl, .turn hturn hslot hmove hlast, hend,
              hrest⟩
      | read hturn harrivals hverdict =>
          rcases ih rfl with ⟨t', slots', rfl, hlast⟩ |
            ⟨h₁, h₂, x, reading, t', slots', rfl, hlast, hend, hrest⟩
          · exact Or.inl ⟨t', slots', rfl, .read hturn harrivals hverdict hlast⟩
          · exact Or.inr ⟨_, h₂, x, reading, t', slots', rfl, .read hturn harrivals hverdict hlast,
              hend, hrest⟩
      | abort hturn harrivals hverdict =>
          exact Or.inr ⟨[], h, w, _, t, slots, rfl, .stop, .abort hturn harrivals hverdict, hrun⟩
      | leave harrivals hended =>
          exact Or.inr ⟨[], h, w, _, t, slots, rfl, .stop, .leave harrivals hended, hrun⟩
  | other hrun ih =>
      subst hfork
      rcases ih rfl with ⟨t', slots', rfl, hlast⟩ |
        ⟨h₁, h₂, x, reading, t', slots', rfl, hlast, hend, hrest⟩
      · exact Or.inl ⟨t', slots', rfl, .other hlast⟩
      · exact Or.inr ⟨_, h₂, x, reading, t', slots', rfl, .other hlast, hend, hrest⟩
  | tick hsettled hrun ih =>
      subst hfork
      rcases ih rfl with ⟨t', slots', rfl, hlast⟩ |
        ⟨h₁, h₂, x, reading, t', slots', rfl, hlast, hend, hrest⟩
      · exact Or.inl ⟨t', slots', rfl, .tick hsettled hlast⟩
      · exact Or.inr ⟨_, h₂, x, reading, t', slots', rfl, .tick hsettled hlast, hend, hrest⟩

/-- A split that lasts is a run, whatever is to follow it. -/
theorem Lasting.run (hlast : Lasting ordered t slots w h t' slots' u) :
    Run ordered (.fork t slots next) w h (.fork t' slots' next) u := by
  induction hlast with
  | stop => exact .stop
  | turn hturn hslot hmove _ ih => exact .own (hmove.move hturn hslot) ih
  | read hturn harrivals hverdict _ ih => exact .own (.read hturn harrivals hverdict) ih
  | other _ ih => exact .other ih
  | tick hsettled _ ih => exact .tick hsettled ih

/-! ### What a split keeps -/

theorem BranchMove.pool (hmove : BranchMove ordered i way t s w t' s' v) : t'.pool = t.pool := by
  cases hmove with
  | dealt hdealt => exact hdealt.pool
  | works | finishes => rfl

theorem Lasting.pool (hlast : Lasting ordered t slots w h t' slots' u) : t'.pool = t.pool := by
  induction hlast with
  | stop => rfl
  | turn _ _ hmove _ ih => exact ih.trans hmove.pool
  | read _ _ _ _ ih => exact ih
  | other _ ih => exact ih
  | tick _ _ ih => exact ih

theorem Lasting.length (hlast : Lasting ordered t slots w h t' slots' u) :
    slots'.length = slots.length := by
  induction hlast with
  | stop => rfl
  | turn _ _ _ _ ih => exact ih.trans List.length_set
  | read _ _ _ _ ih => exact ih
  | other _ ih => exact ih
  | tick _ _ ih => exact ih.trans (by rw [elapseSlots_eq_map, List.length_map])

/-- Every turn is one of a branch or leaves the world as it is. -/
theorem Lasting.turns (hlast : Lasting ordered t slots w h t' slots' u) {x y : World}
    (hmem : .own way x y ∈ h) :
    (way = [] ∧ y = x) ∨ ∃ i rest, way = (t.pool, i) :: rest ∧ i < slots.length := by
  induction hlast with
  | stop => cases hmem
  | turn _ hslot hmove _ ih =>
      rcases List.mem_cons.mp hmem with heq | hmem
      · cases heq
        exact .inr ⟨_, _, rfl, (List.getElem?_eq_some_iff.mp hslot).1⟩
      · rw [← hmove.pool]
        simpa using ih hmem
  | read _ _ _ _ ih =>
      rcases List.mem_cons.mp hmem with heq | hmem
      · cases heq
        exact .inl ⟨rfl, rfl⟩
      · exact ih hmem
  | other _ ih =>
      rcases List.mem_cons.mp hmem with heq | hmem
      · cases heq
      · exact ih hmem
  | tick _ _ ih =>
      rcases List.mem_cons.mp hmem with heq | hmem
      · cases heq
      · simpa [elapseSlots_eq_map] using ih hmem

theorem held_elapse (ms : Nat) (slots : List (Slot Activity)) :
    Tally.held (elapseSlots ms slots) = Tally.held slots := by
  rw [elapseSlots_eq_map, Tally.held, Tally.held, List.countP_map]
  congr 1
  funext s
  cases s <;> rfl

/-- No permit is lost in the turn of a branch. -/
theorem BranchMove.permits (hmove : BranchMove ordered i way t s w t' s' v)
    (hslot : slots[i]? = some s) :
    t'.free + Tally.held (slots.set i s') = t.free + Tally.held slots := by
  cases hmove with
  | dealt hdealt => exact hdealt.permits hslot
  | works => rw [Tally.held_set_running hslot]
  | finishes => exact Tally.finish_permits hslot

/-- **No permit is ever lost.** -/
theorem Lasting.permits (hlast : Lasting ordered t slots w h t' slots' u) :
    t'.free + Tally.held slots' = t.free + Tally.held slots := by
  induction hlast with
  | stop => rfl
  | turn _ hslot hmove _ ih => exact ih.trans (hmove.permits hslot)
  | read _ _ _ _ ih => exact ih
  | other _ ih => exact ih
  | tick _ _ ih => rw [ih, held_elapse]

theorem BranchMove.tracks (hmove : BranchMove ordered i way t s w t' s' v)
    (htracks : t.Tracks slots) (hslot : slots[i]? = some s) : t'.Tracks (slots.set i s') := by
  cases hmove with
  | dealt hdealt => exact htracks.dealt hslot hdealt
  | works => exact htracks.works hslot
  | finishes => exact htracks.finish hslot

theorem tracks_elapse (htracks : t.Tracks slots) (ms : Nat) : t.Tracks (elapseSlots ms slots) :=
  htracks.congr (by rw [elapseSlots_eq_map, List.length_map]) elapse_eq_ended
    (exists_congr fun _ => elapse_eq_queued)

/-- **The tally stays right** for as long as the split lasts. -/
theorem Lasting.tracks (hlast : Lasting ordered t slots w h t' slots' u) (htracks : t.Tracks slots) :
    t'.Tracks slots' := by
  induction hlast with
  | stop => exact htracks
  | turn _ hslot hmove _ ih => exact ih (hmove.tracks htracks hslot)
  | read _ harrivals hverdict _ ih => exact ih (htracks.read harrivals hverdict)
  | other _ ih => exact ih htracks
  | tick _ _ ih => exact ih (tracks_elapse htracks 1)

/-- While a branch of a settled split stands in the line, there is no permit to get. -/
theorem Settled.no_permit (hsettled : Settled (.fork t slots next)) (htracks : t.Tracks slots)
    (hslot : slots[i]? = some (.queued a)) : t.free = 0 := by
  have hline := htracks.line.mpr ⟨a, hslot⟩
  cases hfirst : t.line with
  | nil =>
      rw [hfirst] at hline
      cases hline
  | cons j rest =>
      obtain ⟨b, hj⟩ := htracks.line.mp (hfirst ▸ List.mem_cons_self : j ∈ t.line)
      exact hsettled.2.2.1 j b (by rw [hfirst]; rfl) hj

/-- A settled split with permits has a branch that runs: the others wait for a permit of its. -/
theorem Settled.exists_running (hsettled : Settled (.fork t slots next)) (htracks : t.Tracks slots)
    (hpermits : 0 < t.free + Tally.held slots) :
    ∃ (i : Nat) (b : Activity), slots[i]? = some (.running b) ∧ Settled b := by
  obtain ⟨s, hs, hwaits⟩ := hsettled.2.2.2
  obtain ⟨i, hi⟩ := List.mem_iff_getElem?.mp hs
  cases s with
  | fresh body => exact (hsettled.1.calm hi).elim
  | running body => exact ⟨i, body, hi, hsettled.1.of_getElem? hi⟩
  | ended o => cases hwaits
  | queued body =>
      have hfree := hsettled.no_permit htracks hi
      have hheld : 0 < Tally.held slots := by omega
      obtain ⟨j, b, hj⟩ := Tally.exists_running hheld
      exact ⟨j, b, hj, hsettled.1.of_getElem? hj⟩

/-! ### The course of a branch -/

variable {pool : Pool}

/-- **The course of a branch** along a history of its split: its own turns, and those in which others
have theirs or time passes. -/
inductive Course (ordered : Prop) (pool : Pool) (i : Nat) :
    Slot Activity → World → List Turn → Slot Activity → World → Prop
  | stop {s : Slot Activity} {w : World} : Course ordered pool i s w [] s w
  | own {way : Way} {t t' : Tally} {s s' s'' : Slot Activity} {w v u : World} {h : List Turn}
      (hpool : t.pool = pool) (hmove : BranchMove ordered i way t s w t' s' v)
      (hcourse : Course ordered pool i s' v h s'' u) :
      Course ordered pool i s w (.own ((pool, i) :: way) w v :: h) s'' u
  | others {turn : Turn} {s s'' : Slot Activity} {w v u : World} {h : List Turn}
      (hseen : turn.seenBy pool i = .other w v) (hcourse : Course ordered pool i s v h s'' u) :
      Course ordered pool i s w (turn :: h) s'' u
  | tick {s s'' : Slot Activity} {w u : World} {h : List Turn} (hcalm : s.Calm Settled)
      (hcourse : Course ordered pool i (s.elapse 1) (w.wait 1) h s'' u) :
      Course ordered pool i s w (.tick :: h) s'' u

/-- Every branch of a split that lasts is on its course. -/
theorem Lasting.course (hlast : Lasting ordered t slots w h t' slots' u) (hslot : slots[i]? = some s) :
    ∃ s', slots'[i]? = some s' ∧ Course ordered t.pool i s w h s' u := by
  induction hlast generalizing s with
  | stop => exact ⟨s, hslot, .stop⟩
  | @turn j way t t' t'' slots slots'' s₁ s₂ w v u h hturn hslot' hmove _ ih =>
      by_cases hj : j = i
      · subst hj
        rw [hslot] at hslot'
        cases hslot'
        have hlt := (List.getElem?_eq_some_iff.mp hslot).1
        obtain ⟨s', hs', hcourse⟩ := ih (s := s₂) (by simp [hlt])
        exact ⟨s', hs', .own rfl hmove (hmove.pool ▸ hcourse)⟩
      · obtain ⟨s', hs', hcourse⟩ := ih (s := s) (by rw [List.getElem?_set_ne hj, hslot])
        exact ⟨s', hs', .others (by simp [Turn.seenBy, hj]) (hmove.pool ▸ hcourse)⟩
  | read _ _ _ _ ih =>
      obtain ⟨s', hs', hcourse⟩ := ih hslot
      exact ⟨s', hs', .others rfl hcourse⟩
  | other _ ih =>
      obtain ⟨s', hs', hcourse⟩ := ih hslot
      exact ⟨s', hs', .others rfl hcourse⟩
  | tick hsettled _ ih =>
      obtain ⟨s', hs', hcourse⟩ := ih (s := s.elapse 1) (by rw [elapseSlots_eq_map]; simp [hslot])
      exact ⟨s', hs', .tick (hsettled.1.calm hslot) hcourse⟩

/-- The branch does no work in the history: its turns are those in which it asks for its permit. -/
def Patient (pool : Pool) (i : Nat) (h : List Turn) : Prop :=
  ∀ way w v, .own ((pool, i) :: way) w v ∈ h → way = [] ∧ v = w

theorem patient_nil : Patient pool i [] :=
  nofun

theorem patient_cons {turn : Turn} : Patient pool i (turn :: h) ↔
    (∀ way w v, turn = .own ((pool, i) :: way) w v → way = [] ∧ v = w) ∧ Patient pool i h := by
  constructor
  · intro hall
    exact ⟨fun way w v heq => hall way w v (heq ▸ List.mem_cons_self),
      fun way w v hmem => hall way w v (List.mem_cons_of_mem _ hmem)⟩
  · intro hall way w v hmem
    rcases List.mem_cons.mp hmem with heq | hmem
    · exact hall.1 way w v heq.symm
    · exact hall.2 way w v hmem

/-- A turn that a branch sees as one of others is none of its own. -/
theorem not_own_of_seenBy {turn : Turn} (hseen : turn.seenBy pool i = .other w v) (way : Way)
    (x y : World) : turn ≠ .own ((pool, i) :: way) x y :=
  (quiet_cons.mp (quiet_of_seenBy hseen)).1 way x y

/-- A branch that has ended has no more turns. -/
theorem Course.over {o : Outcome} (hcourse : Course ordered pool i (.ended o) w h s u) :
    s = .ended o ∧ Quiet pool i h := by
  generalize hs : Slot.ended o = s₁ at hcourse
  induction hcourse with
  | stop => exact ⟨rfl, quiet_nil⟩
  | own _ hmove => exact (hmove.not_ended (hs ▸ rfl)).elim
  | others hseen _ ih =>
      obtain ⟨rfl, hquiet⟩ := ih hs
      exact ⟨rfl, quiet_cons.mpr ⟨not_own_of_seenBy hseen, hquiet⟩⟩
  | tick _ _ ih =>
      subst hs
      obtain ⟨rfl, hquiet⟩ := ih rfl
      exact ⟨rfl, quiet_cons.mpr ⟨nofun, hquiet⟩⟩

/-- **A branch that has its permit** runs, or has run to its end and given the permit back. -/
theorem Course.of_permit (hcourse : Course ordered pool i (.running a) w h s u) :
    (∃ b, s = .running b ∧ Run ordered a w (view pool i h) b u) ∨
    ∃ o own y after, s = .ended o ∧ h = own ++ .own [(pool, i)] y y :: after ∧
      Run ordered a w (view pool i own) (.done o) y ∧ Quiet pool i after := by
  generalize hs : Slot.running a = s₁ at hcourse
  induction hcourse generalizing a with
  | stop => exact .inl ⟨a, hs.symm, .stop⟩
  | own hpool hmove hcourse ih =>
      cases hmove with
      | dealt hdealt =>
          obtain ⟨body, rfl | rfl⟩ := hdealt.waits
          · cases hs
          · cases hs
      | works hmove =>
          cases hs
          have hrun := hmove.run_view pool i
          rcases ih rfl with ⟨c, rfl, hrest⟩ | ⟨o, own, y, after, rfl, rfl, hrest, hquiet⟩
          · exact .inl ⟨c, rfl, hrun.append_view hrest⟩
          · exact .inr ⟨o, _ :: own, y, after, rfl, rfl, hrun.append_view hrest, hquiet⟩
      | finishes =>
          cases hs
          obtain ⟨rfl, hquiet⟩ := hcourse.over
          exact .inr ⟨_, [], _, _, rfl, rfl, .stop, hquiet⟩
  | others hseen _ ih =>
      rcases ih hs with ⟨c, rfl, hrest⟩ | ⟨o, own, y, after, rfl, rfl, hrest, hquiet⟩
      · exact .inl ⟨c, rfl, by rw [view_cons, hseen]; exact .other hrest⟩
      · exact .inr ⟨o, _ :: own, y, after, rfl, rfl, by rw [view_cons, hseen]; exact .other hrest,
          hquiet⟩
  | tick hcalm _ ih =>
      subst hs
      rcases ih rfl with ⟨c, rfl, hrest⟩ | ⟨o, own, y, after, rfl, rfl, hrest, hquiet⟩
      · exact .inl ⟨c, rfl, .tick hcalm hrest⟩
      · exact .inr ⟨o, _ :: own, y, after, rfl, rfl, .tick hcalm hrest, hquiet⟩

/-- **A branch that waits for its permit** does so to the end, gets the permit in a turn of its own, or is
refused by a closed pool. -/
theorem Course.of_waiting (hcourse : Course ordered pool i s w h s' u) (hbody : s.body? = some a)
    (hwaits : s.holds = false) :
    (s'.body? = some a ∧ s'.holds = false ∧ Patient pool i h) ∨
    (∃ before x rest, h = before ++ .own [(pool, i)] x x :: rest ∧ Patient pool i before ∧
      x.isClosed pool = false ∧ Course ordered pool i (.running a) x rest s' u) ∨
    ∃ before x after, h = before ++ .own [(pool, i)] x x :: after ∧ Patient pool i before ∧
      x.isClosed pool = true ∧ s' = .ended (.error .poolShutdown) ∧ Quiet pool i after := by
  induction hcourse with
  | stop => exact .inl ⟨hbody, hwaits, patient_nil⟩
  | @own way t t' s s₁ s'' w v u h hpool hmove hcourse ih =>
      cases hmove with
      | works => cases hwaits
      | finishes => cases hwaits
      | dealt hdealt =>
          rw [hpool] at hdealt
          have hnone : Patient pool i [.own [(pool, i)] w w] :=
            patient_cons.mpr ⟨by rintro way x y ⟨⟩; exact ⟨rfl, rfl⟩, patient_nil⟩
          cases hdealt with
          | lined =>
              rcases ih hbody rfl with ⟨hbody', hwaits', hpatient⟩ |
                ⟨before, x, rest, rfl, hpatient, hrest⟩ | ⟨before, x, after, rfl, hpatient, hrest⟩
              · exact .inl ⟨hbody', hwaits', patient_cons.mpr ⟨(patient_cons.mp hnone).1, hpatient⟩⟩
              · exact .inr (.inl ⟨_ :: before, x, rest, rfl,
                  patient_cons.mpr ⟨(patient_cons.mp hnone).1, hpatient⟩, hrest⟩)
              · exact .inr (.inr ⟨_ :: before, x, after, rfl,
                  patient_cons.mpr ⟨(patient_cons.mp hnone).1, hpatient⟩, hrest⟩)
          | admitted hopen | served hopen =>
              cases hbody
              exact .inr (.inl ⟨[], w, h, rfl, patient_nil, hopen, hcourse⟩)
          | barred hclosed | dropped hclosed =>
              obtain ⟨rfl, hquiet⟩ := hcourse.over
              exact .inr (.inr ⟨[], w, h, rfl, patient_nil, hclosed, rfl, hquiet⟩)
  | others hseen _ ih =>
      have hnone {h : List Turn} (hpatient : Patient pool i h) : Patient pool i (_ :: h) :=
        patient_cons.mpr ⟨fun way x y heq => (not_own_of_seenBy hseen way x y heq).elim, hpatient⟩
      rcases ih hbody hwaits with ⟨hbody', hwaits', hpatient⟩ |
        ⟨before, x, rest, rfl, hpatient, hrest⟩ | ⟨before, x, after, rfl, hpatient, hrest⟩
      · exact .inl ⟨hbody', hwaits', hnone hpatient⟩
      · exact .inr (.inl ⟨_ :: before, x, rest, rfl, hnone hpatient, hrest⟩)
      · exact .inr (.inr ⟨_ :: before, x, after, rfl, hnone hpatient, hrest⟩)
  | @tick s _ _ _ _ hcalm _ ih =>
      have hnone {h : List Turn} (hpatient : Patient pool i h) : Patient pool i (.tick :: h) :=
        patient_cons.mpr ⟨nofun, hpatient⟩
      have hsame : s.elapse 1 = s := by
        cases s with
        | running body => cases hwaits
        | _ => rfl
      rw [hsame] at ih
      rcases ih hbody hwaits with ⟨hbody', hwaits', hpatient⟩ |
        ⟨before, x, rest, rfl, hpatient, hrest⟩ | ⟨before, x, after, rfl, hpatient, hrest⟩
      · exact .inl ⟨hbody', hwaits', hnone hpatient⟩
      · exact .inr (.inl ⟨_ :: before, x, rest, rfl, hnone hpatient, hrest⟩)
      · exact .inr (.inr ⟨_ :: before, x, after, rfl, hnone hpatient, hrest⟩)

/-- A branch that runs got its permit in a turn of its own, and has run since. -/
theorem Course.of_running (hcourse : Course ordered pool i (.fresh a) w h (.running b) u) :
    ∃ before x own, h = before ++ .own [(pool, i)] x x :: own ∧ Patient pool i before ∧
      x.isClosed pool = false ∧ Run ordered a x (view pool i own) b u := by
  rcases hcourse.of_waiting rfl rfl with ⟨_, hwaits, _⟩ | ⟨before, x, own, rfl, hpatient, hopen, hrest⟩ |
    ⟨_, _, _, _, _, _, hs, _⟩
  · cases hwaits
  · rcases hrest.of_permit with ⟨b', hb, hrun⟩ | ⟨_, _, _, _, hs, _⟩
    · cases hb
      exact ⟨before, x, own, rfl, hpatient, hopen, hrun⟩
    · cases hs
  · cases hs

/-- A branch that has ended got its permit, ran to its end, and gave the permit back; or a closed pool has
refused it. -/
theorem Course.of_ended {o : Outcome} (hcourse : Course ordered pool i (.fresh a) w h (.ended o) u) :
    (∃ before x own y after,
      h = before ++ .own [(pool, i)] x x :: (own ++ .own [(pool, i)] y y :: after) ∧
        Patient pool i before ∧ Quiet pool i after ∧ x.isClosed pool = false ∧
        Run ordered a x (view pool i own) (.done o) y) ∨
    ∃ before x after, h = before ++ .own [(pool, i)] x x :: after ∧ Patient pool i before ∧
      Quiet pool i after ∧ x.isClosed pool = true ∧ o = .error .poolShutdown := by
  rcases hcourse.of_waiting rfl rfl with ⟨hbody, _, _⟩ | ⟨before, x, rest, rfl, hpatient, hopen, hrest⟩ |
    ⟨before, x, after, rfl, hpatient, hclosed, hs, hquiet⟩
  · cases hbody
  · rcases hrest.of_permit with ⟨_, hs, _⟩ | ⟨o', own, y, after, hs, rfl, hrun, hquiet⟩
    · cases hs
    · cases hs
      exact .inl ⟨before, x, own, y, after, rfl, hpatient, hquiet, hopen, hrun⟩
  · cases hs
    exact .inr ⟨before, x, after, rfl, hpatient, hquiet, hclosed, rfl⟩

/-! ### The first fault -/

/-- No branch has ended with a fault. -/
def Faultless (slots : List (Slot Activity)) : Prop :=
  ∀ (i : Nat) (fault : Fault), slots[i]? ≠ some (.ended (.error fault))

/-- **A branch is the first one that faults**: it ends with a fault when no branch has done so before. -/
def FirstFault (ordered : Prop) (t : Tally) (slots : List (Slot Activity)) (w : World) (h : List Turn)
    (i : Nat) (fault : Fault) : Prop :=
  ∃ h₁ h₂ x t₁ slots₁ t₂ slots₂, h = h₁ ++ .own [(t.pool, i)] x x :: h₂ ∧
    Lasting ordered t slots w h₁ t₁ slots₁ x ∧ Faultless slots₁ ∧
    Lasting ordered t₁ slots₁ x [.own [(t.pool, i)] x x] t₂ slots₂ x ∧
    slots₂[i]? = some (.ended (.error fault))

/-- What there is to be read holds a fault, and nothing but reports before it. -/
def Foremost (t : Tally) (i : Nat) (fault : Fault) : Prop :=
  ∃ before after, t.arrivals = before ++ .ok (i, .error fault) :: after ∧
    ∀ arrival ∈ before, ∃ j r, arrival = .ok (j, .ok r)

theorem arrivals_of_faultless (htracks : t.Tracks slots) (hfaultless : Faultless slots) :
    ∀ arrival ∈ t.arrivals, ∃ j r, arrival = .ok (j, .ok r) := by
  intro arrival hmem
  obtain ⟨j, o, rfl, hended⟩ := htracks.arrived hmem
  cases o with
  | error fault => exact (hfaultless j fault hended).elim
  | ok r => exact ⟨j, r, rfl⟩

/-- What a branch brings in its turn is read after all the rest. -/
theorem BranchMove.arrivals (hmove : BranchMove ordered i way t s w t' s' v) :
    t'.arrivals = t.arrivals ++ Tally.arrivalOf i s' := by
  cases hmove with
  | dealt hdealt => exact hdealt.arrivals_eq
  | works => exact (List.append_nil _).symm
  | finishes => rfl

/-- A fault stays the first one that is to be read. -/
theorem Lasting.foremost {fault : Fault} (hlast : Lasting ordered t slots w h t' slots' u)
    (hforemost : Foremost t i fault) : Foremost t' i fault := by
  induction hlast with
  | stop => exact hforemost
  | @turn j _ _ _ _ _ _ _ s' _ _ _ _ _ _ hmove _ ih =>
      obtain ⟨before, after, harrivals, hbefore⟩ := hforemost
      refine ih ⟨before, after ++ Tally.arrivalOf j s', ?_, hbefore⟩
      rw [hmove.arrivals, harrivals, List.append_assoc, List.cons_append]
  | read _ harrivals hverdict _ ih =>
      obtain ⟨before, after, heq, hbefore⟩ := hforemost
      rw [harrivals] at heq
      cases before with
      | nil =>
          cases heq
          cases hverdict
      | cons first before =>
          cases heq
          exact ih ⟨before, after, rfl, fun arrival hmem => hbefore arrival (List.mem_cons_of_mem _ hmem)⟩
  | other _ ih => exact ih hforemost
  | tick _ _ ih => exact ih hforemost

/-- No time passes while a fault is to be read. -/
theorem Lasting.ticks_of_fault {fault : Fault} (hlast : Lasting ordered t slots w h t' slots' u)
    (hmem : .ok (i, .error fault) ∈ t.arrivals) : ticks h = 0 := by
  induction hlast with
  | stop => rfl
  | turn _ _ hmove _ ih => exact ih (by rw [hmove.arrivals]; exact List.mem_append_left _ hmem)
  | read _ harrivals hverdict _ ih =>
      rw [harrivals] at hmem
      rcases List.mem_cons.mp hmem with rfl | hmem
      · cases hverdict
      · exact ih hmem
  | other _ ih => exact ih hmem
  | tick hsettled =>
      rw [hsettled.2.1] at hmem
      cases hmem

/-- **Up to a first fault there is none**, and then it is the first one that is to be read. -/
theorem Lasting.first_fault (hlast : Lasting ordered t slots w h t' slots' u)
    (htracks : t.Tracks slots) (hfaultless : Faultless slots) :
    Faultless slots' ∨ ∃ i fault, FirstFault ordered t slots w h i fault ∧ Foremost t' i fault := by
  induction hlast with
  | stop => exact .inl hfaultless
  | @turn i way t t₁ t'' slots slots'' s s₁ w v u h hturn hslot hmove hlast ih =>
      by_cases hfault : ∃ fault, s₁ = .ended (.error fault)
      · obtain ⟨fault, rfl⟩ := hfault
        have hway : way = [] ∧ v = w := by
          cases hmove
          · exact ⟨rfl, rfl⟩
          · exact ⟨rfl, rfl⟩
        obtain ⟨rfl, rfl⟩ := hway
        have hlt : i < slots.length := (List.getElem?_eq_some_iff.mp hslot).1
        refine .inr ⟨i, fault, ⟨[], h, v, t, slots, t₁, _, rfl, .stop, hfaultless,
          .turn hturn hslot hmove .stop, by simp [hlt]⟩,
          hlast.foremost ⟨t.arrivals, [], hmove.arrivals, arrivals_of_faultless htracks hfaultless⟩⟩
      · have hstill : Faultless (slots.set i s₁) := by
          intro j fault hended
          by_cases hj : j = i
          · subst hj
            obtain ⟨_, heq⟩ : j < slots.length ∧ s₁ = .ended (.error fault) := by
              simpa [List.getElem?_set] using hended
            exact hfault ⟨fault, heq⟩
          · rw [List.getElem?_set_ne (Ne.symm hj)] at hended
            exact hfaultless j fault hended
        rcases ih (hmove.tracks htracks hslot) hstill with hnone | ⟨j, fault, hfirst, hforemost⟩
        · exact .inl hnone
        · obtain ⟨h₁, h₂, x, t₂, slots₂, t₃, slots₃, rfl, hbefore, hrest⟩ := hfirst
          rw [hmove.pool]
          exact .inr ⟨j, fault, ⟨_ :: h₁, h₂, x, t₂, slots₂, t₃, slots₃, rfl,
            .turn hturn hslot hmove hbefore, hmove.pool ▸ hrest⟩, hforemost⟩
  | read hturn harrivals hverdict _ ih =>
      rcases ih (htracks.read harrivals hverdict) hfaultless with hnone | ⟨j, fault, hfirst, hforemost⟩
      · exact .inl hnone
      · obtain ⟨h₁, h₂, x, t₂, slots₂, t₃, slots₃, rfl, hbefore, hrest⟩ := hfirst
        exact .inr ⟨j, fault, ⟨_ :: h₁, h₂, x, t₂, slots₂, t₃, slots₃, rfl,
          .read hturn harrivals hverdict hbefore, hrest⟩, hforemost⟩
  | other _ ih =>
      rcases ih htracks hfaultless with hnone | ⟨j, fault, hfirst, hforemost⟩
      · exact .inl hnone
      · obtain ⟨h₁, h₂, x, t₂, slots₂, t₃, slots₃, rfl, hbefore, hrest⟩ := hfirst
        exact .inr ⟨j, fault, ⟨_ :: h₁, h₂, x, t₂, slots₂, t₃, slots₃, rfl, .other hbefore, hrest⟩,
          hforemost⟩
  | tick hsettled _ ih =>
      have hstill : Faultless (elapseSlots 1 _) := fun j fault hended =>
        hfaultless j fault (elapse_eq_ended.mp hended)
      rcases ih (tracks_elapse htracks 1) hstill with hnone | ⟨j, fault, hfirst, hforemost⟩
      · exact .inl hnone
      · obtain ⟨h₁, h₂, x, t₂, slots₂, t₃, slots₃, rfl, hbefore, hrest⟩ := hfirst
        exact .inr ⟨j, fault, ⟨_ :: h₁, h₂, x, t₂, slots₂, t₃, slots₃, rfl, .tick hsettled hbefore, hrest⟩,
          hforemost⟩

/-- **What a split ends with**: the reports of all branches, which have all ended with one, or the first
fault. -/
theorem Lasting.ending {reading : Reading} (hlast : Lasting ordered t slots w h t' slots' u)
    (htracks : t.Tracks slots) (hfaultless : Faultless slots) (hend : Ending ordered t' slots' reading) :
    (∃ rs : List Report, reading = .ok (rs.map some) ∧ slots' = rs.map fun r => .ended (.ok r)) ∨
    ∃ i fault, reading = .error (i, fault) ∧ FirstFault ordered t slots w h i fault := by
  have htracks' := hlast.tracks htracks
  cases hend with
  | leave harrivals hended =>
      obtain ⟨rs, hreports, hslots⟩ := htracks'.all_reports harrivals hended
      exact .inl ⟨rs, by rw [hreports], hslots⟩
  | abort _ harrivals hverdict =>
      rcases hlast.first_fault htracks hfaultless with hnone | ⟨i, fault, hfirst, hforemost⟩
      · obtain ⟨j, r, rfl⟩ := arrivals_of_faultless htracks' hnone _ (harrivals ▸ List.mem_cons_self)
        cases hverdict
      · obtain ⟨before, after, heq, hbefore⟩ := hforemost
        rw [harrivals] at heq
        cases before with
        | nil =>
            cases heq
            cases hverdict
            exact .inr ⟨i, fault, rfl, hfirst⟩
        | cons first before =>
            cases heq
            obtain ⟨j, r, rfl⟩ := hbefore _ List.mem_cons_self
            cases hverdict

end Activity

end Runsheet
