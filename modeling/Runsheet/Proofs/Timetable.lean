import Runsheet.Proofs.FanOut
import Runsheet.Proofs.Steadiness

/-!
# The timetable of a batch

Branches that depend on keys of their own, and touch no others, each take a time, give a report and leave
values that are known before the batch begins.  Their `Timetable` says which.  Every batch of the branches
keeps to it, in whatever order they ask for their permits and have their turns.

* `Underway` — the split of the branches after a history;
* `Underway.spared` — the branches leave each other alone;
* `Underway.at_end`, `Underway.settles` — what a branch has ended with, and that it waits until then;
* `Underway.roster` — the roster of the batch, if the branches ask in the order of their numbers;
* `Run.batch_keeps` — a batch keeps to its timetable.
-/

namespace Runsheet

/-- The worlds differ under the given keys and in the pools at and below the root alone. -/
structure Touches (keys : String → Prop) (root : Pool) (w v : World) : Prop where
  values {key : String} : ¬ keys key → v.context.get? key = w.context.get? key
  closed {p : Pool} : ¬ root <:+ p → v.isClosed p = w.isClosed p

theorem Touches.refl {keys : String → Prop} {root : Pool} (w : World) : Touches keys root w w :=
  ⟨fun _ => rfl, fun _ => rfl⟩

/-- The keys of one unit that no other unit has. -/
def OwnKeys (keys : Nat → String → Prop) (i : Nat) (key : String) : Prop :=
  keys i key ∧ ∀ j, j ≠ i → ¬ keys j key

section

variable {keys : Nat → String → Prop} {place : Pool} {i j : Nat} {w v : World}

/-- What touches the keys of one unit alone leaves other keys alone, and the pools of other units. -/
theorem Touches.elsewhere {others : String → Prop}
    (htouches : Touches (OwnKeys keys j) (j :: place) w v) (hij : j ≠ i)
    (hothers : ∀ key, others key → ¬ OwnKeys keys j key) : Alike others (i :: place) w v := by
  constructor
  · intro key hkey
    exact htouches.values (hothers key hkey)
  · intro p hi
    apply htouches.closed
    intro hj
    exact hij (place_unique hj hi)

end

/-- Worlds that are alike in everything are alike to every unit. -/
theorem Alike.part {w v : World} (halike : Alike (fun _ => True) [] w v) (keys : String → Prop)
    (root : Pool) : Alike keys root w v :=
  ⟨fun _ => halike.values trivial, fun _ => halike.closed List.nil_suffix⟩

namespace Activity

/-- The branches of a batch, and what is known of them before they begin: the keys that each depends on,
how long it takes, what it reports, and a world with the values that it leaves. -/
structure Timetable where
  keys : Nat → String → Prop
  place : Pool
  threads : Nat
  branches : List Activity
  start : World
  duration : Nat → Nat
  report : Nat → Report
  last : Nat → World
  opened : start.isClosed place = false
  takes {i : Nat} {a : Activity} : branches[i]? = some a →
    Takes (keys i) (i :: place) start a (duration i) (report i) (last i)
  touches {i : Nat} {a : Activity} : branches[i]? = some a →
    Throughout (fun f _ => ∀ w, Touches (OwnKeys keys i) (i :: place) w (f w)) (fun _ => True) a

namespace Timetable

variable (T : Timetable)

/-- The reports, in the order of the branches. -/
def reports : List Report :=
  (List.range T.branches.length).map T.report

/-- A time in which all branches can be done: as many rounds of the longest branch as the permits allow. -/
def bound : Nat :=
  (T.branches.length ⌈/⌉ threadsOf T.threads) * (Finset.range T.branches.length).sup T.duration

/-- The values that the branches leave: those of the branch whose key it is, and those of the beginning
under all other keys. -/
structure Values (u : World) : Prop where
  left {i : Nat} {key : String} : i < T.branches.length → T.keys i key →
    u.context.get? key = (T.last i).context.get? key
  untouched {key : String} : (∀ i < T.branches.length, ¬ T.keys i key) →
    u.context.get? key = T.start.context.get? key

/-- **The split of the branches is under way**: it has lasted for a history in which nobody else has had a
turn, from a world like that of the timetable on. -/
structure Underway (x : World) (h : List Turn) (t : Tally) (slots : List (Slot Activity)) (u : World) :
    Prop where
  lasting : Lasting False (.opening T.place (threadsOf T.threads) T.branches.length)
    (T.branches.map .fresh) x h t slots u
  alone : Alone h
  begun : Alike (fun _ => True) [] T.start x

/-- Before it asks for its permit, a branch is as it was given. -/
theorem fresh {i : Nat} {a : Activity} (hbranch : T.branches[i]? = some a) :
    (T.branches.map .fresh : List (Slot Activity))[i]? = some (.fresh a) := by
  rw [List.getElem?_map, hbranch]
  rfl

/-- No branch closes the pool. -/
theorem spares_pool : SparedBy T.place (T.branches.map .fresh) := by
  intro s hmem a ha
  obtain ⟨branch, hbranch, rfl⟩ := List.mem_map.mp hmem
  cases ha
  obtain ⟨i, hi⟩ := List.mem_iff_getElem?.mp hbranch
  refine (T.touches hi).imp fun f _ hf w hopen => ?_
  have hfar : ¬ (i :: T.place) <:+ T.place := fun hsuffix => by
    have hle := hsuffix.length_le
    rw [List.length_cons] at hle
    omega
  rw [(hf w).closed hfar]
  exact hopen

end Timetable

variable {T : Timetable} {a b c : Activity} {w v u x : World} {h g : List Turn} {i : Nat}
variable {t : Tally} {slots : List (Slot Activity)} {s : Slot Activity} {o : Outcome}
variable {next : Reading → Activity} {reading : Reading} {others : String → Prop}

/-- While a branch does no work, its siblings change nothing for it. -/
theorem Aside.alike {pool : Pool} {root : Pool} (haside : Aside (Alike others root) pool i h)
    (halone : Alone h) (hrun : Run False a v h b w) (hpatient : Patient pool i h) :
    Alike others root v w :=
  haside.lifts hrun hpatient (fun y z hother => (halone y z hother).elim) .refl
    (fun hl hr => hl.trans hr) fun w => alike_wait_right.mpr (.refl w)

/-! ### A split under way -/

namespace Timetable.Underway

section

variable (hsplit : T.Underway x h t slots u)
include hsplit

theorem pool : t.pool = T.place :=
  hsplit.lasting.pool

/-- As a run, which nothing follows. -/
theorem run : Run False (.fork (.opening T.place (threadsOf T.threads) T.branches.length)
    (T.branches.map .fresh) fun _ => .never) x h (.fork t slots fun _ => .never) u :=
  hsplit.lasting.run

theorem length : slots.length = T.branches.length := by
  rw [hsplit.lasting.length, List.length_map]

theorem exists_branch (hslot : slots[i]? = some s) : ∃ a, T.branches[i]? = some a := by
  have hlt := (List.getElem?_eq_some_iff.mp hslot).1
  rw [hsplit.length] at hlt
  exact ⟨T.branches[i], List.getElem?_eq_getElem hlt⟩

/-- The pool is open when the branches begin. -/
theorem opened : x.isClosed T.place = false := by
  rw [hsplit.begun.closed List.nil_suffix]
  exact T.opened

/-- **What the other branches do** leaves keys alone that are none of theirs. -/
theorem aside (hothers : ∀ j < T.branches.length, j ≠ i → ∀ key, others key → ¬ OwnKeys T.keys j key) :
    Aside (Alike others (i :: T.place)) T.place i h := by
  have hsiblings : ∀ j s a, j ≠ i → (T.branches.map .fresh : List (Slot Activity))[j]? = some s →
      s.body? = some a →
      Throughout (fun f _ => ∀ w, Alike others (i :: T.place) w (f w)) (fun _ => True) a := by
    intro j s a hij hslot hbody
    rw [List.getElem?_map, Option.map_eq_some_iff] at hslot
    obtain ⟨branch, hbranch, rfl⟩ := hslot
    cases hbody
    have hlt : j < T.branches.length := (List.getElem?_eq_some_iff.mp hbranch).1
    exact (T.touches hbranch).imp fun f _ hf w => (hf w).elsewhere hij (hothers j hlt hij)
  exact hsplit.lasting.aside hsiblings (fun f next hf => hf) .refl

/-- The branches leave each other's keys alone. -/
theorem aside_branch (i : Nat) : Aside (Alike (T.keys i) (i :: T.place)) T.place i h :=
  hsplit.aside fun _ _ hij _ hkey hown => hown.2 i (Ne.symm hij) hkey

/-- What a branch sees of others leaves its keys alone. -/
theorem spared (i : Nat) : Spared (T.keys i) (i :: T.place) (view T.place i h) :=
  fun _ _ hmem => (hsplit.aside_branch i).view (fun y z hother => (hsplit.alone y z hother).elim) hmem

end

/-- A branch that gets its permit finds what it depends on as it was in the beginning. -/
theorem at_permit {before after : List Turn} {y : World}
    (hsplit : T.Underway x (before ++ .own [(T.place, i)] y y :: after) t slots u)
    (hpatient : Patient T.place i before) :
    Alike (T.keys i) (i :: T.place) T.start y ∧
      Spared (T.keys i) (i :: T.place) (view T.place i after) := by
  obtain ⟨_, _, hbefore, _⟩ := hsplit.run.split_own
  have hbegun := hsplit.begun.part (T.keys i) (i :: T.place)
  have haside := (aside_append.mp (hsplit.aside_branch i)).1
  refine ⟨hbegun.trans (haside.alike (alone_append.mp hsplit.alone).1 hbefore hpatient), ?_⟩
  have hspared := hsplit.spared i
  rw [view_append, view_cons] at hspared
  exact (spared_append.mp hspared).2.tail

section

variable (hsplit : T.Underway x h t slots u)
include hsplit

/-- **A branch that has ended** has ended with its report and left its values. -/
theorem at_end (hbranch : T.branches[i]? = some a) (hslot : slots[i]? = some (.ended o)) :
    o = .ok (T.report i) ∧ Alike (T.keys i) (i :: T.place) (T.last i) u := by
  obtain ⟨before, y, own, z, after, rfl, hpatient, hquiet, hrun⟩ :=
    hsplit.lasting.course_ended T.spares_pool hsplit.opened hsplit.alone.kept
      (T.fresh hbranch) hslot
  obtain ⟨hbegun, hspared⟩ := hsplit.at_permit hpatient
  rw [view_append] at hspared
  obtain ⟨ho, _, hlast⟩ :=
    (T.takes hbranch).ends hbegun (spared_append.mp hspared).1 hrun
  obtain ⟨_, _, _, _, hrest⟩ := hsplit.run.split_own
  obtain ⟨_, _, _, _, hafter⟩ := hrest.split_own
  have haside : Aside (Alike (T.keys i) (i :: T.place)) T.place i after := fun way p q hmem =>
    hsplit.aside_branch i way p q (by simp [hmem])
  have halone : Alone after := fun p q hmem => hsplit.alone p q (by simp [hmem])
  exact ⟨ho, hlast.trans (haside.alike halone hafter hquiet.patient)⟩

/-- **A branch that has not ended** waits for time to pass wherever it stands still. -/
theorem settles (hbranch : T.branches[i]? = some a) (hslot : slots[i]? = some (.running b))
    (hstill : Still b) : Settled b := by
  obtain ⟨_, hs, hcourse⟩ := hsplit.lasting.course (T.fresh hbranch)
  rw [hslot] at hs
  cases hs
  obtain ⟨before, y, own, rfl, hpatient, _, hrun⟩ := hcourse.of_running
  obtain ⟨hbegun, hspared⟩ := hsplit.at_permit hpatient
  exact ((T.takes hbranch).waits hbegun hspared hrun hstill).1

/-- No branch has faulted. -/
theorem faultless : Faultless slots := by
  intro i fault hslot
  obtain ⟨a, hbranch⟩ := hsplit.exists_branch hslot
  have hok := (hsplit.at_end hbranch hslot).1
  cases hok

/-- The split waits for time to pass wherever it stands still. -/
theorem settled (hstill : Still (.fork t slots next)) : Settled (.fork t slots next) := by
  refine ⟨restingSlots_iff.mpr fun s hs => ?_, hstill.2⟩
  obtain ⟨i, hi⟩ := List.mem_iff_getElem?.mp hs
  have hcalm := hstill.1.calm hi
  cases s with
  | fresh b => exact hcalm.elim
  | queued b | ended o => trivial
  | running b =>
      obtain ⟨a, hbranch⟩ := hsplit.exists_branch hi
      exact hsplit.settles hbranch hi hcalm

/-! ### How long it takes -/

/-- A split under way keeps a ledger: no branch is ever refused. -/
theorem booked : Booked False T.branches (threadsOf T.threads) h t slots u := by
  have hopening : Booked False T.branches (threadsOf T.threads) []
      (.opening T.place (threadsOf T.threads) T.branches.length) (T.branches.map .fresh) x :=
    ⟨[], fun _ => 0, fun _ => 0, .opening (threadsOf_pos T.threads) nofun rfl⟩
  rcases hsplit.lasting.booked hopening with hbooked | ⟨_, _, _, _, _, _, _, _, hfault⟩
  · exact hbooked
  · exact (hfault hsplit.faultless).elim

/-- **A branch holds its permit** no longer than the time that it takes, and for that time when it has
ended. -/
theorem tenure {start time : Nat} (hbranch : T.branches[i]? = some a)
    (htenure : Tenure False t.pool i a start time h s u) :
    time ≤ T.duration i ∧ ∀ o, s = .ended o → time = T.duration i := by
  rw [hsplit.pool] at htenure
  cases htenure with
  | holds hpatient hstart hrun htime =>
      obtain ⟨hbegun, hspared⟩ := hsplit.at_permit hpatient
      have hle := (T.takes hbranch).ticks_le hbegun hspared hrun
      rw [ticks_view, htime] at hle
      exact ⟨hle, nofun⟩
  | past hpatient hstart hrun htime hafter =>
      obtain ⟨hbegun, hspared⟩ := hsplit.at_permit hpatient
      rw [view_append] at hspared
      obtain ⟨_, hticks, _⟩ := (T.takes hbranch).ends hbegun (spared_append.mp hspared).1 hrun
      rw [ticks_view, htime] at hticks
      exact ⟨Nat.le_of_eq hticks, fun _ _ => hticks⟩

/-- No more time passes than the rounds of the longest branch. -/
theorem ticks_le : ticks h ≤ T.bound := by
  obtain ⟨order, start, time, hledger⟩ := hsplit.booked
  refine hledger.ticks_le fun k hk => ?_
  obtain ⟨a, s, hbranch, _, htenure⟩ := hledger.begun (List.getElem?_eq_getElem hk)
  have hlt : order[k] < T.branches.length := (List.getElem?_eq_some_iff.mp hbranch).1
  exact Nat.le_trans (hsplit.tenure hbranch htenure).1 (Finset.le_sup (Finset.mem_range.mpr hlt))

end

/-! ### How it ends -/

/-- **A split that ends** ends with the reports of all branches. -/
theorem ending (hsplit : T.Underway x h t slots u) (hend : Ending False t slots reading) :
    reading = .ok (T.reports.map some) ∧ slots = T.reports.map fun r => .ended (.ok r) := by
  have hnone : Faultless (T.branches.map .fresh) := by
    intro i fault hslot
    rw [List.getElem?_map, Option.map_eq_some_iff] at hslot
    obtain ⟨_, _, heq⟩ := hslot
    cases heq
  rcases hsplit.lasting.ending (Tally.tracks_opening ..) hnone hend with ⟨rs, rfl, rfl⟩ |
    ⟨i, fault, rfl, h₁, h₂, y, t₁, slots₁, t₂, slots₂, rfl, hbefore, _, hturn, hfault⟩
  · obtain rfl : rs = T.reports := by
      apply List.ext_getElem?
      intro i
      have hlength := hsplit.length
      rw [List.length_map] at hlength
      cases hr : rs[i]? with
      | none =>
          have hle := List.getElem?_eq_none_iff.mp hr
          exact (List.getElem?_eq_none (by simp [reports]; omega)).symm
      | some r =>
          have hslot : (rs.map fun r => (.ended (.ok r) : Slot Activity))[i]? =
              some (.ended (.ok r)) := by simp [hr]
          obtain ⟨a, hbranch⟩ := hsplit.exists_branch hslot
          have hlt : i < T.branches.length := (List.getElem?_eq_some_iff.mp hbranch).1
          have hreport := (hsplit.at_end hbranch hslot).1
          cases hreport
          simp [reports, hlt]
    exact ⟨rfl, rfl⟩
  · rw [List.append_cons] at hsplit
    have hfirst : T.Underway x (h₁ ++ [.own [(T.place, i)] y y]) t₂ slots₂ y :=
      ⟨hbefore.append hturn, (alone_append.mp hsplit.alone).1, hsplit.begun⟩
    exact (hfirst.faultless i fault hfault).elim

section

variable (hsplit : T.Underway x h t (T.reports.map fun r => .ended (.ok r)) u)
include hsplit

/-- When all branches have ended, they have left their values, and nothing else has changed. -/
theorem values : T.Values u where
  left {i key} hi hkey := by
    have hbranch : T.branches[i]? = some T.branches[i] := List.getElem?_eq_getElem hi
    have hslot : (T.reports.map fun r => (.ended (.ok r) : Slot Activity))[i]? =
        some (.ended (.ok (T.report i))) := by simp [reports, hi]
    exact (hsplit.at_end hbranch hslot).2.values hkey
  untouched {key} hkey := by
    -- Nobody's keys are spared like those of a branch that has no turns.
    have haside : Aside (Alike (· = key) (T.branches.length :: T.place)) T.place T.branches.length h := by
      refine hsplit.aside fun j hj _ _ heq hown => ?_
      subst heq
      exact hkey j hj hown.1
    have hidle : Patient T.place T.branches.length h := by
      intro way y z hmem
      rcases hsplit.lasting.turns hmem with ⟨hway, _⟩ | ⟨j, rest, hway, hj⟩
      · cases hway
      · obtain ⟨_, rfl⟩ := Prod.mk.inj (List.cons.inj hway).1
        rw [List.length_map] at hj
        exact (Nat.lt_irrefl _ hj).elim
    have halike := haside.alike hsplit.alone hsplit.run hidle
    rw [halike.values rfl]
    exact hsplit.begun.values trivial

/-- **The roster of the batch**, if the branches have asked for their permits in the order of their
numbers. -/
theorem roster {n : Nat} (hasked : asked T.place h = List.range n) : ∃ start time,
    Roster (threadsOf T.threads) T.branches.length (ticks h) start time ∧
      ∀ i < T.branches.length, time i = T.duration i := by
  obtain ⟨order, start, time, hledger⟩ := hsplit.booked
  obtain ⟨hperm, horder⟩ := hledger.complete
  rw [hsplit.pool, hasked] at horder
  subst horder
  have hlength := hperm.length_eq
  rw [List.length_range, List.length_range] at hlength
  have hroster := hledger.roster
  rw [List.length_range, hlength] at hroster
  refine ⟨start, time, hroster, fun i hi => ?_⟩
  obtain ⟨a, s, hbranch, hs, htenure⟩ := hledger.begun (List.getElem?_range (hlength ▸ hi))
  rw [List.getElem?_map, Option.map_eq_some_iff] at hs
  obtain ⟨r, _, rfl⟩ := hs
  exact (hsplit.tenure hbranch htenure).2 _ rfl

end

end Timetable.Underway

/-! ### The run of a batch -/

variable {name : String} {limit : Nat}

/-- After its branches a batch stores nothing. -/
theorem Run.conclude_keeps {pool : Pool} {count : String}
    (hrun : Run False (conclude name pool count reading) w h c u) (halone : Alone h) :
    u.context = w.context := by
  have hfits : Fits (fun f _ => ∀ w, (f w).context = w.context) fun _ => True :=
    { bind := fun _ hf => hf
      note := fun _ _ _ _ => rfl
      pause := fun _ _ => rfl
      enter := fun _ _ _ _ => rfl
      leave := fun _ _ _ _ => rfl }
  have hturns : ∀ way x y, .own way x y ∈ h → y.context = x.context :=
    (Throughout.conclude hfits trivial reading).own_turns (R := fun x y => y.context = x.context)
      (fun f next hf => hf) (fun _ => rfl) hrun
  exact hrun.lifts (R := fun x y => y.context = x.context) (fun _ => rfl) (fun hl hr => hr.trans hl)
    hturns (fun x y hmem => (halone x y hmem).elim) fun _ => rfl

/-- **A batch on an open pool** is about to split, its split is under way, or it has ended with the reports
of all branches. -/
theorem Run.of_timetable
    (hrun : Run False (batch name T.place T.threads limit T.branches) T.start h c u)
    (halone : Alone h) :
    ((∃ f next, c = .act f next) ∧ ticks h ≤ T.bound) ∨
    (∃ x g t slots next, c = .fork t slots next ∧ ticks h = ticks g ∧ T.Underway x g t slots u) ∨
    (c = .done (.ok (.parallel T.reports)) ∧ ∃ x g t, ticks h = ticks g ∧
      asked T.place h = asked T.place g ∧ T.Values u ∧
      ∃ z, T.Underway x g t (T.reports.map fun r => .ended (.ok r)) z) := by
  rcases hrun.of_batch with ⟨hact, hzero, _⟩ | ⟨h₁, y, h₂, rfl, hidle, hbefore, hclosed, _⟩ |
    ⟨h₁, y, h₂, x, h₃, rfl, _, _, _, hzero, hunsplit, hsilent, hsplit, hfork⟩
  · exact Or.inl ⟨hact, by omega⟩
  · have hstill : y.isClosed T.place = false :=
      hbefore.kept_idle (P := fun w => w.isClosed T.place = false) hidle
        (alone_append.mp halone).1.kept T.opened
    rw [hclosed] at hstill
    cases hstill
  obtain ⟨halone₁, halone₂⟩ := alone_append.mp halone
  have hbegun : Alike (fun _ => True) [] T.start x := by
    refine hsplit.lifts .refl (fun hl hr => hl.trans hr) (fun way y z hmem => ?_)
      (fun y z hmem => (halone₁ y z hmem).elim) fun w => alike_wait_right.mpr (.refl w)
    rw [← hsilent way y z hmem]
    exact ⟨fun _ => rfl, fun _ => rfl⟩
  rcases hfork.of_fork with ⟨t, slots, rfl, hlast⟩ |
    ⟨g, g', z, reading, t, slots, rfl, hlast, hend, hrest⟩
  · refine Or.inr (Or.inl ⟨x, h₃, t, slots, _, rfl, ?_, hlast, halone₂, hbegun⟩)
    rw [ticks_append, hzero, Nat.zero_add]
  · obtain ⟨halone₃, halone₄⟩ := alone_append.mp halone₂
    have hunder : T.Underway x g t slots z := ⟨hlast, halone₃, hbegun⟩
    obtain ⟨rfl, rfl⟩ := hunder.ending hend
    rcases hrest.of_conclude with ⟨f, next, rfl⟩ | ⟨rfl, hlate, hunsplit', _⟩
    · refine Or.inl ⟨⟨f, next, rfl⟩, ?_⟩
      have hbefore := hunder.ticks_le
      have hafter := Bounded.conclude _ _ _ _ _ hrest
      simp only [ticks_append, ticks_own, hzero]
      omega
    · rw [concluded_reports]
      refine Or.inr (Or.inr ⟨rfl, x, g, t, ?_, ?_, ?_, z, hunder⟩)
      · rw [ticks_append, hzero, Nat.zero_add, ticks_append, ticks_own, hlate, Nat.add_zero]
      · rw [asked_after hunsplit, asked_unsplit (unsplit_own.mpr hunsplit')]
      · have hsame := hrest.conclude_keeps (alone_cons.mp halone₄).2
        have hvalues := hunder.values
        constructor
        · intro i key hi hkey
          rw [hsame]
          exact hvalues.left hi hkey
        · intro key hkey
          rw [hsame]
          exact hvalues.untouched hkey

/-- **A batch keeps to its timetable**: until it ends with the reports of all branches, it waits for time to
pass wherever it stands still, and that is over when all branches can be done. -/
theorem Run.batch_keeps
    (hrun : Run False (batch name T.place T.threads limit T.branches) T.start h c u)
    (halone : Alone h) :
    ticks h ≤ T.bound ∧ (Still c → Settled c) ∧
      ∀ o, c = .done o → o = .ok (.parallel T.reports) ∧ T.Values u := by
  rcases hrun.of_timetable halone with ⟨⟨f, next, rfl⟩, hle⟩ |
    ⟨x, g, t, slots, next, rfl, hticks, hsplit⟩ | ⟨rfl, x, g, t, hticks, _, hvalues, z, hsplit⟩
  · exact ⟨hle, False.elim, nofun⟩
  · exact ⟨hticks ▸ hsplit.ticks_le, hsplit.settled, nofun⟩
  · refine ⟨hticks ▸ hsplit.ticks_le, fun hstill => (not_resting_done hstill).elim, fun o ho => ?_⟩
    cases ho
    exact ⟨rfl, hvalues⟩

/-- **The roster of a batch** whose branches ask for their permits in the order of their numbers. -/
theorem Run.batch_roster
    (hrun : Run False (batch name T.place T.threads limit T.branches) T.start h (.done o) u)
    (halone : Alone h) (hsubmitted : Submitted T.place h) : ∃ start time,
    Roster (threadsOf T.threads) T.branches.length (ticks h) start time ∧
      ∀ i < T.branches.length, time i = T.duration i := by
  obtain ⟨n, hasked⟩ := hsubmitted
  rcases hrun.of_timetable halone with ⟨⟨f, next, hc⟩, _⟩ | ⟨_, _, _, _, _, hc, _⟩ |
    ⟨_, x, g, t, hticks, hsame, _, z, hsplit⟩
  · cases hc
  · cases hc
  · rw [hticks]
    exact hsplit.roster (hsame ▸ hasked)

end Activity

end Runsheet
