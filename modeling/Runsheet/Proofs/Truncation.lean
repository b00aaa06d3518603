import Runsheet.Proofs.FanOut
import Runsheet.Proofs.Regions

/-!
# A time-out is a truncation

What a limit does to a branch of a parallel flow, compared with the work of the branch alone, without a
limit and from the same context.  The branch looks at keys of its own, which no sibling touches.

At the very moment of the limit the work of the branch still does what it can do with its own hands, but
the branches of a parallel flow inside it are not waited for any more.

* `Run.batch_branch` — the history of a batch around one of its branches;
* `Run.limited_alone` — a branch under a limit does what it does alone, up to the limit;
* `branch_truncated` — the result: work that ends within the limit is not changed; from other work all
  that happens up to the limit has happened and stays, and nothing else ever happens.
-/

namespace Runsheet

namespace Activity

variable {ordered : Prop} {way : Way} {a b c : Activity} {w v u x y : World} {h g : List Turn}
variable {keys : String → Prop} {place : Pool} {i j : Nat}

/-! ### A branch in the history of its batch -/

/-- What a batch ends with gives what one of its branches ends with. -/
inductive Gives (i : Nat) : Outcome → Outcome → Prop
  | report {reports : List Report} {r : Report} (hreport : reports[i]? = some r) :
      Gives i (.ok (.parallel reports)) (.ok r)
  | fault {fault : Fault} : Gives i (.error (.branchFault i fault.message)) (.error fault)

/-- Others leave the region of the branch and the pool of its batch as they are. -/
def OthersLeave (keys : String → Prop) (place : Pool) (i : Nat) (h : List Turn) : Prop :=
  ∀ x y, .other x y ∈ h → Leaves keys (i :: place) x y ∧ y.isClosed place = x.isClosed place

theorem not_below_part : ¬ (i :: place) <:+ place := by
  intro hsuffix
  have hle := hsuffix.length_le
  rw [List.length_cons] at hle
  omega

/-- At the end of a split each branch has come to its own end, unless another one has faulted. -/
theorem Ending.gives {t : Tally} {slots : List (Slot Activity)} {reading : Reading}
    (hend : Ending ordered t slots reading) (htracks : t.Tracks slots) (hi : i < slots.length)
    (hfault : ∀ j fault, reading = .error (j, fault) → j = i) :
    ∃ r, slots[i]? = some (.ended r) ∧ Gives i (concluded reading) r := by
  cases hend with
  | leave harrivals hended =>
      obtain ⟨rs, hreports, rfl⟩ := htracks.all_reports harrivals hended
      rw [hreports, concluded_reports]
      have hlt : i < rs.length := by simpa using hi
      exact ⟨.ok rs[i], by simp [hlt], .report (List.getElem?_eq_getElem hlt)⟩
  | abort _ harrivals hverdict =>
      obtain ⟨j, o, rfl, hslot⟩ := htracks.arrived (harrivals ▸ List.mem_cons_self)
      cases o with
      | ok r => cases hverdict
      | error fault =>
          cases hverdict
          obtain rfl : j = i := hfault j fault rfl
          exact ⟨.error fault, hslot, .fault⟩

/-- **One of the branches** of a batch that ends, if no other branch faults: its turns are those in which
it asks for its permit, and those from its permit to its end, at which it gives the permit back. -/
theorem Run.batch_branch {name : String} {threads limit : Nat} {branches : List Activity}
    {o : Outcome} (hrun : Run ordered (batch name place threads limit branches) w h (.done o) u)
    (hspared : SparedBy place (branches.map .fresh)) (hopen : w.isClosed place = false)
    (hbranch : branches[i]? = some a)
    (hsiblings : ∀ j b, j ≠ i → branches[j]? = some b →
      Throughout (Away keys (i :: place)) (fun p => ¬ (i :: place) <:+ p) b)
    (hothers : OthersLeave keys place i h)
    (hfault : ∀ j message, o = .error (.branchFault j message) → j = i) :
    Aside (Leaves keys (i :: place)) place i h ∧
      ∃ before b held z after r,
        h = before ++ .own [(place, i)] b b :: (held ++ .own [(place, i)] z z :: after) ∧
        Patient place i before ∧ Quiet place i after ∧
        Run ordered a b (view place i held) (.done r) z ∧ Gives i o r := by
  have hP : ∀ f next, Away keys (i :: place) f next → ∀ w, Leaves keys (i :: place) w (f w) :=
    fun f next hf => hf
  have hkept : KeptOpen place h := fun x y hmem hx => (hothers x y hmem).2.trans hx
  obtain ⟨start, x, h₁, z, reading, t, slots, h₂, rfl, hunsplit, hsilent, hsplit, hlast, hend, rfl,
    hrest, hunsplit₂⟩ := hrun.of_open_batch hopen hkept
  have hstill : x.isClosed place = false := hsilent.stays_open hsplit hopen (kept_append.mp hkept).1
  have hkept₁ : KeptOpen place h₁ := (kept_append.mp (kept_append.mp hkept).2).1
  have hconclude : Throughout (Away keys (i :: place)) (fun p => ¬ (i :: place) <:+ p)
      (conclude name place (toString branches.length) reading) :=
    .conclude (fits_away _ _) not_below_part reading
  have hfirst : Aside (Leaves keys (i :: place)) place i start :=
    fun way x y hmem => Or.inr (.of_log (hsilent way x y hmem))
  have hslots : ∀ j (s : Slot Activity) b, j ≠ i → (branches.map Slot.fresh)[j]? = some s →
      s.body? = some b → Throughout (Away keys (i :: place)) (fun p => ¬ (i :: place) <:+ p) b := by
    intro j s b hij hslot hb
    rw [List.getElem?_map, Option.map_eq_some_iff] at hslot
    obtain ⟨b, hb', rfl⟩ := hslot
    cases hb
    exact hsiblings j b hij hb'
  have hbranches : Aside (Leaves keys (i :: place)) place i h₁ := hlast.aside hslots hP .refl
  have hlater : Aside (Leaves keys (i :: place)) place i (.own [] z z :: h₂) := by
    intro way x y hmem
    rcases List.mem_cons.mp hmem with heq | hmem
    · cases heq
      exact Or.inr (.refl _)
    · exact Or.inr (hconclude.own_turns hP .refl hrest way x y hmem)
  have htracks := hlast.tracks (Tally.tracks_opening place (threadsOf threads) branches)
  have hslot₀ : (branches.map .fresh : List (Slot Activity))[i]? = some (.fresh a) := by
    rw [List.getElem?_map, hbranch]
    rfl
  have hi : i < slots.length := by
    rw [hlast.length]
    exact (List.getElem?_eq_some_iff.mp hslot₀).1
  obtain ⟨r, hslot, hgives⟩ := hend.gives htracks hi (by
    rintro j fault rfl
    exact hfault j _ rfl)
  obtain ⟨before, b, held, y, after, rfl, hpatient, hquiet, hown⟩ :=
    hlast.course_ended hspared hstill hkept₁ hslot₀ hslot
  refine ⟨aside_append.mpr ⟨hfirst, aside_append.mpr ⟨hbranches, hlater⟩⟩, start ++ before, b, held, y,
    after ++ .own [] z z :: h₂, r, by simp [Tally.opening], ?_, ?_, hown, hgives⟩
  · exact patient_append.mpr ⟨Quiet.patient (hunsplit.quiet place i), hpatient⟩
  · exact quiet_append.mpr ⟨hquiet, quiet_cons.mpr ⟨by simp, hunsplit₂.quiet place i⟩⟩

/-! ### Work under a limit, alone -/

section

variable {limit index m : Nat} {label : String} {next : Option Outcome → Activity} {f : List Turn}

/-- What comes after the limit does not work under a limit. -/
theorem not_within_of_report {level : Level} {text : String} {r : Report} :
    ¬ Run ordered (note level text (report r)) w h (.within m b next) v := by
  intro hrun
  rcases Run.of_change hrun with ⟨hc, _⟩ | ⟨_, _, _, _, _, _, _, _, hrest⟩
  · cases hc
  · cases hrest.of_done.1

/-- While a limit has not cut off the work, the work has run. -/
theorem Run.of_limited_within (hlimit : limit ≠ 0)
    (hrun : Run ordered (limited limit index label a) w h (.within m b next) v) :
    Run ordered a w h b v ∧ ticks h ≤ limit := by
  rcases Run.of_limited hlimit hrun with ⟨b', _, hbody, hle, hc⟩ | ⟨_, _, _, _, _, _, _, _, _, hc, _⟩ |
    ⟨_, _, _, _, _, _, _, _, _, _, _, hrest⟩
  · cases hc
    exact ⟨hbody, hle⟩
  · cases hc
  · exact (not_within_of_report hrest).elim

/-- **Work under a limit beside others** does what the work does alone, if they leave its region as it is:
up to its end, or to where it waits with its own hands when the time is over. -/
theorem Run.limited_alone {root : Pool} {r : Outcome} (hlimit : limit ≠ 0)
    (hrun : Run ordered (limited limit index label a) w h (.done r) u)
    (ha : Throughout (Local keys root) (fun p => root <:+ p) a)
    (hothers : ∀ x y, .other x y ∈ h → Same keys root x y) :
    ∃ h₁ h₂ g b v m next, h = h₁ ++ h₂ ∧ ticks h₂ = 0 ∧ Silent h₂ ∧ Alone g ∧
      Run ordered a w g b v ∧ SameEffects keys root h₁ g ∧
      Same keys root (Activity.worldAfter w h₁) v ∧
      Run ordered (limited limit index label a) w g (.within m b next) v ∧
      ((b = .done r ∧ ticks g ≤ limit) ∨
        (AtRest b ∧ ticks g = limit ∧ r = .ok (lateReport label limit))) := by
  have hlimited : Throughout (Local keys root) (fun p => root <:+ p) (limited limit index label a) :=
    ha.limited (fits_local keys root)
  rcases Run.of_limited hlimit hrun with ⟨_, _, _, _, hc⟩ |
    ⟨h₁, h₂, o, x, next, rfl, hbody, hle, hwhole, hc, hidle⟩ |
    ⟨h₁, h₂, b, x, next, text, rfl, hbody, hrest, heq, hwhole, hend⟩
  · cases hc
  · cases hc
    obtain ⟨g, v, halone, hsolo, heffects, hsame⟩ := hwhole.solo hlimited
      (fun x y hmem => hothers x y (List.mem_append_left _ hmem)) (.refl w)
    rw [hwhole.worldAfter] at hsame
    obtain ⟨hbody', hle'⟩ := Run.of_limited_within hlimit hsolo
    exact ⟨h₁, _, g, _, v, _, next, rfl, by simp [hidle.ticks], silent_own.mpr ⟨rfl, hidle.silent⟩,
      halone, hbody', heffects, hsame, hsolo, Or.inl ⟨rfl, hle'⟩⟩
  · obtain ⟨rfl, hticks, hsilent⟩ := Run.of_report hend
    obtain ⟨g, v, halone, hsolo, heffects, hsame⟩ := hwhole.solo hlimited
      (fun x y hmem => hothers x y (List.mem_append_left _ hmem)) (.refl w)
    rw [hwhole.worldAfter] at hsame
    obtain ⟨hbody', _⟩ := Run.of_limited_within hlimit hsolo
    exact ⟨h₁, _, g, b, v, _, next, rfl, by simp [hticks], silent_own.mpr ⟨rfl, hsilent⟩, halone,
      hbody', heffects, hsame, hsolo, Or.inr ⟨hrest, heffects.ticks ▸ heq, rfl⟩⟩

/-- Of one history on the schedule, in which no one else has a turn, there is one end. -/
theorem Run.same_end (hb : Run True a w h b v) (hc : Run True a w h c u) (halone : Alone h) :
    b = c ∧ v = u := by
  have hlast {r : List Turn} {b c : Activity} {v u : World} (heq : h = h ++ r)
      (hrun : Run True b v r c u) : b = c ∧ v = u := by
    obtain rfl : r = [] := by simpa using heq
    cases hrun
    exact ⟨rfl, rfl⟩
  rcases hb.determined hc halone halone with ⟨r, heq, hrest⟩ | ⟨r, heq, hrest⟩
  · exact hlast heq hrest
  · obtain ⟨rfl, rfl⟩ := hlast heq hrest
    exact ⟨rfl, rfl⟩

/-- **On the schedule a limit cuts off work as soon as it waits** with its own hands when the time is
over. -/
theorem Run.limited_prompt (hlimit : limit ≠ 0) (halone : Alone (f ++ g))
    (hrun : Run True (limited limit index label a) w (f ++ g) (.within m b next) v)
    (hbody : Run True a w f c x) (hrest : AtRest c) (hticks : ticks f = limit) : g = [] := by
  obtain ⟨d, y, hbefore, hafter⟩ := hrun.split
  have hf := (alone_append.mp halone).1
  simp only [limited, limitOf?, hlimit, if_false] at hbefore
  rcases hbefore.of_within with ⟨c', hbody', _, rfl⟩ | ⟨_, _, o, _, _, _, _, _, hnext⟩ |
    ⟨_, _, _, _, _, _, _, _, _, hnext⟩
  · obtain ⟨rfl, rfl⟩ := hbody.same_end hbody' hf
    rw [hticks, Nat.sub_self] at hafter
    cases hafter with
    | stop => rfl
    | own hmove hlater =>
        cases hmove with
        | inside hturn => exact (hturn trivial rfl hrest).elim
        | inTime => exact hrest.elim
        | late => exact (not_within_of_report hlater).elim
    | other => exact ((alone_cons.mp (alone_append.mp halone).2).1 _ _ rfl).elim
    | tick hsettled => exact ((settled_within.mp hsettled).1 rfl).elim
  · obtain ⟨rfl, _⟩ := hnext.of_done
    cases hafter.of_done.1
  · exact (not_within_of_report (hnext.append hafter)).elim

/-- What waits with its own hands goes on when time has passed, or when a branch of its has a turn. -/
theorem AtRest.next_turn (hrest : AtRest a) (hmove : Move ordered way a w b v) : way ≠ [] := by
  induction hmove with
  | act => exact hrest.elim
  | wake => exact (hrest rfl).elim
  | inside _ _ ih => exact ih hrest.2
  | inTime => exact hrest.2.elim
  | late => exact (hrest.1 rfl).elim
  | deal | branch | finish => exact List.cons_ne_nil _ _
  | read _ harrivals => exact absurd (harrivals.symm.trans hrest.1) (List.cons_ne_nil _ _)
  | abort _ harrivals => exact absurd (harrivals.symm.trans hrest.1) (List.cons_ne_nil _ _)
  | leave _ hended =>
      obtain ⟨s, hs, hwaits⟩ := hrest.2
      rw [hended s hs] at hwaits
      cases hwaits

/-- The activity waits with its own hands when some time has passed. -/
def WaitsAt (ordered : Prop) (limit : Nat) (a : Activity) (w : World) : Prop :=
  ∃ f c x, Alone f ∧ Run ordered a w f c x ∧ ticks f = limit ∧ AtRest c

/-- **Work that does not end in time** waits with its own hands when the time is over, unless a part of it
goes on for ever and never waits. -/
theorem waitsAt_of_overdue (hlate : ∀ g r v, Alone g → Run True a w g (.done r) v → limit < ticks g) :
    WaitsAt True limit a w ∨ Spins a w := by
  have hpast {h : List Turn} {b : Activity} {v : World} (halone : Alone h) (hrun : Run True a w h b v)
      (hlt : limit < ticks h) : WaitsAt True limit a w := by
    obtain ⟨h₁, h₂, c, x, rfl, hticks, hbefore, hsettled⟩ := hrun.settled_at hlt
    exact ⟨h₁, c, x, (alone_append.mp halone).1, hbefore, hticks, hsettled.atRest⟩
  obtain ⟨h, b, v, halone, hrun, ⟨o, rfl⟩ | hticks | ⟨_, hspins⟩⟩ := Run.proceeds a w (limit + 1)
  · exact Or.inl (hpast halone hrun (hlate h o v halone hrun))
  · exact Or.inl (hpast halone hrun (by omega))
  · exact Or.inr ⟨h, b, v, halone, hrun, hspins⟩

end

/-! ### The branch in the history of its batch -/

/-- The history of a batch around one of its branches: before the branch gets its permit, with the permit
before the guard, at work, with the permit after the work, and after it has given the permit back; and
the worlds in which it gets its permit, in which its guard is looked at, and in which it gives the
permit back. -/
structure Span where
  before : List Turn
  begun : World
  ready : List Turn
  start : World
  work : List Turn
  rest : List Turn
  last : World
  after : List Turn

/-- The turns for as long as the branch holds its permit. -/
def Span.held (place : Pool) (i : Nat) (s : Span) : List Turn :=
  s.ready ++ .own [(place, i)] s.start s.start :: (s.work ++ s.rest)

/-- The span is the history, with all turns of the branch at their place: before its permit it only asks
for it, with its permit it does nothing outside its work but to look at its guard and to write to the
log, and no time passes then. -/
structure Span.Of (place : Pool) (i : Nat) (h : List Turn) (s : Span) : Prop where
  history : h = s.before ++ .own [(place, i)] s.begun s.begun ::
    (s.held place i ++ .own [(place, i)] s.last s.last :: s.after)
  patient : Patient place i s.before
  quiet : Quiet place i s.ready ∧ Quiet place i s.after
  silent : Silent (view place i s.rest)
  instant : ticks s.ready = 0 ∧ ticks s.rest = 0

/-- What a unit has done stays: under its keys are the values of the given world, and all entries that
were there after one of its turns are still there. -/
structure Stays (keys : String → Prop) (h : List Turn) (v u : World) : Prop where
  values {key : String} : keys key → u.context.get? key = v.context.get? key
  entries {way : Way} {x y : World} : .own way x y ∈ h → y.entries <:+ u.entries

/-- The branch has done what its work does alone, without a limit, in a history from the world in which
its guard passes; it has held its permit for that time, and what it has done stays. -/
structure Did (ordered : Prop) (e : Evaluator) (patience : Nat) (keys : String → Prop) (place : Pool)
    (i : Nat) (step : Step) (u : World) (s : Span) (g : List Turn) (b : Activity) (v : World) : Prop where
  alone : Alone g
  run : Run ordered (step.work e patience (i :: place)) s.start g b v
  effects : SameEffects keys (i :: place) (view place i s.work) g
  stays : Stays keys (view place i s.work) v u
  held : ticks (s.held place i) = ticks g

/-- **A time-out is a truncation.**  The branch is compared with its work alone, without a limit, in the
world in which its guard passes. -/
structure Truncated (ordered : Prop) (e : Evaluator) (patience : Nat) (keys : String → Prop)
    (limit : Nat) (place : Pool) (i : Nat) (step : Step) (h : List Turn) (o : Outcome) (u : World)
    (s : Span) : Prop where
  span : s.Of place i h
  /-- Whatever turns the branches take, the branch does what its work does alone in some history: up to its
  end, or to where it waits with its own hands when the limit has come. -/
  cut : ∃ g b v, Did ordered e patience keys place i step u s g b v ∧
    ((∃ r, b = .done r ∧ ticks g ≤ limit ∧ Gives i o r) ∨
      (AtRest b ∧ ticks g = limit ∧ Gives i o (.ok (lateReport step.label limit))))
  /-- On the schedule, work that ends within the limit gives its result and has its effects.  If it ends at
  the very limit, it must not wait with its own hands at that moment. -/
  inTime {g : List Turn} {r : Outcome} {v : World} : ordered → Alone g →
    Run ordered (step.work e patience (i :: place)) s.start g (.done r) v → ticks g ≤ limit →
    (∀ f c x, f <+: g → Run ordered (step.work e patience (i :: place)) s.start f c x →
      ticks f = limit → ¬ AtRest c) →
    Gives i o r ∧ Did ordered e patience keys place i step u s g (.done r) v
  /-- On the schedule, from work that waits with its own hands when the limit has come, all happens that
  happens alone up to that moment, and nothing else: neither what happens later nor what the branches of
  its own splits do at that moment. -/
  late : ordered → WaitsAt ordered limit (step.work e patience (i :: place)) s.start →
    Gives i o (.ok (lateReport step.label limit)) ∧
    ∃ g b v, Did ordered e patience keys place i step u s g b v ∧ AtRest b ∧ ticks g = limit ∧
      ∀ f c x, Alone f → Run ordered (step.work e patience (i :: place)) s.start f c x →
        f <+: g ∨ ∃ t q, f = g ++ t :: q ∧ (t = .tick ∨ ∃ part way x y, t = .own (part :: way) x y)
  /-- Work that ends later or never does so wait, unless it goes on for ever and never waits. -/
  overdue : ordered →
    (∀ g r v, Alone g → Run ordered (step.work e patience (i :: place)) s.start g (.done r) v →
      limit < ticks g) →
    WaitsAt ordered limit (step.work e patience (i :: place)) s.start ∨
      Spins (step.work e patience (i :: place)) s.start

/-- The work of a branch that comes to its end, as it sees the history. -/
theorem Run.span {e : Evaluator} {limit : Nat} {label : String} {s : Settings} {held : List Turn}
    {r : Outcome} (hlimit : limit ≠ 0)
    (hrun : Run ordered (branch e limit i label s a) w (view place i held) (.done r) v)
    (ha : Throughout (Local keys (i :: place)) (fun p => (i :: place) <:+ p) a)
    (hothers : ∀ x y, .other x y ∈ view place i held → Same keys (i :: place) x y) :
    ∃ ready start work rest, held = ready ++ .own [(place, i)] start start :: (work ++ rest) ∧
      Quiet place i ready ∧ Silent (view place i rest) ∧ ticks ready = 0 ∧ ticks rest = 0 ∧
      (s.holds e start.context = .ok true →
        ∃ g b v m next, Alone g ∧ Run ordered a start g b v ∧
          SameEffects keys (i :: place) (view place i work) g ∧
          Same keys (i :: place) (Activity.worldAfter start work) v ∧
          Run ordered (limited limit i label a) start g (.within m b next) v ∧
          ((b = .done r ∧ ticks g ≤ limit) ∨
            (AtRest b ∧ ticks g = limit ∧ r = .ok (lateReport label limit)))) := by
  rcases hrun.of_check with ⟨hc, _⟩ | ⟨h₁, x, h₂, hview, hidle, _, hguard⟩
  · cases hc
  obtain ⟨ready, rest, rfl, rfl, hrest⟩ := List.map_eq_append_iff.mp hview
  obtain ⟨t, rest, rfl, hseen, rfl⟩ := List.map_eq_cons_iff.mp hrest
  obtain rfl := seenBy_own hseen
  have hready := hidle.ticks
  rw [← view, ticks_view] at hready
  have hnot {other : Except ExpressionError Bool} (hother : s.holds e x.context = other)
      (hne : other ≠ .ok true) {q : Prop} : s.holds e x.context = .ok true → q := fun htrue =>
    (hne (hother.symm.trans htrue)).elim
  rcases hguard with ⟨_ | _, hguard, hnext⟩ | ⟨error, hguard, hc, hidle₂⟩
  · obtain ⟨_, hticks, hsilent⟩ := Run.of_report hnext
    rw [← view, ticks_view] at hticks
    exact ⟨ready, x, [], rest, rfl, hidle.quiet, hsilent, hready, hticks, hnot hguard (by simp)⟩
  · obtain ⟨k₁, k₂, g, b, v, m, next, hk, hticks, hsilent, halone, hbody, heffects, hsame, hwhole, hends⟩ :=
      Run.limited_alone hlimit hnext ha fun x y hmem => hothers x y (by
        rw [view_append, view_cons]
        exact List.mem_append_right _ (List.mem_cons_of_mem _ hmem))
    obtain ⟨work, rest, rfl, rfl, rfl⟩ := List.map_eq_append_iff.mp hk
    rw [← view, ticks_view] at hticks
    rw [← view, worldAfter_view] at hsame
    exact ⟨ready, x, work, rest, rfl, hidle.quiet, hsilent, hready, hticks, fun _ =>
      ⟨g, b, v, m, next, halone, hbody, heffects, hsame, hwhole, hends⟩⟩
  · have hticks := hidle₂.ticks
    rw [← view, ticks_view] at hticks
    exact ⟨ready, x, [], rest, rfl, hidle.quiet, hidle₂.silent, hready, hticks,
      hnot hguard (by simp)⟩

theorem Span.Of.held_ticks {s : Span} (hspan : s.Of place i h) :
    ticks (s.held place i) = ticks s.work := by
  simp [Span.held, hspan.instant.1, hspan.instant.2]

/-- The run of a batch after the work of one of its branches. -/
theorem Span.Of.split {s : Span} (hspan : s.Of place i h) (hrun : Run ordered a w h b u) :
    ∃ c, Run ordered c (worldAfter s.start s.work)
      (s.rest ++ .own [(place, i)] s.last s.last :: s.after) b u := by
  have hparts : h = (s.before ++ .own [(place, i)] s.begun s.begun ::
      (s.ready ++ .own [(place, i)] s.start s.start :: s.work)) ++
        (s.rest ++ .own [(place, i)] s.last s.last :: s.after) := by
    rw [hspan.history]
    simp [Span.held]
  rw [hparts] at hrun
  obtain ⟨c, x, hfirst, hsecond⟩ := hrun.split
  have hworld := hfirst.worldAfter
  simp only [worldAfter_append, worldAfter] at hworld
  exact ⟨c, hworld ▸ hsecond⟩

/-- The turns of a branch in the history of its batch leave all entries where they are if the work of the
branch does. -/
theorem Span.Of.grows {s : Span} (hspan : s.Of place i h)
    (hgrows : ∀ way x y, .own way x y ∈ view place i s.work → x.entries <:+ y.entries)
    (hmem : .own ((place, i) :: way) x y ∈ h) : x.entries <:+ y.entries := by
  rw [hspan.history] at hmem
  simp only [Span.held, List.mem_append, List.mem_cons, Turn.own.injEq] at hmem
  rcases hmem with hmem | ⟨_, rfl, rfl⟩ | (hmem | ⟨_, rfl, rfl⟩ | hmem | hmem) | ⟨_, rfl, rfl⟩ | hmem
  · obtain ⟨_, rfl⟩ := hspan.patient way x y hmem
    exact List.suffix_refl _
  · exact List.suffix_refl _
  · exact (hspan.quiet.1 way x y hmem).elim
  · exact List.suffix_refl _
  · exact hgrows way x y (own_mem_view.mpr hmem)
  · have hlog := hspan.silent way x y (own_mem_view.mpr hmem)
    have hleaves : Leaves (fun _ => True) [] x y := .of_log hlog
    exact hleaves.entries
  · exact List.suffix_refl _
  · exact (hspan.quiet.2 way x y hmem).elim

/-- What a unit has done stays, if nobody else touches its keys. -/
theorem Span.Of.stays {s : Span} (hspan : s.Of place i h) (hrun : Run ordered b w h c u)
    (haside : Aside (Leaves keys (i :: place)) place i h)
    (hothers : OthersLeave keys place i h)
    (hgrows : ∀ way x y, .own way x y ∈ view place i s.work → x.entries <:+ y.entries)
    (hsame : Same keys (i :: place) (worldAfter s.start s.work) v) :
    Stays keys (view place i s.work) v u := by
  have hlater : ∀ t ∈ s.rest ++ .own [(place, i)] s.last s.last :: s.after, t ∈ h := by
    intro t ht
    rw [hspan.history]
    rcases List.mem_append.mp ht with hmem | hmem
    · simp [Span.held, hmem]
    · rcases List.mem_cons.mp hmem with rfl | hmem
      · simp
      · simp [hmem]
  have hwork : ∀ t ∈ s.work, t ∈ h := by
    intro t ht
    rw [hspan.history]
    simp [Span.held, ht]
  constructor
  case values =>
    intro key hkey
    obtain ⟨d, hrest⟩ := hspan.split hrun
    have hkept := hrest.lifts (R := fun w v => v.context.get? key = w.context.get? key)
      (fun _ => rfl) (fun hl hr => hr.trans hl) (fun way x y hmem => ?_)
      (fun x y hmem => (hothers x y (hlater _ hmem)).1.same.values hkey) fun _ => rfl
    · exact hkept.trans (hsame.values hkey).symm
    · rcases haside way x y (hlater _ hmem) with ⟨way', rfl⟩ | hleaves
      · rcases List.mem_append.mp hmem with hmem | hmem
        · have hlog := hspan.silent way' x y (own_mem_view.mpr hmem)
          have hleaves : Leaves keys [] x y := .of_log hlog
          exact hleaves.same.values hkey
        · rcases List.mem_cons.mp hmem with heq | hmem
          · cases heq
            rfl
          · exact (hspan.quiet.2 way' x y hmem).elim
      · exact hleaves.same.values hkey
  case entries =>
    intro way x y hmem
    obtain ⟨h₁, h₂, rfl⟩ := List.append_of_mem (hwork _ (own_mem_view.mp hmem))
    obtain ⟨_, _, _, _, hrest⟩ := hrun.split_own
    have hpart : ∀ t ∈ h₂, t ∈ h₁ ++ .own ((place, i) :: way) x y :: h₂ := by
      intro t ht
      simp [ht]
    refine hrest.lifts (R := fun w v => w.entries <:+ v.entries) (fun _ => List.suffix_refl _)
      (fun hl hr => hl.trans hr) (fun way' x' y' hmem' => ?_)
      (fun x' y' hmem' => (hothers x' y' (hpart _ hmem')).1.entries)
      fun _ => List.suffix_refl _
    rcases haside way' x' y' (hpart _ hmem') with ⟨rest, rfl⟩ | hleaves
    · exact hspan.grows hgrows (hpart _ hmem')
    · exact hleaves.entries

/-- **On the schedule the work alone decides** how the branch ends. -/
theorem Truncated.of_cut {e : Evaluator} {patience limit : Nat} {step : Step} {o r : Outcome} {s : Span}
    {m : Nat} {next : Option Outcome → Activity} (hlimit : limit ≠ 0) (hspan : s.Of place i h)
    (hdid : Did ordered e patience keys place i step u s g b v)
    (hwhole : Run ordered (limited limit i step.label (step.work e patience (i :: place))) s.start g
      (.within m b next) v)
    (hends : (b = .done r ∧ ticks g ≤ limit) ∨
      (AtRest b ∧ ticks g = limit ∧ r = .ok (lateReport step.label limit)))
    (hgives : Gives i o r) : Truncated ordered e patience keys limit place i step h o u s := by
  constructor
  case span => exact hspan
  case cut =>
    refine ⟨g, b, v, hdid, ?_⟩
    rcases hends with ⟨rfl, hle⟩ | ⟨hrest, hticks, rfl⟩
    · exact Or.inl ⟨r, rfl, hle, hgives⟩
    · exact Or.inr ⟨hrest, hticks, hgives⟩
  case inTime =>
    intro g' r' v' hordered halone' hrun' hle hnever
    obtain rfl : ordered = True := eq_true hordered
    obtain ⟨q, rfl, hq, hlater⟩ := hrun'.before_done halone' hdid.run hdid.alone
    rcases hends with ⟨rfl, _⟩ | ⟨hrest, hticks, _⟩
    · obtain ⟨rfl, hdone, rfl⟩ := hlater.of_done_alone hq
      cases hdone
      rw [List.append_nil]
      exact ⟨hgives, hdid⟩
    · exact (hnever g b v (List.prefix_append _ _) hdid.run hticks hrest).elim
  case late =>
    rintro hordered ⟨f, c, x, hf, hrunf, hticks, hrest⟩
    obtain rfl : ordered = True := eq_true hordered
    rcases hends with ⟨rfl, _⟩ | ⟨hb, hlast, rfl⟩
    · -- The work would have been cut off before its end.
      obtain ⟨q, rfl, _, hlater⟩ := hdid.run.before_done hdid.alone hrunf hf
      obtain rfl := hwhole.limited_prompt hlimit hdid.alone hrunf hrest hticks
      cases hlater
      exact hrest.elim
    · refine ⟨hgives, g, b, v, hdid, hb, hlast, fun f' c' x' hf' hrunf' => ?_⟩
      rcases hdid.run.determined hrunf' hdid.alone hf' with ⟨q, rfl, hlater⟩ | ⟨q, rfl, _⟩
      · cases hlater with
        | stop => exact Or.inl (by simp)
        | @own way _ _ _ _ _ _ _ hmove _ =>
            obtain ⟨part, rest, rfl⟩ := List.exists_cons_of_ne_nil (hb.next_turn hmove)
            exact Or.inr ⟨_, _, rfl, Or.inr ⟨part, rest, _, _, rfl⟩⟩
        | other => exact ((alone_cons.mp (alone_append.mp hf').2).1 _ _ rfl).elim
        | tick => exact Or.inr ⟨_, _, rfl, Or.inl rfl⟩
      · exact Or.inl (List.prefix_append _ _)
  case overdue =>
    intro hordered hlate
    obtain rfl : ordered = True := eq_true hordered
    exact waitsAt_of_overdue hlate

end Activity

open Activity

/-! ### The branches of a parallel flow -/

section

variable (e : Evaluator) (keys : String → Prop) (root : Pool)

/-- A unit works with its keys: what its executables, guards and tests look at and what they store is under
the keys, and its executables split on no pool outside the root. -/
def Step.WorksWith (step : Step) : Prop :=
  step.Every (fun x => ∀ brief, Throughout (Local keys root) (fun p => root <:+ p) (x.behave e brief))
    (fun s => ∀ c d : Context, (∀ key, keys key → d.get? key = c.get? key) →
      s.holds e d = s.holds e c)
    fun p => ∀ w v r, Same keys root w v → p.passes v r = p.passes w r

/-- A unit touches no key and no pool of another one, and removes no entries. -/
def Step.LeavesAlone (step : Step) : Prop :=
  step.Every (fun x => ∀ brief,
    Throughout (Away keys root) (fun p => ¬ root <:+ p) (x.behave e brief)) fun _ => True

end

section

variable {e : Evaluator} {patience : Nat} {keys : String → Prop} {place : Pool} {i : Nat}
variable {name : String} {threads limit : Nat} {steps : List Step} {step : Step}

theorem Step.WorksWith.work (hstep : step.WorksWith e keys (i :: place)) :
    Throughout (Local keys (i :: place)) (fun p => (i :: place) <:+ p)
      (step.work e patience (i :: place)) :=
  Step.work_throughout ⟨fits_local _ _, fun brief hx => hx brief, guarded_local, tested_local⟩ step hstep
    fun _ hp => hp

theorem Step.WorksWith.branch (hstep : step.WorksWith e keys (i :: place)) :
    Throughout (Local keys (i :: place)) (fun p => (i :: place) <:+ p)
      (branch e limit i step.label step.settings (step.work e patience (i :: place))) := by
  have hguard : Guarded (Local keys (i :: place)) e step.settings := by
    obtain ⟨s, flow⟩ := step
    exact guarded_local hstep.1
  exact .branch (fits_local _ _) hguard hstep.work

theorem Step.LeavesAlone.branch {j : Nat} {sibling : Step} (hij : j ≠ i)
    (hsibling : sibling.LeavesAlone e keys (i :: place)) :
    Throughout (Away keys (i :: place)) (fun p => ¬ (i :: place) <:+ p)
      (branch e limit j sibling.label sibling.settings (sibling.work e patience (j :: place))) :=
  .branch (fits_away _ _) (guarded_away _) <|
    Step.work_throughout ⟨fits_away _ _, fun brief hx => hx brief, fun _ => guarded_away _,
      fun _ => tested_away _⟩ sibling hsibling fun _ hj hi => hij (place_unique hj hi)

/-- **A time-out is exactly a truncation.**  A branch with a limit works with keys that no sibling
touches, on an open pool that no unit closes.  On the schedule of `run` the batch comes to an end, unless
some part of it goes on for ever and never waits; and whenever it has come to an end without the fault of a
sibling, whatever turns its branches take and whatever else goes on beside it, the branch has done what it
does alone, truncated at the limit. -/
theorem branch_truncated (hlimit : limit ≠ 0) (hstep : steps[i]? = some step)
    (hunit : step.WorksWith e keys (i :: place))
    (hsiblings : ∀ j sibling, j ≠ i → steps[j]? = some sibling →
      sibling.LeavesAlone e keys (i :: place))
    (hsteps : Flow.EveryStep (Executable.LeavesOpen e place) (fun _ => True) (fun _ => True) steps)
    {w : World} (hopen : w.isClosed place = false) :
    (∀ fuel, (steps.length ⌈/⌉ threadsOf threads) * limit ≤ fuel →
      (∃ h o u, Alone h ∧ run fuel (batch name place threads limit
          (Flow.branchWorks e patience limit place 0 steps)) w = some (o, u) ∧
        Run True (batch name place threads limit
          (Flow.branchWorks e patience limit place 0 steps)) w h (.done o) u) ∨
      Spins (batch name place threads limit
        (Flow.branchWorks e patience limit place 0 steps)) w) ∧
    ∀ ordered h o u, Run ordered (batch name place threads limit
        (Flow.branchWorks e patience limit place 0 steps)) w h (.done o) u →
      OthersLeave keys place i h → (∀ j message, o = .error (.branchFault j message) → j = i) →
      ∃ s : Span, s.Of place i h ∧ (step.settings.holds e s.start.context = .ok true →
        Truncated ordered e patience keys limit place i step h o u s) := by
  refine ⟨fun fuel hfuel => ?_, fun ordered h o u hrun hothers hfault => ?_⟩
  · obtain ⟨_, _, _, _, hends⟩ := fan_out_bounded e patience name place threads limit steps
    rcases (hends hlimit).2 hfuel w with ⟨o, u, hrun⟩ | hspins
    · obtain ⟨h, halone, hreached⟩ := run_reaches hrun
      exact Or.inl ⟨h, o, u, halone, hrun, hreached⟩
    · exact Or.inr hspins
  · have haway : ∀ j b, j ≠ i → (Flow.branchWorks e patience limit place 0 steps)[j]? = some b →
        Throughout (Away keys (i :: place)) (fun p => ¬ (i :: place) <:+ p) b := by
      intro j b hij hb
      obtain ⟨sibling, hsibling, rfl⟩ := Flow.step_of_branchWorks e patience hb
      exact (hsiblings j sibling hij hsibling).branch hij
    obtain ⟨haside, before, begun, held, last, after, r, rfl, hpatient, hquiet, hown, hgives⟩ :=
      hrun.batch_branch (sparedBy_branches hsteps) hopen (Flow.branchWorks_of_step e patience hstep)
        haway hothers hfault
    have hpart : ∀ t ∈ held, t ∈ before ++ .own [(place, i)] begun begun ::
        (held ++ .own [(place, i)] last last :: after) := by
      intro t ht
      simp [ht]
    have hseen : ∀ x y, .other x y ∈ view place i held → Same keys (i :: place) x y := by
      intro x y hmem
      have hbeside : Aside (Leaves keys (i :: place)) place i held :=
        fun way x y hmem => haside way x y (hpart _ hmem)
      exact (hbeside.view (fun x y hmem => (hothers x y (hpart _ hmem)).1) hmem).same
    obtain ⟨ready, start, work, rest, rfl, hready, hsilent, hzero, hzero', hguarded⟩ :=
      hown.span hlimit hunit.work hseen
    let s : Span := ⟨before, begun, ready, start, work, rest, last, after⟩
    have hspan : s.Of place i (before ++ .own [(place, i)] begun begun ::
        ((ready ++ .own [(place, i)] start start :: (work ++ rest)) ++
          .own [(place, i)] last last :: after)) :=
      ⟨rfl, hpatient, ⟨hready, hquiet⟩, hsilent, hzero, hzero'⟩
    refine ⟨s, hspan, fun hguard => ?_⟩
    obtain ⟨g, b, v, m, next, halone, hbody, heffects, hsame, hwhole, hends⟩ := hguarded hguard
    have hgrows : ∀ way x y, .own way x y ∈ view place i work → x.entries <:+ y.entries := by
      intro way x y hmem
      refine hunit.branch.own_turns (R := fun x y => x.entries <:+ y.entries)
        (fun f next hf w => ?_) (fun _ => List.suffix_refl _) hown way x y ?_
      · obtain ⟨_, _, added, hadds, _⟩ := hf w w (.refl w)
        exact ⟨added, hadds.entries.symm⟩
      · rw [own_mem_view]
        simp [own_mem_view.mp hmem]
    have hheld : ticks (s.held place i) = ticks g := by
      rw [hspan.held_ticks, ← ticks_view place i, heffects.ticks]
    exact .of_cut hlimit hspan
      ⟨halone, hbody, heffects, hspan.stays hrun haside hothers hgrows hsame, hheld⟩ hwhole hends hgives

/-- A unit that makes an entry every two milliseconds, for ever. -/
private def ticking : Step :=
  .mk { name := some "ticking" } (.repetition "ticking" (.times 100) <| .mk {} <|
    .task { name := "entry", behave := fun _ b => .sleep 2 fun _ =>
      .instant fun w => (.completed, w.record "log" b.label "tick") })

/-- A unit that stores a value. -/
private def storing : Step :=
  .mk {} (.task
    { name := "storing"
      behave := fun _ _ => .instant fun w => (.completed, w.put "stored" (.bool true)) })

private theorem ticking_leavesOpen : ticking.Every (Executable.LeavesOpen (.standard {}) [])
    (fun _ => True) fun _ => True :=
  ⟨trivial, trivial, trivial, fun _ => .sleep (fun _ hopen => hopen) fun _ =>
    .act (fun _ hopen => hopen) fun _ => .done⟩

/-- Under a limit of five milliseconds two entries are made. -/
theorem branch_truncated_ticking :
    ∃ h u s, Run True (batch "pair" [] 2 5 (Flow.branchWorks (.standard {}) 0 5 [] 0
        [ticking, storing])) {} h (.done (.ok (.parallel [lateReport "ticking" 5, .completed]))) u ∧
      u.entries.map Entry.time = [4, 2] ∧
      Truncated True (.standard {}) 0 (fun _ => False) 5 [] 0 ticking h
        (.ok (.parallel [lateReport "ticking" 5, .completed])) u s := by
  have hunit : ticking.WorksWith (.standard {}) (fun _ => False) [0] := by
    have hguard (name : Option String) (c d : Context) :
        Settings.holds { name } (.standard {}) d = Settings.holds { name } (.standard {}) c := rfl
    refine ⟨fun c d _ => hguard _ c d, trivial, fun c d _ => hguard _ c d, fun brief => ?_⟩
    refine .sleep (fun w v hsame => ⟨rfl, hsame, [], .refl w, .refl v⟩) fun _ =>
      .act (fun w v hsame => ⟨rfl, ⟨hsame.now, hsame.values, hsame.closed⟩, ?_⟩) fun _ => .done
    refine ⟨[⟨w.now, "log", brief.label, "tick"⟩], ⟨rfl, fun _ => rfl⟩, ?_, fun _ => rfl⟩
    simp [World.record, hsame.now]
  have hstoring : storing.LeavesAlone (.standard {}) (fun _ => False) [0] := by
    refine ⟨trivial, fun brief => .act (fun w => ?_) fun _ => .done⟩
    exact ⟨⟨rfl, False.elim, fun _ => rfl⟩, List.suffix_refl _⟩
  have hsiblings : ∀ j sibling, j ≠ 0 → [ticking, storing][j]? = some sibling →
      sibling.LeavesAlone (.standard {}) (fun _ => False) [0] := by
    intro j sibling hj hsteps
    rcases j with _ | _ | j
    · exact (hj rfl).elim
    · obtain rfl : storing = sibling := by simpa using hsteps
      exact hstoring
    · simp at hsteps
  obtain ⟨u, hrun, hentries⟩ : ∃ u, run 10 (batch "pair" [] 2 5
      (Flow.branchWorks (.standard {}) 0 5 [] 0 [ticking, storing])) {} =
        some (.ok (.parallel [lateReport "ticking" 5, .completed]), u) ∧
      u.entries.map Entry.time = [4, 2] := ⟨_, rfl, rfl⟩
  obtain ⟨h, halone, hreached⟩ := run_reaches hrun
  have hothers : OthersLeave (fun _ => False) [] 0 h :=
    fun x y hmem => (halone x y hmem).elim
  have hsteps : Flow.EveryStep (Executable.LeavesOpen (.standard {}) []) (fun _ => True)
      (fun _ => True) [ticking, storing] :=
    ⟨ticking_leavesOpen, ⟨trivial, fun _ => .act (fun _ hopen => hopen) fun _ => .done⟩, trivial⟩
  obtain ⟨s, _, hs⟩ := (branch_truncated (by decide) rfl hunit hsiblings hsteps rfl).2 True h _ u
    hreached hothers nofun
  exact ⟨h, u, s, hreached, hentries, hs rfl⟩

/-- A parallel flow with a branch that makes an entry after five milliseconds. -/
private def nesting : Step :=
  .mk { name := some "nesting" } (.parallel "inner" 1 0 [.mk {} (.task
    { name := "entry"
      behave := fun _ b => .sleep 5 fun _ =>
        .instant fun w => (.completed, w.record "log" b.label "tick") })])

/-- **At the very limit a parallel flow inside a branch is cut off.**  Alone it ends after five milliseconds
with its report and an entry; as a branch under a limit of five milliseconds it is late, without the
entry. -/
theorem nested_branches_late_at_limit :
    (∃ u, run 2 (nesting.work (.standard {}) 0 [0]) {} = some (.ok (.parallel [.completed]), u) ∧
      u.now = 5 ∧ u.entries.map Entry.time = [5]) ∧
    ∃ u, run 2 (batch "outer" [] 2 5 (Flow.branchWorks (.standard {}) 0 5 [] 0 [nesting])) {} =
        some (.ok (.parallel [lateReport "nesting" 5]), u) ∧
      u.now = 5 ∧ u.entries = [] :=
  ⟨⟨_, rfl, rfl, rfl⟩, ⟨_, rfl, rfl, rfl⟩⟩

end

end Runsheet
