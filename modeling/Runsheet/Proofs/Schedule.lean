import Runsheet.Proofs.Interleaving

/-!
# The schedule

`settle`, `elapse` and `run` follow one of the histories that an activity can have, the one in which
the branches of a split take their turns in order.

* `settle_carries` — `settle` is a run in which no time passes and nobody else has a turn, to a point
  where the activity stands still;
* `run_reaches` — **what `run` computes is the end of a run**, after as many milliseconds as it
  waited.
-/

namespace Runsheet

namespace Activity

variable {ordered busy hurried : Prop} {way : Way} {a b c body : Activity} {w v u : World}
variable {h g : List Turn}

/-- An activity reaches another one and a world at once, its parts in turn.  If it is `busy`, it does
not wait with its own hands before. -/
inductive Reaches (busy : Prop) : Activity → World → Activity → World → Prop
  | stop {a : Activity} {w : World} : Reaches busy a w a w
  | move {way : Way} {a b c : Activity} {w v u : World} (hbusy : busy → ¬ AtRest a)
      (hmove : Move True way a w b v) (hrest : Reaches busy b v c u) : Reaches busy a w c u

theorem Reaches.trans (hl : Reaches busy a w b v) (hr : Reaches busy b v c u) :
    Reaches busy a w c u := by
  induction hl with
  | stop => exact hr
  | move hbusy hmove _ ih => exact .move hbusy hmove (ih hr)

theorem Move.reaches (hbusy : busy → ¬ AtRest a) (hmove : Move True way a w b v) :
    Reaches busy a w b v :=
  .move hbusy hmove .stop

theorem Reaches.mono (hreaches : Reaches hurried a w b v) (himp : busy → hurried) :
    Reaches busy a w b v := by
  induction hreaches with
  | stop => exact .stop
  | move hbusy hmove _ ih => exact .move (fun h => hbusy (himp h)) hmove ih

/-- A move in turn is a move in any discipline. -/
theorem Move.relax (hmove : Move True way a w b v) : Move ordered way a w b v := by
  induction hmove with
  | act => exact .act
  | wake => exact .wake
  | inside hturn _ ih => exact .inside (fun _ => hturn trivial) ih
  | inTime => exact .inTime
  | late hrest => exact .late hrest
  | deal hturn hslot hdeal => exact .deal (fun _ => hturn trivial) hslot hdeal
  | branch hturn hslot _ ih => exact .branch (fun _ => hturn trivial) hslot ih
  | finish hturn hslot => exact .finish (fun _ => hturn trivial) hslot
  | read hturn harrivals hverdict => exact .read (fun _ => hturn trivial) harrivals hverdict
  | abort hturn harrivals hverdict => exact .abort (fun _ => hturn trivial) harrivals hverdict
  | leave harrivals hended => exact .leave harrivals hended

/-- A run in turn is a run in any discipline. -/
theorem Run.relax (hrun : Run True a w h b v) : Run ordered a w h b v := by
  induction hrun with
  | stop => exact .stop
  | own hmove _ ih => exact .own hmove.relax ih
  | other _ ih => exact .other ih
  | tick hsettled _ ih => exact .tick hsettled ih

/-- A run in any discipline is one of those in which branches take turns as they like. -/
theorem Run.free (hrun : Run ordered a w h b v) : Run False a w h b v := by
  by_cases hordered : ordered
  · rw [eq_true hordered] at hrun
    exact hrun.relax
  · rwa [eq_false hordered] at hrun

/-- All turns of the history are the activity's own, and no time passes. -/
def Instant (h : List Turn) : Prop :=
  Alone h ∧ ticks h = 0

theorem Reaches.run (hreaches : Reaches busy a w b v) : ∃ h, Instant h ∧ Run ordered a w h b v := by
  induction hreaches with
  | stop => exact ⟨[], ⟨alone_nil, rfl⟩, .stop⟩
  | @move way a b c w v u _ hmove _ ih =>
      obtain ⟨h, ⟨halone, hticks⟩, hrun⟩ := ih
      exact ⟨.own way w v :: h, ⟨alone_cons.mpr ⟨by simp, halone⟩, hticks⟩, .own hmove.relax hrun⟩

/-! ### What parts reach -/

/-- Work under a limit gets as far as the work does, if that does not wait when its time is up. -/
theorem Reaches.inside {left : Nat} {next : Option Outcome → Activity}
    (hreaches : Reaches hurried a w b v) (hbusy : busy → hurried) (hleft : left = 0 → hurried) :
    Reaches busy (.within left a next) w (.within left b next) v := by
  induction hreaches with
  | stop => exact .stop
  | move hhurried hmove _ ih =>
      exact .move (fun h hrest => hhurried (hbusy h) hrest.2)
        (.inside (fun _ h => hhurried (hleft h)) hmove) ih

variable {t : Tally} {slots : List (Slot Activity)} {next : Reading → Activity} {i j : Nat}

/-- The turn of a branch that has its permit comes after those before it. -/
theorem inTurn_running (hbefore : RestingSlots True (slots.take i))
    (hslot : slots[i]? = some (.running a)) : InTurn t slots i := by
  refine ⟨hbefore, fun body hqueued => ?_⟩
  rw [hslot] at hqueued
  cases hqueued

/-- A split does not wait where a branch that has ended is still to be read. -/
theorem not_atRest_fork (harrivals : t.arrivals ≠ []) : ¬ AtRest (.fork t slots next) :=
  fun hrest => harrivals hrest.1

theorem take_set_self (s : Slot Activity) : (slots.set i s).take i = slots.take i := by
  rw [List.take_set_of_le (Nat.le_refl i)]

theorem set_self {s : Slot Activity} (hslot : slots[i]? = some s) : slots.set i s = slots := by
  obtain ⟨hlt, rfl⟩ := List.getElem?_eq_some_iff.mp hslot
  exact List.set_getElem_self hlt

/-- A branch gets as far as its body does, when those before it stand still. -/
theorem Reaches.branch (hbusy : busy → t.arrivals ≠ [])
    (hbefore : RestingSlots True (slots.take i)) (hslot : slots[i]? = some (.running a))
    (hreaches : Reaches False a w b v) :
    Reaches busy (.fork t slots next) w (.fork t (slots.set i (.running b)) next) v := by
  have hlt : i < slots.length := (List.getElem?_eq_some_iff.mp hslot).1
  induction hreaches generalizing slots with
  | @stop a w =>
      rw [set_self hslot]
      exact .stop
  | @move way a b c w v u _ hmove _ ih =>
      have hturn : InTurn t slots i := inTurn_running hbefore hslot
      refine .move (fun h => not_atRest_fork (hbusy h)) (.branch (fun _ => hturn) hslot hmove) ?_
      have hself : (slots.set i (.running b))[i]? = some (.running b) := List.getElem?_set_self hlt
      have hrest := ih (by rwa [take_set_self]) hself (by simpa using hlt)
      rwa [List.set_set] at hrest

/-- A branch that ends gives its permit back. -/
theorem Reaches.finish {o : Outcome} (hbusy : busy → t.arrivals ≠ [])
    (hbefore : RestingSlots True (slots.take i)) (hslot : slots[i]? = some (.running a))
    (hreaches : Reaches False a w (.done o) v) :
    Reaches busy (.fork t slots next) w (.fork (t.finish i o) (slots.set i (.ended o)) next) v := by
  have hlt : i < slots.length := (List.getElem?_eq_some_iff.mp hslot).1
  have hended : (slots.set i (.running (.done o)))[i]? = some (.running (.done o)) := by simp [hlt]
  have hturn : InTurn t (slots.set i (.running (.done o))) i :=
    inTurn_running (by rwa [take_set_self]) hended
  have hmove : Move True [(t.pool, i)] (.fork t (slots.set i (.running (.done o))) next) v _ v :=
    .finish (fun _ => hturn) hended
  rw [List.set_set] at hmove
  exact (hreaches.branch hbusy hbefore hslot).trans
    (hmove.reaches fun h => not_atRest_fork (hbusy h))

/-! ### The turns of all branches -/

/-- A split that has come to a stage. -/
def Stage.activity (next : Reading → Activity) (p : Stage) : Activity :=
  .fork p.tally p.slots next

/-- What gets an activity as far as it can follows its moves, to a point where it stands still. -/
def Carries (reach : World → Activity × World) (a : Activity) : Prop :=
  ∀ w, Reaches False a w (reach w).1 (reach w).2 ∧ Rests (reach w).1

/-- The turn of a branch takes a split from one stage to another, and the branch to where it is calm. -/
structure Advances (busy : Prop) (next : Reading → Activity) (i : Nat) (p q : Stage) : Prop where
  reaches : Reaches busy (p.activity next) p.world (q.activity next) q.world
  slot : ∃ s, q.slots = p.slots.set i s ∧ s.Calm Still ∧
    ∀ body, s = .queued body → ∃ s', p.slots[i]? = some s' ∧ s'.body? = some body
  arrivals : p.tally.arrivals ≠ [] → q.tally.arrivals ≠ []

variable {reaches : List (World → Activity × World)} {reach : World → Activity × World} {p q : Stage}

theorem arrivals_finish {o : Outcome} : (t.finish i o).arrivals ≠ [] := by
  simp [Tally.finish, Tally.arrive]

/-- The turn of a branch that has its permit. -/
theorem carry_advances (hbusy : busy → p.tally.arrivals ≠ [])
    (hbefore : RestingSlots True (p.slots.take i)) (hslot : p.slots[i]? = some (.running body))
    (hcarries : Carries reach body) : Advances busy next i p (p.carry reach i) := by
  obtain ⟨hreaches, hrests⟩ := hcarries p.world
  unfold Stage.carry
  rcases hreach : reach p.world with ⟨b, v⟩
  rw [hreach] at hreaches hrests
  rcases hrests with ⟨o, rfl⟩ | hb
  · exact ⟨hreaches.finish hbusy hbefore hslot, ⟨.ended o, rfl, trivial, nofun⟩,
      fun _ => arrivals_finish⟩
  · cases b with
    | done o => exact (not_resting_done hb).elim
    | _ => exact ⟨hreaches.branch hbusy hbefore hslot, ⟨_, rfl, hb, nofun⟩, id⟩

/-- The turn of a branch that asks for a permit or waits for one. -/
theorem deal_advances {s : Slot Activity} (hbusy : busy → p.tally.arrivals ≠ [])
    (hturn : InTurn p.tally p.slots i) (hslot : p.slots[i]? = some s)
    (hwaits : s = .fresh body ∨ s = .queued body) (hcarries : Carries reach body) :
    Advances busy next i p (p.deal reach i s) := by
  have hlt : i < p.slots.length := (List.getElem?_eq_some_iff.mp hslot).1
  unfold Stage.deal
  cases hdeal : p.tally.deal (p.world.isClosed p.tally.pool) i s with
  | none =>
      rcases hwaits with rfl | rfl
      · exact (Tally.deal_fresh hdeal).elim
      · exact ⟨.stop, ⟨_, (set_self hslot).symm, trivial, fun _ h => ⟨_, hslot, by rw [h]; rfl⟩⟩, id⟩
  | some out =>
      obtain ⟨t', s'⟩ := out
      have hdealt := Tally.dealt_iff.mp hdeal
      have hmove : Move True _ (p.activity next) p.world _ p.world :=
        .deal (fun _ => hturn) hslot hdeal
      have hfirst := hmove.reaches fun h => not_atRest_fork (hbusy h)
      cases s' with
      | fresh body' => cases hdealt
      | queued body' =>
          refine ⟨hfirst, ⟨_, rfl, trivial, fun b hb => ⟨s, hslot, hdealt.body ?_⟩⟩, hdealt.arrivals⟩
          rw [hb]
          rfl
      | ended o => exact ⟨hfirst, ⟨_, rfl, trivial, nofun⟩, hdealt.arrivals⟩
      | running body' =>
          have hbody : s.body? = some body' := hdealt.body rfl
          obtain rfl : body = body' := by
            rcases hwaits with rfl | rfl
            · exact Option.some.inj hbody
            · exact Option.some.inj hbody
          have hcarried : Advances busy next i ⟨t', p.slots.set i (.running body), p.world⟩ _ :=
            carry_advances (fun h => hdealt.arrivals (hbusy h))
              ((take_set_self _).symm ▸ hturn.1) (by simp [hlt]) hcarries
          obtain ⟨hrest, ⟨s, hs, hcalm, hqueued⟩, harrivals⟩ := hcarried
          refine ⟨hfirst.trans hrest, ⟨s, by rw [hs, List.set_set], hcalm, fun b hb => ?_⟩,
            fun h => harrivals (hdealt.arrivals h)⟩
          obtain ⟨s', hs', hbody'⟩ := hqueued b hb
          obtain rfl : .running body = s' := by simpa [hlt] using hs'
          exact ⟨_, hslot, hdealt.body hbody'⟩

/-- Each branch that has not ended is carried by what gets it as far as it can. -/
def Tended (reaches : List (World → Activity × World)) (slots : List (Slot Activity)) : Prop :=
  ∀ (i : Nat) (s : Slot Activity) (body : Activity), slots[i]? = some s → s.body? = some body →
    ∃ reach, reaches[i]? = some reach ∧ Carries reach body

theorem tended_cons {s : Slot Activity} (hslots : Tended reaches slots)
    (hs : ∀ body, s.body? = some body → Carries reach body) : Tended (reach :: reaches) (s :: slots) := by
  intro i s' body hslot hbody
  cases i with
  | zero =>
      cases hslot
      exact ⟨reach, rfl, hs body hbody⟩
  | succ i => exact hslots i s' body hslot hbody

/-- The turn of a branch that runs or has not asked yet. -/
theorem visit_advances (hbusy : busy → p.tally.arrivals ≠ [])
    (hbefore : RestingSlots True (p.slots.take i)) (htended : ∀ s body, p.slots[i]? = some s →
      s.body? = some body → ∃ reach, reaches[i]? = some reach ∧ Carries reach body)
    (hi : i < p.slots.length) : Advances busy next i p (p.visit reaches i) := by
  have hslot : p.slots[i]? = some p.slots[i] := List.getElem?_eq_getElem hi
  have hstays (hcalm : p.slots[i].Calm Still) : Advances busy next i p p :=
    ⟨.stop, ⟨_, (set_self hslot).symm, hcalm, fun b hb => ⟨_, hslot, by rw [hb]; rfl⟩⟩, id⟩
  unfold Stage.visit
  cases hs : p.slots[i] with
  | fresh body =>
      rw [hs] at hslot
      obtain ⟨reach, hreach, hcarries⟩ := htended _ body hslot rfl
      have hturn : InTurn p.tally p.slots i := by
        refine ⟨hbefore, fun body' hqueued => ?_⟩
        rw [hslot] at hqueued
        cases hqueued
      simpa only [hreach, hslot] using deal_advances hbusy hturn hslot (.inl rfl) hcarries
  | running body =>
      rw [hs] at hslot
      obtain ⟨reach, hreach, hcarries⟩ := htended _ body hslot rfl
      simpa only [hreach, hslot] using carry_advances hbusy hbefore hslot hcarries
  | queued body =>
      have hp := hstays (by rw [hs]; trivial)
      rw [hs] at hslot
      cases reaches[i]? with
      | none => exact hp
      | some reach => simpa only [hslot] using hp
  | ended o =>
      have hp := hstays (by rw [hs]; trivial)
      rw [hs] at hslot
      cases reaches[i]? with
      | none => exact hp
      | some reach => simpa only [hslot] using hp

/-- The first turns of a split take it from one stage to another: those that have had theirs are calm, the
later ones are as they were, and those that wait for a permit are still to do what they were to do. -/
structure Visited (busy : Prop) (next : Reading → Activity) (k : Nat) (p q : Stage) : Prop where
  reaches : Reaches busy (p.activity next) p.world (q.activity next) q.world
  length : q.slots.length = p.slots.length
  calm {j : Nat} {s : Slot Activity} : j < k → q.slots[j]? = some s → s.Calm Still
  later {j : Nat} : k ≤ j → q.slots[j]? = p.slots[j]?
  queued {j : Nat} {body : Activity} : q.slots[j]? = some (.queued body) →
    ∃ s, p.slots[j]? = some s ∧ s.body? = some body
  arrivals : p.tally.arrivals ≠ [] → q.tally.arrivals ≠ []

theorem Visited.refl (p : Stage) : Visited busy next 0 p p :=
  ⟨.stop, rfl, nofun, fun _ => rfl, fun hslot => ⟨_, hslot, rfl⟩, id⟩

theorem Visited.before {k : Nat} (hvisited : Visited busy next k p q) :
    RestingSlots True (q.slots.take k) := by
  refine restingSlots_iff.mpr fun s hs => ?_
  obtain ⟨j, hj⟩ := List.mem_iff_getElem?.mp hs
  rw [List.getElem?_take] at hj
  split at hj
  next hlt => exact hvisited.calm hlt hj
  next => cases hj

theorem Visited.all (hvisited : Visited busy next p.slots.length p q) : RestingSlots True q.slots := by
  have hbefore := hvisited.before
  rwa [List.take_of_length_le (Nat.le_of_eq hvisited.length)] at hbefore

theorem Visited.step {k : Nat} {r : Stage} (hvisited : Visited busy next k p q)
    (hstep : Advances busy next k q r) : Visited busy next (k + 1) p r := by
  obtain ⟨hreaches, ⟨s, hs, hcalm, hqueued⟩, harrivals⟩ := hstep
  refine ⟨hvisited.reaches.trans hreaches, by rw [hs, List.length_set, hvisited.length],
    fun {j s'} hj hslot => ?_, fun {j} hj => ?_, fun {j body} hslot => ?_,
    fun h => harrivals (hvisited.arrivals h)⟩
  · rw [hs] at hslot
    by_cases hjk : j = k
    · subst hjk
      obtain ⟨_, rfl⟩ : j < q.slots.length ∧ s = s' := by simpa [List.getElem?_set] using hslot
      exact hcalm
    · rw [List.getElem?_set_ne (Ne.symm hjk)] at hslot
      exact hvisited.calm (by omega) hslot
  · rw [hs, List.getElem?_set_ne (by omega)]
    exact hvisited.later (by omega)
  · rw [hs] at hslot
    by_cases hjk : j = k
    · subst hjk
      obtain ⟨_, rfl⟩ : j < q.slots.length ∧ s = Slot.queued body := by
        simpa [List.getElem?_set] using hslot
      obtain ⟨s', hs', hbody⟩ := hqueued body rfl
      rw [hvisited.later (Nat.le_refl j)] at hs'
      exact ⟨s', hs', hbody⟩
    · rw [List.getElem?_set_ne (Ne.symm hjk)] at hslot
      exact hvisited.queued hslot

theorem foldl_visited (hbusy : busy → p.tally.arrivals ≠ []) (htended : Tended reaches p.slots)
    {k : Nat} (hk : k ≤ p.slots.length) :
    Visited busy next k p ((List.range k).foldl (Stage.visit reaches) p) := by
  induction k with
  | zero => exact .refl p
  | succ k ih =>
      have hvisited := ih (by omega)
      rw [List.range_succ, List.foldl_append]
      refine hvisited.step (visit_advances (fun h => hvisited.arrivals (hbusy h)) hvisited.before
        (fun s body hslot hbody => ?_) (by rw [hvisited.length]; omega))
      rw [hvisited.later (Nat.le_refl k)] at hslot
      exact htended k s body hslot hbody

theorem carry_line : (p.carry reach i).tally.line = p.tally.line := by
  unfold Stage.carry
  split <;> rfl

/-- The first one in the line leaves it in its turn. -/
theorem deal_line {rest : List Nat} (hline : p.tally.line = i :: rest) (hfree : p.tally.free ≠ 0) :
    (p.deal reach i (.queued body)).tally.line = rest := by
  unfold Stage.deal Tally.deal
  cases p.world.isClosed p.tally.pool with
  | true => simp [hline, Tally.arrive]
  | false => simp [hline, hfree, carry_line]

theorem RestingSlots.set {spin : Prop} {s : Slot Activity} (hslots : RestingSlots spin slots)
    (hs : s.Calm (Resting spin)) : RestingSlots spin (slots.set i s) := by
  refine restingSlots_iff.mpr fun s' hs' => ?_
  rcases List.mem_or_eq_of_mem_set hs' with hmem | rfl
  · exact restingSlots_iff.mp hslots s' hmem
  · exact hs

/-- The turns of those that wait in the line lead to where no one else can be served. -/
theorem serve_reaches {line : List Nat} (hbusy : busy → p.tally.arrivals ≠ [])
    (hslots : RestingSlots True p.slots) (hline : p.tally.line = line)
    (hqueued : ∀ (j : Nat) (body : Activity), p.slots[j]? = some (.queued body) →
      ∃ reach, reaches[j]? = some reach ∧ Carries reach body) :
    Reaches busy (p.activity next) p.world ((p.serve reaches line).activity next)
        (p.serve reaches line).world ∧
      Readable (p.serve reaches line).tally (p.serve reaches line).slots := by
  induction line generalizing p with
  | nil =>
      refine ⟨.stop, hslots, fun i body hfirst => ?_⟩
      rw [Stage.serve, hline] at hfirst
      cases hfirst
  | cons i rest ih =>
      rw [Stage.serve]
      split
      next hfree => exact ⟨.stop, hslots, fun _ _ _ _ => hfree⟩
      next hfree =>
        split
        next reach body hreach hslot =>
          obtain ⟨reach', hreach', hcarries⟩ := hqueued i body hslot
          rw [hreach, Option.some.injEq] at hreach'
          subst hreach'
          have hturn : InTurn p.tally p.slots i :=
            ⟨(restingSlots_append.mp ((List.take_append_drop i p.slots).symm ▸ hslots)).1,
              fun _ _ => ⟨hslots, by rw [hline]; rfl, hfree⟩⟩
          have hdeal : Advances busy next i p (p.deal reach i (.queued body)) :=
            deal_advances hbusy hturn hslot (.inr rfl) hcarries
          obtain ⟨hreaches, ⟨s, hs, hcalm, hstill⟩, harrivals⟩ := hdeal
          obtain ⟨hrest, hreadable⟩ := ih (fun h => harrivals (hbusy h)) (hs ▸ hslots.set hcalm)
            (deal_line hline hfree) fun j body' hslot' => by
              rw [hs] at hslot'
              by_cases hj : j = i
              · subst hj
                obtain ⟨_, rfl⟩ : j < p.slots.length ∧ s = Slot.queued body' := by
                  simpa [List.getElem?_set] using hslot'
                obtain ⟨s', hs', hbody⟩ := hstill body' rfl
                rw [hslot, Option.some.injEq] at hs'
                subst hs'
                obtain rfl := Option.some.inj hbody
                exact ⟨reach, hreach, hcarries⟩
              · rw [List.getElem?_set_ne (Ne.symm hj)] at hslot'
                exact hqueued j body' hslot'
          exact ⟨hreaches.trans hrest, hreadable⟩
        next hnot =>
          refine ⟨.stop, hslots, fun j body hfirst hslot => ?_⟩
          rw [hline] at hfirst
          cases hfirst
          obtain ⟨reach, hreach, _⟩ := hqueued i body hslot
          exact (hnot reach body hreach hslot).elim

/-! ### What has ended is read -/

/-- What has ended is read to the last. -/
theorem reads_reach {reports : List (Option Report)} (hreadable : Readable t slots)
    (hread : t.readAll = .ok reports) :
    Reaches busy (.fork t slots next) w
      (.fork { t with arrivals := [], reports := reports } slots next) w := by
  unfold Tally.readAll at hread
  generalize harrivals : t.arrivals = arrivals at hread
  induction arrivals generalizing t with
  | nil =>
      cases hread
      rw [← harrivals]
      exact .stop
  | cons arrival rest ih =>
      cases hverdict : Tally.verdict t.reports arrival with
      | error fault =>
          rw [Tally.readFrom, hverdict] at hread
          cases hread
      | ok reports' =>
          rw [Tally.readFrom, hverdict] at hread
          refine .move (fun _ => not_atRest_fork (by simp [harrivals]))
            (.read (fun _ => hreadable) harrivals hverdict) ?_
          exact ih (t := { t with arrivals := rest, reports := reports' }) hreadable rfl hread

/-- What has ended is read up to the first fault, and then the split is over. -/
theorem abort_reaches {fault : Nat × Fault} (hreadable : Readable t slots)
    (hread : t.readAll = .error fault) :
    Reaches busy (.fork t slots next) w (next (.error fault)) w := by
  unfold Tally.readAll at hread
  generalize harrivals : t.arrivals = arrivals at hread
  induction arrivals generalizing t with
  | nil => cases hread
  | cons arrival rest ih =>
      have hbusy (h : busy) : ¬ AtRest (.fork t slots next) :=
        not_atRest_fork (by simp [harrivals])
      cases hverdict : Tally.verdict t.reports arrival with
      | error fault' =>
          rw [Tally.readFrom, hverdict] at hread
          cases hread
          exact .move hbusy (.abort (fun _ => hreadable) harrivals hverdict) .stop
      | ok reports' =>
          rw [Tally.readFrom, hverdict] at hread
          refine .move hbusy (.read (fun _ => hreadable) harrivals hverdict) ?_
          exact ih (t := { t with arrivals := rest, reports := reports' }) hreadable rfl hread

/-- The activity has ended, stands still, or waits with its own hands at the limit of work around it. -/
def Halts (busy : Prop) (a : Activity) : Prop :=
  (∃ o, a = .done o) ∨ Still a ∨ busy ∧ AtRest a

/-- What does not hurry has ended or stands still when it halts. -/
theorem carries_of_halts (hreach : ∀ w, Reaches (false = true) a w (reach w).1 (reach w).2 ∧
    Halts (false = true) (reach w).1) : Carries reach a := by
  intro w
  obtain ⟨hreaches, hdone | hstill | ⟨hearly, _⟩⟩ := hreach w
  · exact ⟨hreaches.mono False.elim, .inl hdone⟩
  · exact ⟨hreaches.mono False.elim, .inr hstill⟩
  · cases hearly

/-- What a split has come to when those that have ended have been read. -/
def Joined (busy : Prop) (next : Reading → Activity) (p : Stage) :
    (Reading × World) ⊕ Stage → Prop
  | .inl (reading, w) => Reaches busy (p.activity next) p.world (next reading) w
  | .inr q =>
    Reaches busy (p.activity next) p.world (q.activity next) q.world ∧ Halts busy (q.activity next)

theorem Joined.of_reaches {out : (Reading × World) ⊕ Stage} (hjoined : Joined busy next q out)
    (hreaches : Reaches busy (p.activity next) p.world (q.activity next) q.world) :
    Joined busy next p out := by
  cases out with
  | inl out => exact hreaches.trans hjoined
  | inr r => exact ⟨hreaches.trans hjoined.1, hjoined.2⟩

theorem join_joined (hreadable : Readable p.tally p.slots) : Joined busy next p p.join := by
  unfold Stage.join
  cases hread : p.tally.readAll with
  | error fault => exact abort_reaches hreadable hread
  | ok reports =>
      have hreaches : Reaches busy (p.activity next) p.world
          (.fork { p.tally with arrivals := [], reports := reports } p.slots next) p.world :=
        reads_reach hreadable hread
      cases hall : p.slots.all Slot.isEnded with
      | true =>
          have hended : ∀ s ∈ p.slots, s.isEnded = true := List.all_eq_true.mp hall
          refine hreaches.trans (.move (fun _ hrest => ?_) (.leave rfl hended) .stop)
          obtain ⟨s, hs, hwaits⟩ := hrest.2
          rw [hended s hs] at hwaits
          cases hwaits
      | false =>
          obtain ⟨s, hs, hwaits⟩ := List.all_eq_false.mp hall
          exact ⟨hreaches, .inr (.inl ⟨hreadable.1, rfl, hreadable.2, s, hs, Bool.eq_false_iff.mpr hwaits⟩)⟩

/-- Branches that have all ended have no turns any more. -/
theorem advance_of_ended (hended : p.slots.all Slot.isEnded = true) : p.advance reaches = p := by
  have hnot {i : Nat} {s : Slot Activity} (hslot : p.slots[i]? = some s) : ∃ o, s = .ended o :=
    Slot.isEnded_eq_true.mp (List.all_eq_true.mp hended s (List.mem_of_getElem? hslot))
  have hvisit (i : Nat) : p.visit reaches i = p := by
    unfold Stage.visit
    split
    next hslot => obtain ⟨o, heq⟩ := hnot hslot; cases heq
    next hslot => obtain ⟨o, heq⟩ := hnot hslot; cases heq
    next => rfl
  have hvisits (k : Nat) : (List.range k).foldl (Stage.visit reaches) p = p := by
    induction k with
    | zero => rfl
    | succ k ih => rw [List.range_succ, List.foldl_append, ih, List.foldl_cons, hvisit, List.foldl_nil]
  have hserve (line : List Nat) : p.serve reaches line = p := by
    cases line with
    | nil => rfl
    | cons i rest =>
        rw [Stage.serve]
        split
        · rfl
        · split
          next hslot => obtain ⟨o, heq⟩ := hnot hslot; cases heq
          next => rfl
  unfold Stage.advance
  rw [hvisits, hserve]

/-- The turns of a split. -/
theorem proceed_joined {early : Bool} (htended : Tended reaches p.slots) :
    Joined (early = true) next p (p.proceed early reaches) := by
  unfold Stage.proceed
  split
  next hearly =>
    simp only [Bool.and_eq_true, List.isEmpty_iff, Bool.not_eq_eq_eq_not, Bool.not_true] at hearly
    obtain ⟨⟨hearly, harrivals⟩, hall⟩ := hearly
    obtain ⟨s, hs, hwaits⟩ := List.all_eq_false.mp hall
    exact ⟨.stop, .inr (.inr ⟨hearly, harrivals, s, hs, Bool.eq_false_iff.mpr hwaits⟩)⟩
  next hearly =>
    cases hall : p.slots.all Slot.isEnded with
    | true =>
        rw [advance_of_ended hall]
        refine join_joined ⟨restingSlots_iff.mpr fun s hs => ?_, fun i body _ hslot => ?_⟩
        · obtain ⟨o, rfl⟩ := Slot.isEnded_eq_true.mp (List.all_eq_true.mp hall s hs)
          trivial
        · have hended := List.all_eq_true.mp hall _ (List.mem_of_getElem? hslot)
          cases hended
    | false =>
        have hbusy : early = true → p.tally.arrivals ≠ [] := fun h hnone => by
          simp [h, hnone, hall] at hearly
        have hvisited : Visited (early = true) next p.slots.length p _ :=
          foldl_visited hbusy htended (Nat.le_refl _)
        obtain ⟨hserved, hreadable⟩ := serve_reaches (fun h => hvisited.arrivals (hbusy h)) hvisited.all rfl
          fun j body hslot => by
            obtain ⟨s, hs, hbody⟩ := hvisited.queued hslot
            exact htended j s body hs hbody
        exact (join_joined hreadable).of_reaches (hvisited.reaches.trans hserved)

theorem settle_within_done {left : Nat} {early : Bool} {next : Option Outcome → Activity} {o : Outcome}
    (hbody : settle body (early || left == 0) w = (.done o, v)) :
    settle (.within left body next) early w = settle (next (some o)) early v := by
  rw [settle, hbody]

theorem settle_within_waits {left : Nat} {early : Bool} {next : Option Outcome → Activity}
    (hbody : settle body (early || left == 0) w = (b, v)) (hb : ∀ o, b ≠ .done o) :
    settle (.within left body next) early w =
      if left = 0 ∧ AtRest b then settle (next none) early v else (.within left b next, v) := by
  rw [settle, hbody]
  cases b with
  | done o => exact (hb o rfl).elim
  | _ => rfl

mutual

/-- **`settle` is a run** in which no time passes and nobody else has a turn, to a point where the
activity has ended or stands still. -/
theorem settle_carries (a : Activity) (early : Bool) (w : World) :
    Reaches (early = true) a w (settle a early w).1 (settle a early w).2 ∧
      Halts (early = true) (settle a early w).1 := by
  match a with
  | .done o => exact ⟨.stop, .inl ⟨o, rfl⟩⟩
  | .act f next =>
      obtain ⟨hreaches, hhalts⟩ := settle_carries (next w) early (f w)
      exact ⟨.move (fun _ => id) .act hreaches, hhalts⟩
  | .sleep ms next =>
      by_cases hms : ms = 0
      · subst hms
        obtain ⟨hreaches, hhalts⟩ := settle_carries (next w) early w
        exact ⟨.move (fun _ h => h rfl) .wake hreaches, hhalts⟩
      · rw [settle, if_neg hms]
        exact ⟨.stop, .inr (.inl hms)⟩
  | .never => exact ⟨.stop, .inr (.inl trivial)⟩
  | .within left body next =>
      obtain ⟨hreaches, hhalts⟩ := settle_carries body (early || left == 0) w
      rcases hbody : settle body (early || left == 0) w with ⟨b, v⟩
      rw [hbody] at hreaches hhalts
      have hinside : Reaches (early = true) (.within left body next) w (.within left b next) v :=
        hreaches.inside (fun h => by simp [h]) fun h => by simp [h]
      by_cases hdone : ∃ o, b = .done o
      · obtain ⟨o, rfl⟩ := hdone
        rw [settle_within_done hbody]
        obtain ⟨hrest, hhalts⟩ := settle_carries (next (some o)) early v
        exact ⟨hinside.trans (.move (fun _ h => h.2) .inTime hrest), hhalts⟩
      · rw [settle_within_waits hbody fun o ho => hdone ⟨o, ho⟩]
        split
        next hlate =>
          obtain ⟨rfl, hb⟩ := hlate
          obtain ⟨hrest, hhalts⟩ := settle_carries (next none) early v
          exact ⟨hinside.trans (.move (fun _ h => h.1 rfl) (.late hb) hrest), hhalts⟩
        next hwaits =>
          refine ⟨hinside, ?_⟩
          rcases hhalts with hdone' | hstill | ⟨hearly, hb⟩
          · exact (hdone hdone').elim
          · exact .inr (.inl ⟨hstill, fun hleft hb => hwaits ⟨hleft, hb⟩⟩)
          · have hleft : left ≠ 0 := fun hleft => hwaits ⟨hleft, hb⟩
            exact .inr (.inr ⟨by simpa [hleft] using hearly, hleft, hb⟩)
  | .fork tally slots next =>
      have hjoined : Joined (early = true) next ⟨tally, slots, w⟩ _ :=
        proceed_joined (reaches_tended slots)
      rw [settle]
      rcases hout : Stage.proceed early (Activity.reaches slots) ⟨tally, slots, w⟩ with ⟨reading, v⟩ | q
      · rw [hout] at hjoined
        obtain ⟨hrest, hhalts⟩ := settle_carries (next reading) early v
        exact ⟨hjoined.trans hrest, hhalts⟩
      · rw [hout] at hjoined
        exact hjoined

theorem reaches_tended (slots : List (Slot Activity)) : Tended (Activity.reaches slots) slots := by
  match slots with
  | [] => exact fun i s body hslot => by simp at hslot
  | .ended o :: rest => exact tended_cons (reaches_tended rest) nofun
  | .fresh b :: rest | .queued b :: rest | .running b :: rest =>
      refine tended_cons (reaches_tended rest) fun body hbody => ?_
      cases hbody
      exact carries_of_halts (settle_carries b false)

end

/-- What has been settled has ended or stands still. -/
theorem settle_rests (a : Activity) (w : World) : Rests (settle a false w).1 :=
  (carries_of_halts (settle_carries a false) w).2

theorem settle_reaches (a : Activity) (w : World) :
    Reaches False a w (settle a false w).1 (settle a false w).2 :=
  (carries_of_halts (settle_carries a false) w).1

/-! ### What `run` does is a run -/

/-- A settled activity lets time pass for as long as the time has not come at which it goes on. -/
theorem Settled.waits (ha : Settled a) {k : Nat} (hk : ∀ j < k, Ahead j (wake? a)) (w : World) :
    Run ordered a w (List.replicate k .tick) (a.elapse k) (w.wait k) := by
  induction k with
  | zero =>
      rw [elapse_zero]
      exact .stop
  | succ k ih =>
      have hbefore := ih fun j hj => hk j (by omega)
      have hstill : Settled (a.elapse k) := ha.elapse (hk k (by omega))
      have htick : Run ordered (a.elapse k) (w.wait k) [.tick] (a.elapse (k + 1))
          (w.wait (k + 1)) := by
        rw [← elapse_elapse]
        exact .tick hstill .stop
      rw [List.replicate_succ']
      exact hbefore.append htick

theorem alone_ticks (k : Nat) : Alone (List.replicate k .tick) := by
  intro w v hmem
  cases List.eq_of_mem_replicate hmem

theorem run_done {fuel : Nat} {o : Outcome} (hsettle : settle a false w = (.done o, v)) :
    run fuel a w = some (o, v) := by
  rw [run, hsettle]

theorem run_still {fuel : Nat} (hsettle : settle a false w = (b, v)) (hb : Still b) :
    run fuel a w =
      if spins b then none
      else
        match fuel, wake? b with
        | fuel + 1, some ms => run fuel (elapse ms b) (v.wait ms)
        | _, _ => none := by
  rw [run, hsettle]
  cases b with
  | done o => exact (not_resting_done hb).elim
  | _ => rfl

/-- The ways in which `run` comes to an end: at once, or after a pause. -/
theorem run_cases {fuel : Nat} {o : Outcome} (hrun : run fuel a w = some (o, v)) :
    settle a false w = (.done o, v) ∨
      ∃ less b u ms, settle a false w = (b, u) ∧ Settled b ∧ wake? b = some ms ∧ fuel = less + 1 ∧
        run less (elapse ms b) (u.wait ms) = some (o, v) := by
  have hrests := settle_rests a w
  rcases hsettle : settle a false w with ⟨b, u⟩
  rw [hsettle] at hrests
  rcases hrests with ⟨o', rfl⟩ | hb
  · rw [run_done hsettle] at hrun
    cases hrun
    exact Or.inl rfl
  · rw [run_still hsettle hb] at hrun
    cases hspins : spins b with
    | true => simp [hspins] at hrun
    | false =>
        have hsettled := settled_of_still hb hspins
        cases fuel with
        | zero => simp at hrun
        | succ less =>
            cases hwake : wake? b with
            | none => simp [hwake] at hrun
            | some ms =>
                simp only [hspins, Bool.false_eq_true, if_false, hwake] at hrun
                exact Or.inr ⟨less, b, u, ms, rfl, hsettled, hwake, rfl, hrun⟩

/-- **What `run` computes is the end of a run** that nobody else takes part in. -/
theorem run_reaches {fuel : Nat} {o : Outcome} (hrun : run fuel a w = some (o, v)) :
    ∃ h, Alone h ∧ Run True a w h (.done o) v := by
  induction fuel using Nat.strongRecOn generalizing a w with
  | ind fuel ih =>
      obtain ⟨h, hinstant, hreached⟩ : ∃ h, Instant h ∧ Run True a w h _ _ := (settle_reaches a w).run
      rcases run_cases hrun with hsettle | ⟨less, b, u, ms, hsettle, hb, hwake, rfl, hrest⟩
      · rw [hsettle] at hreached
        exact ⟨h, hinstant.1, hreached⟩
      · rw [hsettle] at hreached
        obtain ⟨g, halone, hlater⟩ := ih less (by omega) hrest
        have hahead : ∀ j < ms, Ahead j (wake? b) := by
          intro j hj ms' hms'
          rw [hwake, Option.some.injEq] at hms'
          omega
        have hpause : Run True b u _ _ _ := hb.waits hahead u
        refine ⟨h ++ (List.replicate ms .tick ++ g), ?_, hreached.append (hpause.append hlater)⟩
        exact alone_append.mpr ⟨hinstant.1, alone_append.mpr ⟨alone_ticks ms, halone⟩⟩

end Activity

end Runsheet
