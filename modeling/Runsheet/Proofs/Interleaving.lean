import Runsheet.Proofs.Rest

/-!
# Interleavings

Activities one move at a time.  `Move` says what a part of an activity can do next and in which way
that part is reached; `Run` records a history in which the moves of an activity, the changes that
others make to the world and the passing of milliseconds take turns.  Time passes only when the
activity is settled.

The parameter `ordered` says whether the parts of an activity go one after the other, as `settle`
lets them, or in any order at all: with `ordered := False` a statement about runs holds of every
interleaving.

* `Still.not_move`, `not_move_done` — nothing moves in turn that stands still, or at all that has ended;
* `Run.append`, `Run.split` — histories are put together and taken apart;
* `Run.invariant` — what every turn keeps holds after every history.
-/

namespace Runsheet

namespace Activity

/-- The way to a part of an activity: the splits around it, the outermost first, each with the
number of the branch. -/
abbrev Way := List (Pool × Nat)

/-- It is the turn of a branch: those before it stand still; and if it waits for a permit, all others do,
too, and it is the first in the line and there is a permit. -/
def InTurn (tally : Tally) (slots : List (Slot Activity)) (i : Nat) : Prop :=
  RestingSlots True (slots.take i) ∧
    ∀ body, slots[i]? = some (.queued body) →
      RestingSlots True slots ∧ tally.line.head? = some i ∧ tally.free ≠ 0

/-- The branches have had their turns, and those that have ended can be read. -/
def Readable (tally : Tally) (slots : List (Slot Activity)) : Prop :=
  RestingSlots True slots ∧ tally.Served slots

/-- **A move** of the part of an activity that is reached on a way.  A branch that asks for a permit or
waits for one has turns of its own, and so has one that has come to its end.  What work that has reached
its limit can still do is done before the limit stops it only if the work does not wait with its own
hands; the branches of its splits may be in time or not. -/
inductive Move (ordered : Prop) : Way → Activity → World → Activity → World → Prop
  | act {f : World → World} {next : World → Activity} {w : World} :
      Move ordered [] (.act f next) w (next w) (f w)
  | wake {next : World → Activity} {w : World} :
      Move ordered [] (.sleep 0 next) w (next w) w
  | inside {way : Way} {left : Nat} {a b : Activity} {next : Option Outcome → Activity}
      {w v : World} (hturn : ordered → left = 0 → ¬ AtRest a) (hmove : Move ordered way a w b v) :
      Move ordered way (.within left a next) w (.within left b next) v
  | inTime {left : Nat} {o : Outcome} {next : Option Outcome → Activity} {w : World} :
      Move ordered [] (.within left (.done o) next) w (next (some o)) w
  | late {a : Activity} {next : Option Outcome → Activity} {w : World} (hrest : AtRest a) :
      Move ordered [] (.within 0 a next) w (next none) w
  | deal {i : Nat} {t t' : Tally} {slots : List (Slot Activity)} {s s' : Slot Activity}
      {next : Reading → Activity} {w : World} (hturn : ordered → InTurn t slots i)
      (hslot : slots[i]? = some s) (hdeal : t.deal (w.isClosed t.pool) i s = some (t', s')) :
      Move ordered [(t.pool, i)] (.fork t slots next) w (.fork t' (slots.set i s') next) w
  | branch {way : Way} {i : Nat} {t : Tally} {slots : List (Slot Activity)} {a b : Activity}
      {next : Reading → Activity} {w v : World} (hturn : ordered → InTurn t slots i)
      (hslot : slots[i]? = some (.running a)) (hmove : Move ordered way a w b v) :
      Move ordered ((t.pool, i) :: way) (.fork t slots next) w
        (.fork t (slots.set i (.running b)) next) v
  | finish {i : Nat} {t : Tally} {slots : List (Slot Activity)} {o : Outcome}
      {next : Reading → Activity} {w : World} (hturn : ordered → InTurn t slots i)
      (hslot : slots[i]? = some (.running (.done o))) :
      Move ordered [(t.pool, i)] (.fork t slots next) w
        (.fork (t.finish i o) (slots.set i (.ended o)) next) w
  | read {t : Tally} {slots : List (Slot Activity)} {arrival : Arrival} {rest : List Arrival}
      {reports : List (Option Report)} {next : Reading → Activity} {w : World}
      (hturn : ordered → Readable t slots) (harrivals : t.arrivals = arrival :: rest)
      (hverdict : Tally.verdict t.reports arrival = .ok reports) :
      Move ordered [] (.fork t slots next) w
        (.fork { t with arrivals := rest, reports := reports } slots next) w
  | abort {t : Tally} {slots : List (Slot Activity)} {arrival : Arrival} {rest : List Arrival}
      {fault : Nat × Fault} {next : Reading → Activity} {w : World}
      (hturn : ordered → Readable t slots) (harrivals : t.arrivals = arrival :: rest)
      (hverdict : Tally.verdict t.reports arrival = .error fault) :
      Move ordered [] (.fork t slots next) w (next (.error fault)) w
  | leave {t : Tally} {slots : List (Slot Activity)} {next : Reading → Activity} {w : World}
      (harrivals : t.arrivals = []) (hended : ∀ s ∈ slots, s.isEnded = true) :
      Move ordered [] (.fork t slots next) w (next (.ok t.reports)) w

/-- A turn in a history: a move of the activity's own, a change that others make, or a millisecond
that passes. -/
inductive Turn
  | own (way : Way) (w v : World)
  | other (w v : World)
  | tick

/-- **A run**: an activity, a world, and the history that leads to the activity and the world that
are left.  Time passes only when nothing goes on before. -/
inductive Run (ordered : Prop) : Activity → World → List Turn → Activity → World → Prop
  | stop {a : Activity} {w : World} : Run ordered a w [] a w
  | own {way : Way} {a b c : Activity} {w v u : World} {h : List Turn}
      (hmove : Move ordered way a w b v) (hrun : Run ordered b v h c u) :
      Run ordered a w (.own way w v :: h) c u
  | other {a c : Activity} {w v u : World} {h : List Turn} (hrun : Run ordered a v h c u) :
      Run ordered a w (.other w v :: h) c u
  | tick {a c : Activity} {w u : World} {h : List Turn} (hsettled : Settled a)
      (hrun : Run ordered (elapse 1 a) (w.wait 1) h c u) :
      Run ordered a w (.tick :: h) c u

/-- The milliseconds of a history. -/
def ticks : List Turn → Nat
  | [] => 0
  | .tick :: h => ticks h + 1
  | _ :: h => ticks h

/-- No one else has a turn in the history. -/
def Alone (h : List Turn) : Prop :=
  ∀ w v, Turn.other w v ∉ h

/-- Only others have turns in the history. -/
def Idle (h : List Turn) : Prop :=
  ∀ t ∈ h, ∃ w v, t = .other w v

/-- The turns of others keep a property of the world. -/
def Kept (P : World → Prop) (h : List Turn) : Prop :=
  ∀ w v, .other w v ∈ h → P w → P v

/-- A turn as a branch of a split sees it: the moves of the branch are its own, and every other move
is made by others. -/
def Turn.seenBy (pool : Pool) (i : Nat) : Turn → Turn
  | .own [] w v => .other w v
  | .own (step :: way) w v => if step = (pool, i) then .own way w v else .other w v
  | .other w v => .other w v
  | .tick => .tick

/-- A history as a branch of a split sees it. -/
def view (pool : Pool) (i : Nat) (h : List Turn) : List Turn :=
  h.map (Turn.seenBy pool i)

/-- The own turns of the history are no turns of branches. -/
def Unsplit (h : List Turn) : Prop :=
  ∀ way w v, .own way w v ∈ h → way = []

/-- The own turns of the history change the log alone. -/
def Silent (h : List Turn) : Prop :=
  ∀ way w v, .own way w v ∈ h → { v with events := w.events } = w

/-- The world that a history leaves. -/
def worldAfter : World → List Turn → World
  | w, [] => w
  | _, .own _ _ v :: h | _, .other _ v :: h => worldAfter v h
  | w, .tick :: h => worldAfter (w.wait 1) h

/-- The branch of a split has no turn in the history. -/
def Quiet (pool : Pool) (i : Nat) (h : List Turn) : Prop :=
  ∀ way w v, .own ((pool, i) :: way) w v ∉ h

/-! ### Histories -/

@[simp] theorem ticks_nil : ticks [] = 0 := rfl

@[simp] theorem ticks_own {way : Way} {w v : World} {h : List Turn} :
    ticks (.own way w v :: h) = ticks h := rfl

@[simp] theorem ticks_other {w v : World} {h : List Turn} :
    ticks (.other w v :: h) = ticks h := rfl

@[simp] theorem ticks_tick {h : List Turn} : ticks (.tick :: h) = ticks h + 1 := rfl

@[simp] theorem ticks_append (h g : List Turn) : ticks (h ++ g) = ticks h + ticks g := by
  induction h with
  | nil => simp
  | cons t h ih =>
      cases t with
      | own way w v => simp [ih]
      | other w v => simp [ih]
      | tick =>
          simp only [List.cons_append, ticks_tick, ih]
          omega

/-- A branch sees the same time pass as its split. -/
@[simp] theorem ticks_view (pool : Pool) (i : Nat) (h : List Turn) :
    ticks (view pool i h) = ticks h := by
  induction h with
  | nil => rfl
  | cons t h ih =>
      have hcons : view pool i (t :: h) = t.seenBy pool i :: view pool i h := rfl
      rw [hcons]
      rcases t with ⟨_ | ⟨step, way⟩, w, v⟩ | ⟨w, v⟩ | _
      · simp [Turn.seenBy, ih]
      · by_cases hstep : step = (pool, i) <;> simp [Turn.seenBy, hstep, ih]
      · simp [Turn.seenBy, ih]
      · simp [Turn.seenBy, ih]

@[simp] theorem view_nil (pool : Pool) (i : Nat) : view pool i [] = [] := rfl

theorem view_cons (pool : Pool) (i : Nat) (t : Turn) (h : List Turn) :
    view pool i (t :: h) = t.seenBy pool i :: view pool i h := rfl

theorem view_append (pool : Pool) (i : Nat) (h g : List Turn) :
    view pool i (h ++ g) = view pool i h ++ view pool i g := by
  simp [view]

theorem alone_nil : Alone [] := by
  simp [Alone]

theorem alone_append {h g : List Turn} : Alone (h ++ g) ↔ Alone h ∧ Alone g := by
  simp only [Alone, List.mem_append, not_or]
  exact ⟨fun hall => ⟨fun w v => (hall w v).1, fun w v => (hall w v).2⟩,
    fun hall w v => ⟨hall.1 w v, hall.2 w v⟩⟩

theorem alone_cons {t : Turn} {h : List Turn} :
    Alone (t :: h) ↔ (∀ w v, t ≠ .other w v) ∧ Alone h := by
  simp only [Alone, List.mem_cons, not_or]
  exact ⟨fun hall => ⟨fun w v ht => (hall w v).1 ht.symm, fun w v => (hall w v).2⟩,
    fun hall w v => ⟨fun ht => hall.1 w v ht.symm, hall.2 w v⟩⟩

theorem idle_nil : Idle [] := by
  simp [Idle]

theorem Idle.other {w v : World} {h : List Turn} (hidle : Idle h) : Idle (.other w v :: h) := by
  simpa [Idle] using hidle

theorem Idle.ticks {h : List Turn} (hidle : Idle h) : ticks h = 0 := by
  induction h with
  | nil => rfl
  | cons t h ih =>
      obtain ⟨w, v, rfl⟩ := hidle t (List.mem_cons_self ..)
      exact ih fun t ht => hidle t (List.mem_cons_of_mem _ ht)

theorem Idle.alone {h : List Turn} (hidle : Idle h) (halone : Alone h) : h = [] := by
  cases h with
  | nil => rfl
  | cons t h =>
      obtain ⟨w, v, rfl⟩ := hidle t (List.mem_cons_self ..)
      exact (halone w v (List.mem_cons_self ..)).elim

theorem forall_own_append {P : Way → World → World → Prop} {h g : List Turn} :
    (∀ way w v, .own way w v ∈ h ++ g → P way w v) ↔
      (∀ way w v, .own way w v ∈ h → P way w v) ∧ ∀ way w v, .own way w v ∈ g → P way w v := by
  simp only [List.mem_append, or_imp, forall_and]

theorem forall_other_append {P : World → World → Prop} {h g : List Turn} :
    (∀ w v, .other w v ∈ h ++ g → P w v) ↔
      (∀ w v, .other w v ∈ h → P w v) ∧ ∀ w v, .other w v ∈ g → P w v := by
  simp only [List.mem_append, or_imp, forall_and]

theorem unsplit_append {h g : List Turn} : Unsplit (h ++ g) ↔ Unsplit h ∧ Unsplit g :=
  forall_own_append

theorem unsplit_own {w v : World} {h : List Turn} : Unsplit (.own [] w v :: h) ↔ Unsplit h := by
  simp only [Unsplit, List.mem_cons, Turn.own.injEq]
  exact ⟨fun hall way w v hmem => hall way w v (Or.inr hmem), fun hall way w v hmem =>
    hmem.elim (fun heq => heq.1) (hall way w v)⟩

theorem Idle.unsplit {h : List Turn} (hidle : Idle h) : Unsplit h := by
  intro way w v hmem
  obtain ⟨x, y, heq⟩ := hidle _ hmem
  cases heq

theorem Unsplit.quiet {h : List Turn} (hunsplit : Unsplit h) (pool : Pool) (i : Nat) :
    Quiet pool i h :=
  fun way w v hmem => by simpa using hunsplit _ w v hmem

theorem silent_append {h g : List Turn} : Silent (h ++ g) ↔ Silent h ∧ Silent g :=
  forall_own_append

theorem silent_own {way : Way} {w v : World} {h : List Turn} :
    Silent (.own way w v :: h) ↔ { v with events := w.events } = w ∧ Silent h := by
  simp only [Silent, List.mem_cons, Turn.own.injEq]
  refine ⟨fun hall => ⟨hall way w v (Or.inl ⟨rfl, rfl, rfl⟩), fun way w v hmem =>
    hall way w v (Or.inr hmem)⟩, ?_⟩
  rintro ⟨hown, hall⟩ way' x y (⟨rfl, rfl, rfl⟩ | hmem)
  · exact hown
  · exact hall way' x y hmem

theorem Idle.silent {h : List Turn} (hidle : Idle h) : Silent h := by
  intro way w v hmem
  obtain ⟨x, y, heq⟩ := hidle _ hmem
  cases heq

theorem worldAfter_append (w : World) (h g : List Turn) :
    worldAfter w (h ++ g) = worldAfter (worldAfter w h) g := by
  induction h generalizing w with
  | nil => rfl
  | cons t h ih =>
      cases t with
      | own way x y => exact ih y
      | other x y => exact ih y
      | tick => exact ih (w.wait 1)

/-- A branch sees the same worlds. -/
theorem worldAfter_view (pool : Pool) (i : Nat) (w : World) (h : List Turn) :
    worldAfter w (view pool i h) = worldAfter w h := by
  induction h generalizing w with
  | nil => rfl
  | cons t h ih =>
      rw [view_cons]
      rcases t with ⟨_ | ⟨step, way⟩, x, y⟩ | ⟨x, y⟩ | _
      · exact ih y
      · by_cases hstep : step = (pool, i)
        · simp only [Turn.seenBy, hstep, if_true]
          exact ih y
        · simp only [Turn.seenBy, hstep, if_false]
          exact ih y
      · exact ih y
      · exact ih (w.wait 1)

theorem quiet_nil {pool : Pool} {i : Nat} : Quiet pool i [] := by
  simp [Quiet]

theorem quiet_append {pool : Pool} {i : Nat} {h g : List Turn} :
    Quiet pool i (h ++ g) ↔ Quiet pool i h ∧ Quiet pool i g := by
  simp only [Quiet, List.mem_append, not_or]
  exact ⟨fun hall => ⟨fun way w v => (hall way w v).1, fun way w v => (hall way w v).2⟩,
    fun hall way w v => ⟨hall.1 way w v, hall.2 way w v⟩⟩

theorem quiet_cons {pool : Pool} {i : Nat} {t : Turn} {h : List Turn} :
    Quiet pool i (t :: h) ↔ (∀ way w v, t ≠ .own ((pool, i) :: way) w v) ∧ Quiet pool i h := by
  simp only [Quiet, List.mem_cons, not_or]
  exact ⟨fun hall => ⟨fun way w v ht => (hall way w v).1 ht.symm, fun way w v => (hall way w v).2⟩,
    fun hall way w v => ⟨fun ht => hall.1 way w v ht.symm, hall.2 way w v⟩⟩

section

variable {P : World → Prop}

theorem kept_append {h g : List Turn} : Kept P (h ++ g) ↔ Kept P h ∧ Kept P g :=
  forall_other_append

theorem Alone.kept {h : List Turn} (halone : Alone h) : Kept P h :=
  fun w v hmem => (halone w v hmem).elim

theorem Kept.tail {t : Turn} {h : List Turn} (hkept : Kept P (t :: h)) : Kept P h :=
  fun w v hmem => hkept w v (List.mem_cons_of_mem _ hmem)

end

/-! ### What a branch sees -/

theorem seenBy_own {pool : Pool} {i : Nat} {t : Turn} {way : Way} {w v : World}
    (hseen : t.seenBy pool i = .own way w v) : t = .own ((pool, i) :: way) w v := by
  rcases t with ⟨_ | ⟨step, rest⟩, x, y⟩ | ⟨x, y⟩ | _
  · cases hseen
  · by_cases hstep : step = (pool, i)
    · subst hstep
      simp only [Turn.seenBy, if_true] at hseen
      cases hseen
      rfl
    · simp only [Turn.seenBy, hstep, if_false] at hseen
      cases hseen
  · cases hseen
  · cases hseen

theorem own_mem_view {pool : Pool} {i : Nat} {way : Way} {w v : World} {h : List Turn} :
    .own way w v ∈ view pool i h ↔ .own ((pool, i) :: way) w v ∈ h := by
  refine ⟨fun hmem => ?_, fun hmem => List.mem_map.mpr ⟨_, hmem, by simp [Turn.seenBy]⟩⟩
  obtain ⟨t, ht, hseen⟩ := List.mem_map.mp hmem
  rw [← seenBy_own hseen]
  exact ht

/-- A turn that a branch sees as one of others is none of its own. -/
theorem quiet_of_seenBy {pool : Pool} {i : Nat} {t : Turn} {w v : World}
    (hseen : t.seenBy pool i = .other w v) : Quiet pool i [t] := by
  refine quiet_cons.mpr ⟨?_, quiet_nil⟩
  rintro way x y rfl
  simp [Turn.seenBy] at hseen

theorem quiet_tick {pool : Pool} {i : Nat} : Quiet pool i [.tick] :=
  quiet_cons.mpr ⟨nofun, quiet_nil⟩

/-- A branch has no turn where it sees only turns of others. -/
theorem Idle.quiet {pool : Pool} {i : Nat} {h : List Turn} (hidle : Idle (view pool i h)) :
    Quiet pool i h := by
  intro way w v hmem
  obtain ⟨x, y, heq⟩ := hidle _ (own_mem_view.mpr hmem)
  cases heq

/-! ### Nothing moves at rest -/

variable {ordered : Prop} {way : Way} {a b c : Activity} {w v u : World} {h g : List Turn}

theorem not_move_done {o : Outcome} : ¬ Move ordered way (.done o) w b v := by
  rintro ⟨⟩

/-- **Nothing moves in turn that stands still.** -/
theorem Still.not_move (ha : Still a) : ¬ Move True way a w b v := by
  intro hmove
  induction hmove with
  | act => exact ha
  | wake => exact ha rfl
  | inside _ _ ih => exact ih ha.1
  | inTime => exact ha.1
  | late hrest => exact ha.2 rfl hrest
  | deal hturn hslot hdeal =>
      obtain ⟨hslots, _, hserved, _⟩ := ha
      obtain ⟨body, rfl | rfl⟩ := (Tally.dealt_iff.mp hdeal).waits
      · exact hslots.calm hslot
      · obtain ⟨_, hfirst, hfree⟩ := (hturn trivial).2 body hslot
        exact hfree (hserved _ body hfirst hslot)
  | branch _ hslot _ ih => exact ih (ha.1.of_getElem? hslot)
  | finish _ hslot => exact not_resting_done (ha.1.of_getElem? hslot)
  | read _ harrivals => exact absurd (harrivals.symm.trans ha.2.1) (List.cons_ne_nil _ _)
  | abort _ harrivals => exact absurd (harrivals.symm.trans ha.2.1) (List.cons_ne_nil _ _)
  | leave _ hended =>
      obtain ⟨s, hs, hwaits⟩ := ha.2.2.2
      rw [hended s hs] at hwaits
      cases hwaits

/-! ### The moves of a split -/

/-- A turn of a branch: it asks for its permit or gets what it waits for, it works, or it has come to its
end and gives the permit back. -/
inductive BranchMove (ordered : Prop) (i : Nat) :
    Way → Tally → Slot Activity → World → Tally → Slot Activity → World → Prop
  | dealt {t t' : Tally} {s s' : Slot Activity} {w : World}
      (hdealt : t.Dealt (w.isClosed t.pool) i s t' s') : BranchMove ordered i [] t s w t' s' w
  | works {way : Way} {t : Tally} {a b : Activity} {w v : World} (hmove : Move ordered way a w b v) :
      BranchMove ordered i way t (.running a) w t (.running b) v
  | finishes {t : Tally} {o : Outcome} {w : World} :
      BranchMove ordered i [] t (.running (.done o)) w (t.finish i o) (.ended o) w

/-- The moves of a split: a turn of a branch, or what is read of those that have ended. -/
inductive ForkMove (ordered : Prop) (t : Tally) (slots : List (Slot Activity))
    (next : Reading → Activity) : Way → World → Activity → World → Prop
  | turn {i : Nat} {way : Way} {t' : Tally} {s s' : Slot Activity} {w v : World}
      (hturn : ordered → InTurn t slots i) (hslot : slots[i]? = some s)
      (hmove : BranchMove ordered i way t s w t' s' v) :
      ForkMove ordered t slots next ((t.pool, i) :: way) w (.fork t' (slots.set i s') next) v
  | read {arrival : Arrival} {rest : List Arrival} {reports : List (Option Report)} {w : World}
      (hturn : ordered → Readable t slots) (harrivals : t.arrivals = arrival :: rest)
      (hverdict : Tally.verdict t.reports arrival = .ok reports) :
      ForkMove ordered t slots next [] w
        (.fork { t with arrivals := rest, reports := reports } slots next) w
  | abort {arrival : Arrival} {rest : List Arrival} {fault : Nat × Fault} {w : World}
      (hturn : ordered → Readable t slots) (harrivals : t.arrivals = arrival :: rest)
      (hverdict : Tally.verdict t.reports arrival = .error fault) :
      ForkMove ordered t slots next [] w (next (.error fault)) w
  | leave {w : World} (harrivals : t.arrivals = []) (hended : ∀ s ∈ slots, s.isEnded = true) :
      ForkMove ordered t slots next [] w (next (.ok t.reports)) w

theorem Move.of_fork {t : Tally} {slots : List (Slot Activity)} {next : Reading → Activity}
    (hmove : Move ordered way (.fork t slots next) w c v) :
    ForkMove ordered t slots next way w c v := by
  cases hmove with
  | deal hturn hslot hdeal => exact .turn hturn hslot (.dealt (Tally.dealt_iff.mp hdeal))
  | branch hturn hslot hmove => exact .turn hturn hslot (.works hmove)
  | finish hturn hslot => exact .turn hturn hslot .finishes
  | read hturn harrivals hverdict => exact .read hturn harrivals hverdict
  | abort hturn harrivals hverdict => exact .abort hturn harrivals hverdict
  | leave harrivals hended => exact .leave harrivals hended

/-- A turn of a branch is a move of its split. -/
theorem BranchMove.move {i : Nat} {t t' : Tally} {slots : List (Slot Activity)} {s s' : Slot Activity}
    {next : Reading → Activity} (hmove : BranchMove ordered i way t s w t' s' v)
    (hturn : ordered → InTurn t slots i) (hslot : slots[i]? = some s) :
    Move ordered ((t.pool, i) :: way) (.fork t slots next) w (.fork t' (slots.set i s') next) v := by
  cases hmove with
  | dealt hdealt => exact .deal hturn hslot (Tally.dealt_iff.mpr hdealt)
  | works hmove => exact .branch hturn hslot hmove
  | finishes => exact .finish hturn hslot

/-- A turn of a branch that stands still is a turn in the line. -/
theorem BranchMove.queued {i : Nat} {t t' : Tally} {s s' : Slot Activity}
    (hmove : BranchMove True i way t s w t' s' v) (hs : s.Calm Still) : ∃ body, s = .queued body := by
  cases hmove with
  | dealt hdealt =>
      obtain ⟨body, rfl | rfl⟩ := hdealt.waits
      · exact hs.elim
      · exact ⟨body, rfl⟩
  | works hmove => exact (Still.not_move hs hmove).elim
  | finishes => exact hs.elim

/-- A branch that has ended has no turns any more. -/
theorem BranchMove.not_ended {i : Nat} {t t' : Tally} {s s' : Slot Activity}
    (hmove : BranchMove ordered i way t s w t' s' v) : ¬ s.isEnded = true := by
  cases hmove with
  | dealt hdealt =>
      obtain ⟨body, rfl | rfl⟩ := hdealt.waits
      · exact Bool.false_ne_true
      · exact Bool.false_ne_true
  | works | finishes => exact Bool.false_ne_true

/-! ### Histories are put together and taken apart -/

theorem Run.append (hl : Run ordered a w h b v) (hr : Run ordered b v g c u) :
    Run ordered a w (h ++ g) c u := by
  induction hl with
  | stop => exact hr
  | own hmove _ ih => exact .own hmove (ih hr)
  | other _ ih => exact .other (ih hr)
  | tick hsettled _ ih => exact .tick hsettled (ih hr)

/-- The runs of a branch, one after the other, as it sees the history of its split. -/
theorem Run.append_view {pool : Pool} {i : Nat} (hl : Run ordered a w (view pool i h) b v)
    (hr : Run ordered b v (view pool i g) c u) : Run ordered a w (view pool i (h ++ g)) c u := by
  rw [view_append]
  exact hl.append hr

/-- A move of a branch is a run of it along the turn that the split has. -/
theorem Move.run_view (hmove : Move ordered way a w b v) (pool : Pool) (i : Nat) :
    Run ordered a w (view pool i [.own ((pool, i) :: way) w v]) b v := by
  simpa [view, Turn.seenBy] using Run.own hmove .stop

theorem Run.split (hrun : Run ordered a w (h ++ g) c u) :
    ∃ b v, Run ordered a w h b v ∧ Run ordered b v g c u := by
  induction h generalizing a w with
  | nil => exact ⟨a, w, .stop, hrun⟩
  | cons t h ih =>
      cases hrun with
      | own hmove hrest =>
          obtain ⟨b, v, hl, hr⟩ := ih hrest
          exact ⟨b, v, .own hmove hl, hr⟩
      | other hrest =>
          obtain ⟨b, v, hl, hr⟩ := ih hrest
          exact ⟨b, v, .other hl, hr⟩
      | tick hsettled hrest =>
          obtain ⟨b, v, hl, hr⟩ := ih hrest
          exact ⟨b, v, .tick hsettled hl, hr⟩

/-- A run is taken apart at a turn of its own. -/
theorem Run.split_own {x y : World} (hrun : Run ordered a w (h ++ .own way x y :: g) c u) :
    ∃ b d, Run ordered a w h b x ∧ Move ordered way b x d y ∧ Run ordered d y g c u := by
  obtain ⟨b, z, hbefore, hafter⟩ := hrun.split
  cases hafter with
  | own hmove hrest => exact ⟨b, _, hbefore, hmove, hrest⟩

/-- A run rests at each moment that passes. -/
theorem Run.settled_at {t : Nat} (hrun : Run ordered a w h b v) (hlt : t < ticks h) :
    ∃ h₁ h₂ c x, h = h₁ ++ .tick :: h₂ ∧ ticks h₁ = t ∧ Run ordered a w h₁ c x ∧ Settled c := by
  induction hrun generalizing t with
  | stop => simp at hlt
  | @own way _ _ _ w v _ _ hmove _ ih =>
      obtain ⟨h₁, h₂, c, x, rfl, hticks, hbefore, hsettled⟩ := ih hlt
      exact ⟨.own way w v :: h₁, h₂, c, x, rfl, hticks, .own hmove hbefore, hsettled⟩
  | @other _ _ w v _ _ _ ih =>
      obtain ⟨h₁, h₂, c, x, rfl, hticks, hbefore, hsettled⟩ := ih hlt
      exact ⟨.other w v :: h₁, h₂, c, x, rfl, hticks, .other hbefore, hsettled⟩
  | @tick a b w v h hnow _ ih =>
      cases t with
      | zero => exact ⟨[], h, a, w, rfl, rfl, .stop, hnow⟩
      | succ t =>
          obtain ⟨h₁, h₂, c, x, rfl, hticks, hbefore, hsettled⟩ := ih (by simpa using hlt)
          exact ⟨.tick :: h₁, h₂, c, x, rfl, by simp [hticks], .tick hnow hbefore, hsettled⟩

theorem Run.worldAfter (hrun : Run ordered a w h b v) : v = worldAfter w h := by
  induction hrun with
  | stop => rfl
  | own _ _ ih => exact ih
  | other _ ih => exact ih
  | tick _ _ ih => exact ih

/-- What every turn does and time does, a history does. -/
theorem Run.lifts {R : World → World → Prop} (hrun : Run ordered a w h b v) (hrefl : ∀ w, R w w)
    (htrans : ∀ {w v u}, R w v → R v u → R w u) (hown : ∀ way x y, .own way x y ∈ h → R x y)
    (hother : ∀ x y, .other x y ∈ h → R x y) (htick : ∀ w, R w (w.wait 1)) : R w v := by
  induction hrun with
  | stop => exact hrefl _
  | own _ _ ih =>
      exact htrans (hown _ _ _ (List.mem_cons_self ..))
        (ih (fun way x y hmem => hown way x y (List.mem_cons_of_mem _ hmem))
          fun x y hmem => hother x y (List.mem_cons_of_mem _ hmem))
  | other _ ih =>
      exact htrans (hother _ _ (List.mem_cons_self ..))
        (ih (fun way x y hmem => hown way x y (List.mem_cons_of_mem _ hmem))
          fun x y hmem => hother x y (List.mem_cons_of_mem _ hmem))
  | tick _ _ ih =>
      exact htrans (htick _)
        (ih (fun way x y hmem => hown way x y (List.mem_cons_of_mem _ hmem))
          fun x y hmem => hother x y (List.mem_cons_of_mem _ hmem))

/-- An activity that has ended does nothing more, whatever others do. -/
theorem Run.of_done {o : Outcome} (hrun : Run ordered (.done o) w h c u) :
    c = .done o ∧ Idle h := by
  generalize hdone : Activity.done o = a at hrun
  induction hrun with
  | stop => exact ⟨rfl, idle_nil⟩
  | own hmove => exact (not_move_done (hdone ▸ hmove)).elim
  | other _ ih =>
      obtain ⟨hc, hidle⟩ := ih hdone
      exact ⟨hc, hidle.other⟩
  | tick hsettled => exact (not_resting_done (hdone ▸ hsettled)).elim

/-- What every turn keeps holds after every history. -/
theorem Run.invariant {P : Activity → World → Prop} (hrun : Run ordered a w h c u) (ha : P a w)
    (hown : ∀ {way a b w v}, P a w → Move ordered way a w b v → P b v)
    (hother : ∀ {a w v}, .other w v ∈ h → P a w → P a v)
    (htick : ∀ {a w}, P a w → Settled a → P (elapse 1 a) (w.wait 1)) : P c u := by
  induction hrun with
  | stop => exact ha
  | own hmove _ ih => exact ih (hown ha hmove) fun hmem => hother (List.mem_cons_of_mem _ hmem)
  | other _ ih =>
      exact ih (hother (List.mem_cons_self ..) ha) fun hmem =>
        hother (List.mem_cons_of_mem _ hmem)
  | tick hsettled _ ih =>
      exact ih (htick ha hsettled) fun hmem => hother (List.mem_cons_of_mem _ hmem)

/-- What others keep stays as it is for as long as only they have turns. -/
theorem Run.kept_idle {P : World → Prop} (hrun : Run ordered a w h b v) (hidle : Idle h)
    (hkept : Kept P h) (hw : P w) : P v := by
  induction hrun with
  | stop => exact hw
  | own =>
      obtain ⟨x, y, hother⟩ := hidle _ (List.mem_cons_self ..)
      cases hother
  | other _ ih =>
      exact ih (fun t ht => hidle t (List.mem_cons_of_mem _ ht)) hkept.tail
        (hkept _ _ (List.mem_cons_self ..) hw)
  | tick =>
      obtain ⟨x, y, hother⟩ := hidle _ (List.mem_cons_self ..)
      cases hother

end Activity

end Runsheet
