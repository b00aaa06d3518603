import Runsheet.Proofs.MarkedWork
import Runsheet.Proofs.Parts

/-!
# Layers

What is left of a flow, at any moment of a run, is made of layers: some piece of work — a look at a guard, a
task, the beginning of a batch, the report of a branch that is late — and around it sequences, limits and
batches.  `Works` says that a piece of
work moves within its layers, and which branches of which batches lead to it; `Layered` says that an activity
is made of such layers and of nothing else.

* `Marked.Layered.move` — every move of a piece of work is one within its layers, and what is left is layered
  as well, as long as the piece keeps to given `Terms`;
* `Marked.Layered.tick` — time keeps the layers;
* `Marked.Layered.run` — so a run keeps them, up to a move that breaks the terms.
-/

namespace Runsheet

open Activity (Way lateReport)

/-- A piece of work of which flows are made. -/
inductive Piece
  /-- The guard of a step of a sequence or of a branch. -/
  | guard (settings : Settings)
  /-- The guard of a repetition. -/
  | entry (settings : Settings)
  /-- A task. -/
  | task (executable : Executable) (brief : Brief)
  /-- The beginning of a batch. -/
  | batch
  /-- The report of a branch that is late. -/
  | late

/-- The settings of a piece that is a guard. -/
def Piece.settings? : Piece → Option Settings
  | .guard s | .entry s => some s
  | .task .. | .batch | .late => none

/-- Where the pieces of a flow stand: at which place, and in which branches of which batches, the outermost
first. -/
abbrev Layout :=
  Pool → Piece → Way → Prop

/-- The pieces within a branch of a batch. -/
def Layout.inside (L : Layout) (pool : Pool) (i : Nat) : Layout :=
  fun place piece path => L place piece ((pool, i) :: path)

/-- The purpose is that of a piece of work. -/
def Purpose.OfPiece : Purpose → Prop
  | .guard _ | .invocation | .behavior | .late => True
  | .reported _ | .upkeep => False

/-- **Terms** for the pieces of a flow: which outcomes are good, what guards may say, and whether branches may
be late.  What flows make of good outcomes is good. -/
structure Terms where
  good : Outcome → Prop
  lets : Piece → Bool → Prop
  late : Prop
  completed : good (.ok .completed)
  parallel {reports : List Report} : (∀ r ∈ reports, good (.ok r)) → good (.ok (.parallel reports))
  address {i : Nat} {fault : Fault} : good (.error fault) →
    good (.error (.branchFault i fault.message))
  refused {s : Settings} {text : String} : lets (.entry s) false → good (.ok (.failed text))
  overdue {label : String} {limit : Nat} : late → good (.ok (lateReport label limit))

namespace Marked

/-- What is left of a piece of work at a place, before one of its moves. -/
inductive Left (ordered : Prop) (e : Evaluator) (place : Pool) : Piece → Marked → Prop
  | guard {piece : Piece} {s : Settings} {next : Bool → Marked} (hpiece : piece.settings? = some s) :
      Left ordered e place piece (check place s e next)
  | invocation {x : Executable} {brief : Brief} {level : Level} {text : String} :
      Left ordered e place (.task x brief) (note ⟨place, .invocation⟩ level text
        ((x.behave e brief).marked ⟨place, .behavior⟩))
  | behavior {x : Executable} {brief : Brief} {s : Marked} {w v : World} {h : List Activity.Turn}
      (hmarks : Only (· = ⟨place, .behavior⟩) s)
      (hrun : Activity.Run ordered (x.behave e brief) w h s.plain v) :
      Left ordered e place (.task x brief) s
  | batch {name : String} {threads limit : Nat} {branches : List Marked} :
      Left ordered e place .batch (batch name place threads limit branches)
  | late {level : Level} {text label : String} {limit : Nat} :
      Left ordered e place .late (note ⟨place, .late⟩ level text (report (lateReport label limit)))

/-- **A move within layers**: the activity `a` moves to `b`, and the whole around it from `s` to `t`.  The path
names the branches of the batches on the way to it. -/
inductive Works (ordered : Prop) (m : Mark) (inner : Way) (a : Marked) (w : World) (b : Marked)
    (v : World) : Way → Marked → Marked → Prop
  | here (hmove : Move ordered m inner a w b v) : Works ordered m inner a w b v [] a b
  | onReport {path : Way} {s t : Marked} {k : Report → Marked}
      (hworks : Works ordered m inner a w b v path s t) :
      Works ordered m inner a w b v path (s.onReport k) (t.onReport k)
  | within {path : Way} {n : Mark} {left : Nat} {s t : Marked} {next : Option Outcome → Marked}
      (hturn : ordered → left = 0 → ¬ Activity.AtRest s.plain) (hnext : ∀ o, next (some o) = .done o)
      (hworks : Works ordered m inner a w b v path s t) :
      Works ordered m inner a w b v path (.within n left s next) (.within n left t next)
  | branch {path : Way} {n : Mark} {pool : Pool} {i : Nat} {tally : Tally} {slots : List (Slot Marked)}
      {s t : Marked} {name count : String} (hpool : tally.pool = pool)
      (hturn : ordered → Activity.InTurn tally (plainSlots slots) i)
      (hslot : slots[i]? = some (.running s)) (hworks : Works ordered m inner a w b v path s t) :
      Works ordered m inner a w b v ((pool, i) :: path)
        (.fork n tally slots (conclude name pool count))
        (.fork n tally (slots.set i (.running t)) (conclude name pool count))

/-- **A batch refuses a permit**: a branch asks for one or waits for it, and the pool is closed. -/
inductive Refusal (pool : Pool) : Marked → Marked → Prop
  | refuse {n : Mark} {i : Nat} {tally tally' : Tally} {slots : List (Slot Marked)}
      {slot slot' : Slot Marked} {next : Reading → Marked} (hpool : tally.pool = pool)
      (hslot : slots[i]? = some slot) (hdeal : tally.deal true i slot = some (tally', slot')) :
      Refusal pool (.fork n tally slots next) (.fork n tally' (slots.set i slot') next)

/-- A batch on the pool refuses a permit in the move, since the pool is closed. -/
def Refuses (ordered : Prop) (m : Mark) (pool : Pool) (path : Way) (s : Marked) (w : World) (t : Marked)
    (v : World) : Prop :=
  w.isClosed pool = true ∧
    ∃ inner a b, Refusal pool a b ∧ Works ordered m inner a w b v path s t

/-- A piece of the layout makes the move. -/
def Located (ordered : Prop) (e : Evaluator) (L : Layout) (m : Mark) (s : Marked) (w : World)
    (t : Marked) (v : World) : Prop :=
  ∃ path inner piece a b, L m.place piece path ∧ Left ordered e m.place piece a ∧
    Works ordered m inner a w b v path s t

end Marked

/-- **The terms allow what a piece of work does**: the fault or the report that it ends with, what its guard
says, and that it is late. -/
structure Terms.Allows (T : Terms) (e : Evaluator) (piece : Piece) (w : World) (b : Marked) : Prop where
  fault {fault : Fault} : b = .done (.error fault) → T.good (.error fault)
  report {x : Executable} {brief : Brief} {r : Report} : piece = .task x brief → b = .done (.ok r) →
    T.good (.ok r)
  guard {s : Settings} {holds : Bool} : piece.settings? = some s → s.holds e w.context = .ok holds →
    T.lets piece holds
  late : piece = .late → T.late

/-- **A piece of work breaks the terms**: its guard cannot be evaluated, or says what it may not say; its task
ends with an outcome that is not good; its batch is refused from the beginning; or it is late. -/
inductive Terms.Broken (T : Terms) (e : Evaluator) (place : Pool) (w : World) : Piece → Marked → Prop
  | error {piece : Piece} {s : Settings} {error : ExpressionError} (hpiece : piece.settings? = some s)
      (herror : s.holds e w.context = .error error) (hno : ¬ T.good (.error (.ofError error))) :
      T.Broken e place w piece (.done (.error (.ofError error)))
  | barred {piece : Piece} {s : Settings} {holds : Bool} {b : Marked}
      (hpiece : piece.settings? = some s) (hholds : s.holds e w.context = .ok holds)
      (hno : ¬ T.lets piece holds) : T.Broken e place w piece b
  | task {x : Executable} {brief : Brief} {o : Outcome} (hno : ¬ T.good o) :
      T.Broken e place w (.task x brief) (.done o)
  | refused (hclosed : w.isClosed place = true) (hno : ¬ T.good (.error .poolShutdown)) :
      T.Broken e place w .batch (.done (.error .poolShutdown))
  | late {b : Marked} (hno : ¬ T.late) : T.Broken e place w .late b

/-- What breaks the terms is not allowed. -/
theorem Terms.Broken.not_allowed {T : Terms} {e : Evaluator} {place : Pool} {w : World} {piece : Piece}
    {b : Marked} (hbroken : T.Broken e place w piece b) : ¬ T.Allows e piece w b := by
  intro hallowed
  cases hbroken with
  | error _ _ hno => exact hno (hallowed.fault rfl)
  | barred hpiece hholds hno => exact hno (hallowed.guard hpiece hholds)
  | @task x brief o hno =>
      cases o with
      | error fault => exact hno (hallowed.fault rfl)
      | ok r => exact hno (hallowed.report rfl rfl)
  | refused _ hno => exact hno (hallowed.fault rfl)
  | late hno => exact hno (hallowed.late rfl)

namespace Marked

/-- **A move heeds the terms**: what a piece of work does in it is allowed, and so is a permit that is
refused. -/
def Heeds (ordered : Prop) (e : Evaluator) (T : Terms) (L : Layout) (m : Mark) (s : Marked)
    (w : World) (t : Marked) (v : World) : Prop :=
  (∀ {path inner : Way} {piece : Piece} {a b : Marked}, L m.place piece path →
    Left ordered e m.place piece a → Works ordered m inner a w b v path s t → T.Allows e piece w b) ∧
  ∀ {path : Way} {pool : Pool}, L pool .batch path → Refuses ordered m pool path s w t v →
    T.good (.error .poolShutdown)

/-- **A move breaks the terms**: a piece of work does so in it, or a permit is refused. -/
def Breaks (ordered : Prop) (e : Evaluator) (T : Terms) (L : Layout) (m : Mark) (s : Marked)
    (w : World) (t : Marked) (v : World) : Prop :=
  (∃ path inner piece a b, L m.place piece path ∧ Left ordered e m.place piece a ∧
    Works ordered m inner a w b v path s t ∧ T.Broken e m.place w piece b) ∨
  ∃ path pool, L pool .batch path ∧ Refuses ordered m pool path s w t v ∧
    ¬ T.good (.error .poolShutdown)

/-- **An activity is layered**: it is a piece of the layout with sequences, limits and batches around it, and
what may follow by the terms is layered again. -/
inductive Layered (ordered : Prop) (e : Evaluator) (T : Terms) : Layout → Marked → Prop
  | done {L : Layout} {o : Outcome} (ho : T.good o) : Layered ordered e T L (.done o)
  | guard {L : Layout} {place : Pool} {piece : Piece} {s : Settings} {next : Bool → Marked}
      (hpiece : piece.settings? = some s) (hplace : L place piece [])
      (hnext : ∀ b, T.lets piece b → Layered ordered e T L (next b)) :
      Layered ordered e T L (check place s e next)
  | invocation {L : Layout} {place : Pool} {x : Executable} {brief : Brief} {level : Level}
      {text : String} (hplace : L place (.task x brief) []) :
      Layered ordered e T L (note ⟨place, .invocation⟩ level text
        ((x.behave e brief).marked ⟨place, .behavior⟩))
  | task {L : Layout} {place : Pool} {x : Executable} {brief : Brief} {s : Marked} {w v : World}
      {h : List Activity.Turn} (hplace : L place (.task x brief) [])
      (hmarks : Only (· = ⟨place, .behavior⟩) s)
      (hrun : Activity.Run ordered (x.behave e brief) w h s.plain v) (hlasts : ∀ o, s ≠ .done o) :
      Layered ordered e T L s
  | batch {L : Layout} {place : Pool} {name : String} {threads limit : Nat} {branches : List Marked}
      (hplace : L place .batch [])
      (hbranches : ∀ i s, branches[i]? = some s → Layered ordered e T (L.inside place i) s) :
      Layered ordered e T L (batch name place threads limit branches)
  | act {L : Layout} {m : Mark} {f : World → World} {next : World → Marked}
      (hm : ¬ m.purpose.OfPiece) (hnext : ∀ w, Layered ordered e T L (next w)) :
      Layered ordered e T L (.act m f next)
  | late {L : Layout} {place : Pool} {level : Level} {text label : String} {limit : Nat}
      (hplace : L place .late []) :
      Layered ordered e T L (note ⟨place, .late⟩ level text (report (lateReport label limit)))
  | sleep {L : Layout} {m : Mark} {ms : Nat} {next : World → Marked} (hm : ¬ m.purpose.OfPiece)
      (hnext : ∀ w, Layered ordered e T L (next w)) : Layered ordered e T L (.sleep m ms next)
  | never {L : Layout} {m : Mark} : Layered ordered e T L (.never m)
  | onReport {L : Layout} {s : Marked} {k : Report → Marked} (hs : Layered ordered e T L s)
      (hk : ∀ r, T.good (.ok r) → Layered ordered e T L (k r)) :
      Layered ordered e T L (s.onReport k)
  | within {L : Layout} {m : Mark} {left : Nat} {body : Marked} {next : Option Outcome → Marked}
      (hm : ¬ m.purpose.OfPiece) (hnext : ∀ o, next (some o) = .done o)
      (hbody : Layered ordered e T L body) (hlate : Layered ordered e T L (next none)) :
      Layered ordered e T L (.within m left body next)
  | fork {L : Layout} {m : Mark} {pool : Pool} {tally : Tally} {slots : List (Slot Marked)}
      {name count : String} (hm : ¬ m.purpose.OfPiece) (hpool : tally.pool = pool)
      (hplace : L pool .batch []) (htracks : tally.Tracks slots)
      (hparts : ∀ i s, Ongoing slots i s → Layered ordered e T (L.inside pool i) s)
      (hended : ∀ o, .ended o ∈ slots → T.good o) :
      Layered ordered e T L (.fork m tally slots (conclude name pool count))

variable {ordered : Prop} {e : Evaluator} {T : Terms} {L : Layout} {m : Mark} {way : Way}
variable {s t : Marked} {w v : World} {h : List Turn} {o : Outcome}

/-! ### Pieces of work -/

/-- The moves of a piece of work: a guard is looked at, a task begins or goes on, a batch begins, or a branch is
late. -/
theorem Left.move {place : Pool} {piece : Piece} {inner : Way} {a b : Marked}
    (hleft : Left ordered e place piece a) (hmove : Move ordered m inner a w b v) :
    (∃ s, piece.settings? = some s ∧ m.purpose = .guard s ∧
      ∀ error, s.holds e w.context = .error error → b = .done (.error (.ofError error))) ∨
    (∃ x brief, piece = .task x brief ∧ (m.purpose = .invocation ∨ m.purpose = .behavior)) ∨
    (piece = .batch ∧ m.purpose = .upkeep) ∨ (piece = .late ∧ m.purpose = .late) := by
  cases hleft with
  | guard hpiece =>
      cases hmove
      refine Or.inl ⟨_, hpiece, rfl, fun error herror => ?_⟩
      simp only [herror]
  | invocation =>
      cases hmove
      exact Or.inr (Or.inl ⟨_, _, rfl, Or.inl rfl⟩)
  | behavior hmarks _ =>
      have hm := (hmarks.move hmove).1
      exact Or.inr (Or.inl ⟨_, _, rfl, Or.inr (by rw [hm])⟩)
  | batch =>
      cases hmove
      exact Or.inr (Or.inr (Or.inl ⟨rfl, rfl⟩))
  | late =>
      cases hmove
      exact Or.inr (Or.inr (Or.inr ⟨rfl, rfl⟩))

/-- A move within layers is a move of the piece itself. -/
theorem Works.base {path inner : Way} {a b : Marked}
    (hworks : Works ordered m inner a w b v path s t) : Move ordered m inner a w b v := by
  induction hworks with
  | here hmove => exact hmove
  | onReport _ ih => exact ih
  | within _ _ _ ih => exact ih
  | branch _ _ _ _ ih => exact ih

/-- A move that does not heed the terms is that of a piece of work that does what is not allowed, or a permit
is refused. -/
theorem offence (hno : ¬ Heeds ordered e T L m s w t v) :
    (∃ path inner piece a b, L m.place piece path ∧ Left ordered e m.place piece a ∧
      Works ordered m inner a w b v path s t ∧ ¬ T.Allows e piece w b) ∨
    ∃ path pool, L pool .batch path ∧ Refuses ordered m pool path s w t v ∧
      ¬ T.good (.error .poolShutdown) := by
  refine Classical.byContradiction fun hnone => hno ⟨?_, ?_⟩
  · intro path inner piece a b hplace hleft hworks
    by_cases hallowed : T.Allows e piece w b
    · exact hallowed
    · exact (hnone (.inl ⟨path, inner, piece, a, b, hplace, hleft, hworks, hallowed⟩)).elim
  · intro path pool hplace hrefuses
    by_cases hgood : T.good (.error .poolShutdown)
    · exact hgood
    · exact (hnone (.inr ⟨path, pool, hplace, hrefuses, hgood⟩)).elim

/-! ### What is over -/

/-- A layered activity that has ended has a good outcome. -/
theorem Layered.good (hs : Layered ordered e T L s) (hdone : s = .done o) : T.good o := by
  induction hs generalizing o with
  | done ho =>
      cases hdone
      exact ho
  | task _ _ _ hlasts => exact (hlasts o hdone).elim
  | @onReport L s k hs hk ihs ihk =>
      cases s with
      | done o' =>
          cases o' with
          | error fault =>
              cases hdone
              exact ihs rfl
          | ok r => exact ihk r (ihs rfl) hdone
      | _ => cases hdone
  | _ => cases hdone

/-- What follows the branches of a batch is layered. -/
theorem Layered.conclude {name count : String} {pool : Pool} {reading : Reading}
    (hok : ∀ reports, reading = .ok reports → ∃ rs : List Report, reports = rs.map some ∧
      T.good (.ok (.parallel rs)))
    (herror : ∀ i fault, reading = .error (i, fault) → T.good (.error fault)) :
    Layered ordered e T L (conclude name pool count reading) := by
  rcases reading with ⟨i, fault⟩ | reports
  · have hgood := herror i fault rfl
    exact .act id fun _ => .act id fun _ => .done (T.address hgood)
  · obtain ⟨rs, hrs, hgood⟩ := hok reports rfl
    have hgather : gatherFrom 0 reports = .ok rs := gatherFrom_eq_ok.mpr hrs
    refine .act id fun _ => ?_
    rw [hgather]
    exact .act id fun _ => .done hgood

/-- What a task does is layered, if it is good where it ends at once. -/
theorem Layered.behave {place : Pool} {x : Executable} {brief : Brief}
    (hplace : L place (.task x brief) [])
    (hgood : ∀ o, (x.behave e brief).marked ⟨place, .behavior⟩ = .done o → T.good o) :
    Layered ordered e T L ((x.behave e brief).marked ⟨place, .behavior⟩) := by
  by_cases hdone : ∃ o, (x.behave e brief).marked ⟨place, .behavior⟩ = .done o
  · obtain ⟨o, ho⟩ := hdone
    rw [ho]
    exact .done (hgood o ho)
  · have hmarks : Only (· = ⟨place, .behavior⟩)
        ((x.behave e brief).marked ⟨place, .behavior⟩) := by
      apply only_marked
      rfl
    have hrun : Activity.Run ordered (x.behave e brief) default []
        ((x.behave e brief).marked ⟨place, .behavior⟩).plain default := by
      rw [plain_marked]
      exact .stop
    exact .task hplace hmarks hrun fun o ho => hdone ⟨o, ho⟩

/-! ### Moves -/

/-- A piece of work within layers is a piece of work of the whole, if the layers around it carry it on. -/
theorem Located.lift {L' : Layout} {s' t' : Marked} (step : Way)
    (hlocated : Located ordered e L m s w t v)
    (hL : ∀ place piece path, L place piece path → L' place piece (step ++ path))
    (hlift : ∀ {path inner a b}, Works ordered m inner a w b v path s t →
      Works ordered m inner a w b v (step ++ path) s' t') : Located ordered e L' m s' w t' v := by
  obtain ⟨path, inner, piece, a, b, hplace, hleft, hworks⟩ := hlocated
  exact ⟨step ++ path, inner, piece, a, b, hL _ _ _ hplace, hleft, hlift hworks⟩

/-- What breaks the terms within layers breaks them in the whole, if the layers around it carry it on. -/
theorem Breaks.lift {L' : Layout} {s' t' : Marked} (step : Way)
    (hbreaks : Breaks ordered e T L m s w t v)
    (hL : ∀ place piece path, L place piece path → L' place piece (step ++ path))
    (hlift : ∀ {path inner a b}, Works ordered m inner a w b v path s t →
      Works ordered m inner a w b v (step ++ path) s' t') : Breaks ordered e T L' m s' w t' v := by
  rcases hbreaks with ⟨path, inner, piece, a, b, hplace, hleft, hworks, hbroken⟩ |
    ⟨path, pool, hplace, ⟨hclosed, inner, a, b, hrefusal, hworks⟩, hno⟩
  · exact .inl ⟨step ++ path, inner, piece, a, b, hL _ _ _ hplace, hleft, hlift hworks, hbroken⟩
  · exact .inr ⟨step ++ path, pool, hL _ _ _ hplace, ⟨hclosed, inner, a, b, hrefusal, hlift hworks⟩, hno⟩

/-- What breaks the terms does not heed them. -/
theorem Breaks.not_heeds (hbreaks : Breaks ordered e T L m s w t v) :
    ¬ Heeds ordered e T L m s w t v := by
  intro hheeds
  rcases hbreaks with ⟨path, inner, piece, a, b, hplace, hleft, hworks, hbroken⟩ |
    ⟨path, pool, hplace, hrefuses, hno⟩
  · exact hbroken.not_allowed (hheeds.1 hplace hleft hworks)
  · exact hno (hheeds.2 hplace hrefuses)

/-- **If a piece of work moves, it does so within its layers.** -/
theorem Layered.located (hs : Layered ordered e T L s) (hmove : Move ordered m way s w t v)
    (hm : m.purpose.OfPiece) : Located ordered e L m s w t v := by
  induction hs generalizing m way w t v with
  | done => cases hmove
  | @guard L place piece s next hpiece hplace =>
      cases hmove with
      | act => exact ⟨[], [], piece, _, _, hplace, .guard hpiece, .here .act⟩
  | invocation hplace =>
      cases hmove with
      | act => exact ⟨[], [], _, _, _, hplace, .invocation, .here .act⟩
  | @task L place x brief s _ _ _ hplace hmarks hrun =>
      obtain ⟨rfl, -⟩ := hmarks.move hmove
      exact ⟨[], way, _, _, _, hplace, .behavior hmarks hrun, .here hmove⟩
  | batch =>
      cases hmove with
      | act => exact hm.elim
  | act hno =>
      cases hmove
      exact (hno hm).elim
  | late hplace =>
      cases hmove with
      | act => exact ⟨[], [], .late, _, _, hplace, .late, .here .act⟩
  | sleep hno =>
      cases hmove
      exact (hno hm).elim
  | never => cases hmove
  | onReport hs hk ihs ihk =>
      rcases Move.of_bind hmove with ⟨t, hfirst, rfl⟩ | ⟨o, rfl, hnext⟩
      · exact (ihs hfirst hm).lift [] (fun _ _ _ hplace => hplace) .onReport
      · cases o with
        | error fault => cases hnext
        | ok r => exact ihk r (hs.good rfl) hnext hm
  | within hno hnext hbody hlate ihbody ihlate =>
      cases hmove with
      | inside hturn hmove =>
          exact (ihbody hmove hm).lift [] (fun _ _ _ hplace => hplace) (.within hturn hnext)
      | inTime => exact (hno hm).elim
      | late => exact (hno hm).elim
  | @fork L n pool tally slots name count hno hpool hplace htracks hparts hended ih =>
      subst hpool
      cases hmove.of_fork with
      | @works _ _ i s t _ _ hturn hslot hmove =>
          exact (ih i s (ongoing_running hslot) hmove hm).lift [(tally.pool, i)]
            (fun _ _ _ hplace => hplace) fun hworks => .branch rfl hturn hslot hworks
      | passes => exact (hno hm).elim
      | ends => exact (hno hm).elim

/-- What a task leaves is layered, or breaks the terms. -/
theorem Layered.of_task {place : Pool} {x : Executable} {brief : Brief} {inner : Way} {a b : Marked}
    (hm : m.place = place) (hplace : L place (.task x brief) [])
    (hleft : Left ordered e place (.task x brief) a) (hmove : Move ordered m inner a w b v)
    (hlasts : (∀ o, b ≠ .done o) → Layered ordered e T L b) :
    Layered ordered e T L b ∨ Breaks ordered e T L m a w b v := by
  subst hm
  by_cases hdone : ∃ o, b = .done o
  · obtain ⟨o, rfl⟩ := hdone
    by_cases hgood : T.good o
    · exact Or.inl (.done hgood)
    · exact Or.inr (.inl ⟨[], inner, _, a, _, hplace, hleft, .here hmove, .task hgood⟩)
  · exact Or.inl (hlasts fun o ho => hdone ⟨o, ho⟩)

/-- What a guard leaves is layered, or breaks the terms. -/
theorem Layered.of_guard {place : Pool} {piece : Piece} {s : Settings} {next : Bool → Marked}
    (hpiece : piece.settings? = some s) (hplace : L place piece [])
    (hnext : ∀ b, T.lets piece b → Layered ordered e T L (next b))
    (hmove : Move ordered m way (check place s e next) w t v) :
    Layered ordered e T L t ∨ Breaks ordered e T L m (check place s e next) w t v := by
  have hleft : Left ordered e place piece (check place s e next) := .guard hpiece
  have hworks := Works.here hmove
  cases hmove with
  | act =>
      dsimp only at hworks ⊢
      cases hholds : s.holds e w.context with
      | ok b =>
          by_cases hlets : T.lets piece b
          · exact Or.inl (hnext b hlets)
          · rw [hholds] at hworks
            exact Or.inr
              (.inl ⟨[], [], piece, _, _, hplace, hleft, hworks, .barred hpiece hholds hlets⟩)
      | error error =>
          by_cases hgood : T.good (.error (.ofError error))
          · exact Or.inl (.done hgood)
          · rw [hholds] at hworks
            exact Or.inr
              (.inl ⟨[], [], piece, _, _, hplace, hleft, hworks, .error hpiece hholds hgood⟩)

/-- What a batch leaves when it looks at its pool is layered, or breaks the terms. -/
theorem Layered.of_batch {place : Pool} {name : String} {threads limit : Nat} {branches : List Marked}
    (hplace : L place .batch [])
    (hbranches : ∀ i s, branches[i]? = some s → Layered ordered e T (L.inside place i) s)
    (hmove : Move ordered m way (Marked.batch name place threads limit branches) w t v) :
    Layered ordered e T L t ∨
      Breaks ordered e T L m (Marked.batch name place threads limit branches) w t v := by
  have hworks := Works.here hmove
  cases hmove with
  | act =>
      dsimp only at hworks ⊢
      by_cases hclosed : w.isClosed place = true
      · rw [if_pos hclosed] at hworks ⊢
        by_cases hgood : T.good (.error .poolShutdown)
        · exact Or.inl (.done hgood)
        · exact Or.inr
            (.inl ⟨[], [], .batch, _, _, hplace, .batch, hworks, .refused hclosed hgood⟩)
      · rw [if_neg hclosed]
        refine Or.inl (.act id fun _ => .fork id rfl hplace (Tally.tracks_opening place _ branches)
          (fun i s hs => hbranches i s (ongoing_fresh.mp hs)) fun o ho => ?_)
        obtain ⟨s, -, heq⟩ := List.mem_map.mp ho
        cases heq

/-- **What a move leaves is layered**, unless a piece of work breaks the terms in it. -/
theorem Layered.step (hs : Layered ordered e T L s) (hmove : Move ordered m way s w t v) :
    Layered ordered e T L t ∨ Breaks ordered e T L m s w t v := by
  induction hs generalizing m way w t v with
  | done => cases hmove
  | guard hpiece hplace hnext => exact Layered.of_guard hpiece hplace hnext hmove
  | @invocation L place x brief level text hplace =>
      cases hmove with
      | act =>
          apply Layered.of_task rfl hplace .invocation .act
          intro hlasts
          exact .behave hplace fun o ho => (hlasts o ho).elim
  | @task L place x brief s _ _ _ hplace hmarks hrun hlasts =>
      obtain ⟨rfl, hmarks'⟩ := hmarks.move hmove
      apply Layered.of_task rfl hplace (.behavior hmarks hrun) hmove
      intro hlasts
      exact .task hplace hmarks' (hrun.append (.other (.own hmove.plain .stop))) hlasts
  | batch hplace hbranches => exact Layered.of_batch hplace hbranches hmove
  | act hm hnext =>
      cases hmove
      exact Or.inl (hnext _)
  | late hplace =>
      cases hmove with
      | act =>
          by_cases hlate : T.late
          · exact Or.inl (.done (T.overdue hlate))
          · exact Or.inr (.inl ⟨[], [], .late, _, _, hplace, .late, .here .act, .late hlate⟩)
  | sleep hm hnext =>
      cases hmove
      exact Or.inl (hnext _)
  | never => cases hmove
  | onReport hs hk ihs ihk =>
      rcases Move.of_bind hmove with ⟨t, hfirst, rfl⟩ | ⟨o, rfl, hnext⟩
      · rcases ihs hfirst with hkept | hbreaks
        · exact Or.inl (.onReport hkept hk)
        · exact Or.inr (hbreaks.lift [] (fun _ _ _ hplace => hplace) .onReport)
      · cases o with
        | error fault => cases hnext
        | ok r => exact ihk r (hs.good rfl) hnext
  | within hm hnext hbody hlate ihbody ihlate =>
      cases hmove with
      | inside hturn hmove =>
          rcases ihbody hmove with hkept | hbreaks
          · exact Or.inl (.within hm hnext hkept hlate)
          · exact Or.inr
              (hbreaks.lift [] (fun _ _ _ hplace => hplace) (.within hturn hnext))
      | inTime =>
          rw [hnext]
          exact Or.inl (.done (hbody.good rfl))
      | late => exact Or.inl hlate
  | @fork L n pool tally slots name count hm hpool hplace htracks hparts hended ih =>
      subst hpool
      -- Of the branches that have ended only the one that moves is new.
      have hset {i : Nat} {slot : Slot Marked} (hslot : ∀ o, slot = .ended o → T.good o) (o : Outcome)
          (ho : .ended o ∈ slots.set i slot) : T.good o := by
        rcases List.mem_or_eq_of_mem_set ho with hold | hnew
        · exact hended o hold
        · exact hslot o hnew.symm
      cases hmove with
      | @deal i _ tally' _ slot slot' _ _ hturn hslot hdeal =>
          have hdealt := Tally.dealt_iff.mp hdeal
          have hrest (hgood : ∀ o, slot' = .ended o → T.good o) : Layered ordered e T L
              (.fork n tally' (slots.set i slot') (Marked.conclude name tally.pool count)) :=
            .fork hm hdealt.pool hplace (htracks.dealt hslot hdealt)
              (fun j s hs => hparts j s (hs.of_dealt hdeal hslot)) (hset hgood)
          by_cases hgood : T.good (.error .poolShutdown)
          · refine .inl (hrest fun o ho => ?_)
            subst ho
            rw [hdealt.refused.2]
            exact hgood
          · cases hclosed : w.isClosed tally.pool with
            | false =>
                refine .inl (hrest fun o ho => ?_)
                subst ho
                rw [hdealt.refused.1] at hclosed
                cases hclosed
            | true =>
                have hrefusal : Refusal tally.pool
                    (.fork n tally slots (Marked.conclude name tally.pool count))
                    (.fork n tally' (slots.set i slot') (Marked.conclude name tally.pool count)) :=
                  .refuse rfl hslot (hclosed ▸ hdeal)
                exact .inr (.inr ⟨[], _, hplace,
                  ⟨hclosed, _, _, _, hrefusal, .here (.deal hturn hslot hdeal)⟩, hgood⟩)
      | @branch _ _ i _ _ s t _ _ _ hturn hslot hmove =>
          rcases ih i s (ongoing_running hslot) hmove with hkept | hbreaks
          · exact Or.inl (.fork hm rfl hplace (htracks.works hslot)
              (fun j r hr => hr.set_running hkept hparts) (hset nofun))
          · exact Or.inr (hbreaks.lift [(tally.pool, i)] (fun _ _ _ hplace => hplace)
              fun hworks => .branch rfl hturn hslot hworks)
      | @finish i _ _ o _ _ hturn hslot =>
          have hgood : T.good o := (hparts i _ (ongoing_running hslot)).good rfl
          refine Or.inl (.fork hm rfl hplace (htracks.finish hslot)
            (fun j r hr => hparts j r hr.of_set_ended.2) (hset fun o' ho => ?_))
          cases ho
          exact hgood
      | read _ harrivals hverdict =>
          exact Or.inl (.fork hm rfl hplace (htracks.read harrivals hverdict) hparts hended)
      | @abort _ _ arrival rest fault _ _ _ harrivals hverdict =>
          refine Or.inl (.conclude nofun fun i fault' heq => ?_)
          cases heq
          obtain ⟨j, o, rfl, hslot⟩ := htracks.arrived (harrivals ▸ List.mem_cons_self)
          cases o with
          | ok r => cases hverdict
          | error fault =>
              cases hverdict
              exact hended _ (List.mem_of_getElem? hslot)
      | leave harrivals hall =>
          refine Or.inl (.conclude (fun reports heq => ?_) nofun)
          cases heq
          obtain ⟨rs, hreports, rfl⟩ := htracks.all_reports harrivals hall
          refine ⟨rs, hreports, T.parallel fun r hr => hended _ ?_⟩
          exact List.mem_map.mpr ⟨r, hr, rfl⟩

/-- **A move of what is layered.**  If a piece of work moves, it does so within its layers; and what is left is
layered, if the move heeds the terms. -/
theorem Layered.move (hs : Layered ordered e T L s) (hmove : Move ordered m way s w t v) :
    (m.purpose.OfPiece → Located ordered e L m s w t v) ∧
      (Heeds ordered e T L m s w t v → Layered ordered e T L t) := by
  refine ⟨hs.located hmove, fun hheeds => ?_⟩
  exact (hs.step hmove).resolve_right fun hbreaks => hbreaks.not_heeds hheeds

/-! ### Time and runs -/

/-- A task that is settled lasts while time passes. -/
theorem lasts_of_settled (hs : Activity.Settled s.plain) (ms : Nat) : ∀ o, s.elapse ms ≠ .done o := by
  intro o ho
  cases s with
  | done o' => exact hs.elim
  | _ => cases ho

/-- Time keeps the layers. -/
theorem Layered.tick (hs : Layered ordered e T L s) (hsettled : Activity.Settled s.plain) :
    Layered ordered e T L (s.elapse 1) := by
  induction hs with
  | done ho => exact .done ho
  | guard | invocation | batch | act | late => exact hsettled.elim
  | sleep hm hnext => exact .sleep hm hnext
  | never => exact .never
  | @task L place x brief s w v h hplace hmarks hrun hlasts =>
      have hlater : Activity.Run ordered s.plain v [.tick] (s.elapse 1).plain (v.wait 1) := by
        rw [plain_elapse]
        exact .tick hsettled .stop
      exact .task hplace (hmarks.elapse 1) (hrun.append hlater) (lasts_of_settled hsettled 1)
  | @onReport L s k hs hk ihs ihk =>
      cases s with
      | done o =>
          cases o with
          | error fault => exact hsettled.elim
          | ok r => exact ihk r (hs.good rfl) hsettled
      | _ => exact .onReport (ihs hsettled) hk
  | within hm hnext hbody hlate ihbody ihlate => exact .within hm hnext (ihbody hsettled.1) hlate
  | @fork L n pool tally slots name count hm hpool hplace htracks hparts hended ih =>
      refine .fork hm hpool hplace (tracks_elapse htracks 1) (fun i r hr => ?_) fun o ho => ?_
      · obtain ⟨s, hs, rfl | ⟨hslot, rfl⟩⟩ := of_ongoing_elapse hr
        · exact hparts i _ hs
        · have hplain := plainSlots_getElem?_running.mpr ⟨s, hslot, rfl⟩
          exact ih i s hs (hsettled.1.of_getElem? hplain)
      · obtain ⟨i, hi⟩ := List.mem_iff_getElem?.mp ho
        exact hended o (List.mem_of_getElem? (elapse_eq_ended.mp hi))

/-- **A run keeps the layers**, up to the first move in which a piece of work breaks the terms. -/
theorem Layered.run_breaks (hs : Layered ordered e T L s) (hrun : Run ordered s w h t v) :
    Layered ordered e T L t ∨ ∃ h₁ m way x y h₂ p q, h = h₁ ++ .own m way x y :: h₂ ∧
      Run ordered s w h₁ p x ∧ Layered ordered e T L p ∧ Move ordered m way p x q y ∧
      Breaks ordered e T L m p x q y ∧ Run ordered q y h₂ t v := by
  induction hrun with
  | stop => exact Or.inl hs
  | @own m way s q r w x u h hmove hrun ih =>
      rcases hs.step hmove with hnext | hbreaks
      · rcases ih hnext with hkept | ⟨h₁, m', way', y, z, h₂, p, q', rfl, hbefore, hrest⟩
        · exact Or.inl hkept
        · exact Or.inr ⟨.own m way w x :: h₁, m', way', y, z, h₂, p, q', rfl, .own hmove hbefore, hrest⟩
      · exact Or.inr ⟨[], m, way, w, x, h, s, q, rfl, .stop, hs, hmove, hbreaks, hrun⟩
  | @other s r w x u h hrun ih =>
      rcases ih hs with hkept | ⟨h₁, m, way, y, z, h₂, p, q, rfl, hbefore, hrest⟩
      · exact Or.inl hkept
      · exact Or.inr ⟨.other w x :: h₁, m, way, y, z, h₂, p, q, rfl, .other hbefore, hrest⟩
  | @tick s r w u h hsettled hrun ih =>
      rcases ih (hs.tick hsettled) with hkept | ⟨h₁, m, way, y, z, h₂, p, q, rfl, hbefore, hrest⟩
      · exact Or.inl hkept
      · exact Or.inr ⟨.tick :: h₁, m, way, y, z, h₂, p, q, rfl, .tick hsettled hbefore, hrest⟩

/-- A run keeps the layers, up to the first move that does not heed the terms. -/
theorem Layered.run (hs : Layered ordered e T L s) (hrun : Run ordered s w h t v) :
    Layered ordered e T L t ∨ ∃ h₁ m way x y h₂ p q, h = h₁ ++ .own m way x y :: h₂ ∧
      Run ordered s w h₁ p x ∧ Layered ordered e T L p ∧ Move ordered m way p x q y ∧
      ¬ Heeds ordered e T L m p x q y ∧ Run ordered q y h₂ t v := by
  rcases hs.run_breaks hrun with
    hkept | ⟨h₁, m, way, x, y, h₂, p, q, heq, hbefore, hp, hmove, hbreaks, hafter⟩
  · exact Or.inl hkept
  · exact Or.inr ⟨h₁, m, way, x, y, h₂, p, q, heq, hbefore, hp, hmove, hbreaks.not_heeds, hafter⟩

/-! ### How layers are put together -/

section

variable {place : Pool} {label name : String} {settings : Settings}

theorem Layered.note {level : Level} {text : String} (hm : ¬ m.purpose.OfPiece)
    (ht : Layered ordered e T L t) : Layered ordered e T L (note m level text t) :=
  .act hm fun _ => ht

theorem Layered.report {r : Report} (hr : T.good (.ok r)) : Layered ordered e T L (report r) :=
  .done hr

theorem Layered.delayed {first : Purpose} {ms : Nat} (hstart : ∀ text,
    Layered ordered e T L (Marked.note ⟨place, first⟩ .debug text t)) :
    Layered ordered e T L (delayed place first label ms t) := by
  unfold Marked.delayed
  split
  · exact hstart _
  · exact .note id (.sleep id fun _ => hstart _)

theorem Layered.limited {limit index : Nat} (hlate : limit ≠ 0 → L place .late [])
    (ht : Layered ordered e T L t) : Layered ordered e T L (limited place limit index label t) := by
  unfold Marked.limited Activity.limitOf?
  by_cases hlimit : limit = 0
  · rw [if_pos hlimit]
    exact ht
  · rw [if_neg hlimit]
    exact .within id (fun _ => rfl) ht (.late (hlate hlimit))

theorem Layered.branch {limit index : Nat} (hplace : L place (.guard settings) [])
    (hlate : limit ≠ 0 → L place .late []) (ht : Layered ordered e T L t) :
    Layered ordered e T L (branch place e limit index label settings t) := by
  refine .guard (rfl : (Piece.guard settings).settings? = _) hplace fun b _ => ?_
  cases b with
  | false => exact .note id (.report T.completed)
  | true => exact ht.limited hlate

theorem Layered.rounds {mode : Repetition} {count : Nat} (ht : Layered ordered e T L t) (left : Nat) :
    Layered ordered e T L (rounds place mode label t count left) := by
  induction left generalizing count with
  | zero => exact .never
  | succ left ih =>
      refine .onReport ht fun r hr => .act id fun w => ?_
      split
      · exact ih
      · exact .note id (.report hr)

end

end Marked

open Marked

/-! ### The layers of a flow -/

/-- **Where the pieces of a flow stand**, for a flow at a place and a step with a brief. -/
inductive Flow.Has : Flow → Pool → Brief → Layout
  | task {x : Executable} {place : Pool} {brief : Brief} :
      Flow.Has (.task x) place brief place (.task x brief) []
  | batch {name : String} {threads limit : Nat} {steps : List Step} {place : Pool} {brief : Brief} :
      Flow.Has (.parallel name threads limit steps) place brief place .batch []
  | stepGuard {name : String} {scope : SequenceScope} {steps : List Step} {place : Pool} {brief : Brief}
      {i : Nat} {s : Settings} {g : Flow} (hstep : steps[i]? = some (.mk s g)) :
      Flow.Has (.sequence name scope steps) place brief (i :: place) (.guard s) []
  | step {name : String} {scope : SequenceScope} {steps : List Step} {place p : Pool} {brief : Brief}
      {i : Nat} {s : Settings} {g : Flow} {piece : Piece} {path : Way}
      (hstep : steps[i]? = some (.mk s g))
      (hpiece : g.Has (i :: place) (Step.mk s g).brief p piece path) :
      Flow.Has (.sequence name scope steps) place brief p piece path
  | branchGuard {name : String} {threads limit : Nat} {steps : List Step} {place : Pool} {brief : Brief}
      {i : Nat} {s : Settings} {g : Flow} (hstep : steps[i]? = some (.mk s g)) :
      Flow.Has (.parallel name threads limit steps) place brief (i :: place) (.guard s) [(place, i)]
  | branchLate {name : String} {threads limit : Nat} {steps : List Step} {place : Pool} {brief : Brief}
      {i : Nat} {step : Step} (hlimit : limit ≠ 0) (hstep : steps[i]? = some step) :
      Flow.Has (.parallel name threads limit steps) place brief (i :: place) .late [(place, i)]
  | branch {name : String} {threads limit : Nat} {steps : List Step} {place p : Pool} {brief : Brief}
      {i : Nat} {s : Settings} {g : Flow} {piece : Piece} {path : Way}
      (hstep : steps[i]? = some (.mk s g))
      (hpiece : g.Has (i :: place) (Step.mk s g).brief p piece path) :
      Flow.Has (.parallel name threads limit steps) place brief p piece ((place, i) :: path)
  | entry {name : String} {mode : Repetition} {place : Pool} {brief : Brief} {s : Settings} {g : Flow} :
      Flow.Has (.repetition name mode (.mk s g)) place brief (0 :: place) (.entry s) []
  | repeated {name : String} {mode : Repetition} {place p : Pool} {brief : Brief} {s : Settings}
      {g : Flow} {piece : Piece} {path : Way}
      (hpiece : g.Has (0 :: place) (Step.mk s g).brief p piece path) :
      Flow.Has (.repetition name mode (.mk s g)) place brief p piece path
  | initial {name : String} {predicate : Predicate} {held : Step} {otherwise : Option Step}
      {place p : Pool} {brief : Brief} {s : Settings} {g : Flow} {piece : Piece} {path : Way}
      (hpiece : g.Has (0 :: place) (Step.mk s g).brief p piece path) :
      Flow.Has (.choice name (.mk s g) predicate held otherwise) place brief p piece path
  | held {name : String} {predicate : Predicate} {first : Step} {otherwise : Option Step}
      {place p : Pool} {brief : Brief} {s : Settings} {g : Flow} {piece : Piece} {path : Way}
      (hpiece : g.Has (1 :: place) (Step.mk s g).brief p piece path) :
      Flow.Has (.choice name first predicate (.mk s g) otherwise) place brief p piece path
  | otherwise {name : String} {predicate : Predicate} {first held : Step}
      {place p : Pool} {brief : Brief} {s : Settings} {g : Flow} {piece : Piece} {path : Way}
      (hpiece : g.Has (2 :: place) (Step.mk s g).brief p piece path) :
      Flow.Has (.choice name first predicate held (some (.mk s g))) place brief p piece path

/-- The layout has all pieces of a flow at a place. -/
def Layout.Covers (L : Layout) (f : Flow) (place : Pool) (brief : Brief) : Prop :=
  ∀ p piece path, f.Has place brief p piece path → L p piece path

/-- The layouts have all guards and pieces of steps from an index on, each step in a layout of its own. -/
def CoversSteps (K : Nat → Layout) (place : Pool) (index : Nat) (steps : List Step) : Prop :=
  ∀ i s g, steps[i]? = some (.mk s g) → K (index + i) ((index + i) :: place) (.guard s) [] ∧
    (K (index + i)).Covers g ((index + i) :: place) (Step.mk s g).brief

section

variable {ordered : Prop} {e : Evaluator} {T : Terms} {L : Layout} {K : Nat → Layout} {patience : Nat}
variable {place : Pool} {index : Nat} {brief : Brief} {s : Settings} {g : Flow} {rest : List Step}

theorem CoversSteps.head (hK : CoversSteps K place index (.mk s g :: rest)) :
    K index (index :: place) (.guard s) [] ∧ (K index).Covers g (index :: place) (Step.mk s g).brief :=
  hK 0 s g rfl

theorem CoversSteps.tail (hK : CoversSteps K place index (.mk s g :: rest)) :
    CoversSteps K place (index + 1) rest := by
  intro i s' g' hstep
  have hnext := hK (i + 1) s' g' hstep
  rwa [show index + (i + 1) = index + 1 + i by omega] at hnext

/-- The first turn of a flow begins an invocation if it is a task. -/
theorem Flow.first_layered (f : Flow) (hL : L.Covers f place brief)
    (hflow : (∀ x, f ≠ .task x) → Layered ordered e T L (f.marked e patience place brief))
    (text : String) :
    Layered ordered e T L (note ⟨place, f.first⟩ .debug text (f.marked e patience place brief)) := by
  cases f with
  | task x => exact .invocation (hL _ _ _ .task)
  | _ => exact .note id (hflow nofun)

mutual

/-- **The work of a flow is layered**, and its pieces are those that the flow has.  A task by itself is good if
every outcome is. -/
theorem Flow.marked_layered (f : Flow) (place : Pool) (brief : Brief) (L : Layout)
    (hL : L.Covers f place brief) (htask : ∀ x, f = .task x → ∀ o, T.good o) :
    Layered ordered e T L (f.marked e patience place brief) := by
  match f with
  | .task x =>
      rw [Flow.marked]
      exact .behave (hL _ _ _ .task) fun o _ => htask x rfl o
  | .sequence name scope steps =>
      rw [Flow.marked]
      apply Flow.markedSequence_layered steps name scope none place 0 L nofun
      intro i s g hstep
      rw [Nat.zero_add]
      exact ⟨hL _ _ _ (.stepGuard hstep), fun p piece path hpiece => hL _ _ _ (.step hstep hpiece)⟩
  | .parallel name threads limit branches =>
      rw [Flow.marked]
      have hK : CoversSteps (L.inside place) place 0 branches := by
        intro i s g hstep
        rw [Nat.zero_add]
        exact ⟨hL _ _ _ (.branchGuard hstep), fun p piece path hpiece =>
          hL _ _ _ (.branch hstep hpiece)⟩
      have hlate (i : Nat) (step : Step) (hstep : branches[i]? = some step) (hlimit : limit ≠ 0) :
          (L.inside place (0 + i)) ((0 + i) :: place) .late [] := by
        rw [Nat.zero_add]
        exact hL _ _ _ (.branchLate hlimit hstep)
      have hbranches := Flow.markedBranches_layered branches limit place 0 _ hK hlate
      refine .batch (hL _ _ _ .batch) fun i s hs => ?_
      have hbranch := hbranches i s hs
      rwa [Nat.zero_add] at hbranch
  | .repetition name mode (.mk s g) =>
      rw [Flow.marked]
      have hbody : L.Covers g (0 :: place) (Step.mk s g).brief := fun p piece path hpiece =>
        hL _ _ _ (.repeated hpiece)
      refine .guard (rfl : (Piece.entry s).settings? = _) (hL _ _ _ .entry) fun b hb => ?_
      cases b with
      | false => exact .note id (.report (T.refused hb))
      | true =>
          refine .rounds (.delayed (Flow.first_layered g hbody fun hg => ?_)) _
          exact Flow.marked_layered g (0 :: place) _ L hbody fun x hx => (hg x hx).elim
  | .choice name (.mk s g) predicate (.mk s' g') otherwise =>
      rw [Flow.marked]
      refine .onReport (Step.marked_layered (.mk s g) (0 :: place) L ?_) fun r hr => ?_
      · exact fun p piece path hpiece => hL _ _ _ (.initial hpiece)
      refine .act id fun w => ?_
      split
      · refine .note id (Step.marked_layered (.mk s' g') (1 :: place) L ?_)
        exact fun p piece path hpiece => hL _ _ _ (.held hpiece)
      · refine Flow.markedOtherwise_layered otherwise name r (2 :: place) L hr ?_
        rintro s g rfl
        exact fun p piece path hpiece => hL _ _ _ (.otherwise hpiece)

theorem Flow.markedOtherwise_layered (otherwise : Option Step) (name : String) (r : Report)
    (place : Pool) (L : Layout) (hr : T.good (.ok r))
    (hL : ∀ s g, otherwise = some (.mk s g) → L.Covers g place (Step.mk s g).brief) :
    Layered ordered e T L (Flow.markedOtherwise e patience name r place otherwise) := by
  match otherwise with
  | none =>
      rw [Flow.markedOtherwise]
      exact .report hr
  | some (.mk s g) =>
      rw [Flow.markedOtherwise]
      exact .note id (Step.marked_layered (.mk s g) place L (hL s g rfl))

theorem Flow.markedSequence_layered (steps : List Step) (name : String) (scope : SequenceScope)
    (last : Option Report) (place : Pool) (index : Nat) (L : Layout)
    (hlast : ∀ r, last = some r → T.good (.ok r))
    (hL : CoversSteps (fun _ => L) place index steps) :
    Layered ordered e T L (Flow.markedSequence e patience name scope last place index steps) := by
  have hgood : T.good (.ok (last.getD .completed)) := by
    cases last with
    | none => exact T.completed
    | some r => exact hlast r rfl
  match steps with
  | [] =>
      rw [Flow.markedSequence]
      exact .report hgood
  | .mk s g :: rest =>
      have hrest (last : Option Report) (hlast : ∀ r, last = some r → T.good (.ok r)) :=
        Flow.markedSequence_layered rest name scope last place (index + 1) L hlast hL.tail
      obtain ⟨hguard, hstep⟩ := hL.head
      rw [Flow.markedSequence.eq_def]
      refine .guard (rfl : (Piece.guard s).settings? = _) hguard fun b _ => ?_
      cases b with
      | false =>
          cases scope with
          | block => exact .note id (.report hgood)
          | playbook => exact .note id (hrest last hlast)
      | true =>
          refine .onReport (.delayed (Flow.first_layered g hstep fun hg => ?_)) fun r hr => ?_
          · exact Flow.marked_layered g (index :: place) _ L hstep fun x hx => (hg x hx).elim
          split
          · exact .note id (.report hr)
          · refine .note id (hrest (some r) ?_)
            rintro r' ⟨rfl⟩
            exact hr

theorem Flow.markedBranches_layered (steps : List Step) (limit : Nat) (place : Pool) (index : Nat)
    (K : Nat → Layout) (hK : CoversSteps K place index steps)
    (hlate : ∀ i step, steps[i]? = some step → limit ≠ 0 →
      K (index + i) ((index + i) :: place) .late []) :
    ∀ i t, (Flow.markedBranches e patience limit place index steps)[i]? = some t →
      Layered ordered e T (K (index + i)) t := by
  match steps with
  | [] =>
      intro i t ht
      simp [Flow.markedBranches] at ht
  | .mk s g :: rest =>
      intro i t ht
      obtain ⟨hguard, hstep⟩ := hK.head
      rw [Flow.markedBranches] at ht
      cases i with
      | zero =>
          cases ht
          refine .branch hguard (hlate 0 _ rfl) (.delayed (Flow.first_layered g hstep fun hg => ?_))
          exact Flow.marked_layered g (index :: place) _ _ hstep fun x hx => (hg x hx).elim
      | succ i =>
          have hlater := Flow.markedBranches_layered rest limit place (index + 1) K hK.tail
            (fun j step hj hlimit => ?_) i t ht
          · rwa [show index + (i + 1) = index + 1 + i by omega]
          · have hnext := hlate (j + 1) step hj hlimit
            rwa [show index + (j + 1) = index + 1 + j by omega] at hnext

theorem Step.marked_layered (step : Step) (place : Pool) (L : Layout)
    (hL : L.Covers step.flow place step.brief) :
    Layered ordered e T L (step.marked e patience place) := by
  match step with
  | .mk s g =>
      rw [Step.marked]
      refine .delayed (Flow.first_layered g hL fun hg => ?_)
      exact Flow.marked_layered g place _ L hL fun x hx => (hg x hx).elim

end

end

end Runsheet
