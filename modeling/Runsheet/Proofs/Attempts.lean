import Runsheet.Proofs.Marks

/-!
# Attempts

Sequences, parallel flows and repetitions look at the guard of a step each time that they attempt it, before
anything else that the step does, and only once.  A `Stage` tells how far an attempt has come, and
`Post.Next` which turns there may be at each stage.

* `Marked.Attends` — an activity in which a step is attempted as it should be, from a stage on;
* `Marked.Attends.move`, `Marked.Attends.elapse` — every move is one that the stage allows, and time keeps it;
* `Marked.Attends.run`, `Marked.Attends.turn` — what this says about the history of a run.
-/

namespace Runsheet

open Marked
open Activity (Way)

/-- How far an attempt at a step has come. -/
inductive Stage
  /-- The guard has not been looked at. -/
  | fresh
  /-- The guard held. -/
  | admitted
  /-- The guard did not hold. -/
  | refused
  /-- The step has been skipped, or its guard could not be evaluated. -/
  | dropped

/-- The stage after a look at a guard. -/
def Stage.after : Except ExpressionError Bool → Stage
  | .ok true => .admitted
  | .ok false => .refused
  | .error _ => .dropped

/-- A step with a guard: the place of the flow around it, its number there and its settings. -/
structure Post where
  around : Pool
  number : Nat
  settings : Settings

namespace Post

/-- The place of the step itself. -/
def place (p : Post) : Pool :=
  p.number :: p.around

/-- The mark has to do neither with the step nor with the flow around it. -/
def Apart (p : Post) (m : Mark) : Prop :=
  ¬ p.place <:+ m.place ∧ m.place ≠ p.around

/-- The mark is that of something the step does, and not that of a look at its guard. -/
def Inner (p : Post) (m : Mark) : Prop :=
  p.place <:+ m.place ∧ ∀ s, m ≠ ⟨p.place, .guard s⟩

/-- The turn is one of the step. -/
def Owns (p : Post) : Turn → Prop
  | .own m _ _ _ => p.place <:+ m.place
  | _ => False

/-- The turn is a look at the guard of the step. -/
def Looks (p : Post) : Turn → Prop
  | .own m _ _ _ => m = ⟨p.place, .guard p.settings⟩
  | _ => False

/-- With the turn an attempt at the step may begin: the flow around the step has it, on the path to the step.
With a parallel flow, these are the turns in which the branch asks for its permit, gets it and gives it
back.  Sequences and repetitions have such turns before and after they attempt their steps, but not
meanwhile. -/
def Begins (p : Post) (path : Way) : Turn → Prop
  | .own m way _ _ => m.place = p.around ∧ way = path
  | _ => False

/-- **What there may be at a stage**: the guard is looked at when the attempt is fresh; if it held, the step
goes on; if not, the flow notes that it skips the step. -/
inductive Next (e : Evaluator) (p : Post) (path : Way) (m : Mark) (way : Way) (w v : World) :
    Stage → Stage → Prop
  | begins {a : Stage} (hplace : m.place = p.around) (hway : way = path) :
      Next e p path m way w v a .fresh
  | aside {a : Stage} (hplace : ¬ p.place <:+ m.place) (hway : m.place = p.around → way ≠ path) :
      Next e p path m way w v a a
  | look (hm : m = ⟨p.place, .guard p.settings⟩) (hv : v = w) :
      Next e p path m way w v .fresh (.after (p.settings.holds e w.context))
  | goes (hm : p.Inner m) : Next e p path m way w v .admitted .admitted
  | skips {text : String} (hm : m = ⟨p.place, .upkeep⟩) (hv : v = w.note .warn text) :
      Next e p path m way w v .refused .dropped

/-- The mark keeps a stage as it is. -/
def Keeps (p : Post) (a : Stage) (m : Mark) : Prop :=
  p.Apart m ∨ (a = .admitted ∧ p.Inner m)

variable {e : Evaluator} {p : Post} {path : Way} {m : Mark} {way : Way} {w v : World} {a b : Stage}
variable {pool : Pool} {i : Nat}

/-- The places above a step are not within it. -/
theorem not_within {q : Pool} (hq : q <:+ p.around) : ¬ p.place <:+ q := by
  intro h
  have hle := (h.trans hq).length_le
  simp only [place, List.length_cons] at hle
  omega

/-- What the step does is part of an attempt that is admitted. -/
theorem keeps_own {purpose : Purpose} (hpurpose : ∀ s, purpose ≠ .guard s) :
    p.Keeps .admitted ⟨p.place, purpose⟩ :=
  Or.inr ⟨rfl, List.suffix_refl _, fun s heq => hpurpose s (congrArg Mark.purpose heq)⟩

theorem Keeps.next (hm : p.Keeps a m) : p.Next e path m way w v a a := by
  rcases hm with ⟨hplace, hne⟩ | ⟨rfl, hinner⟩
  · exact .aside hplace fun heq => (hne heq).elim
  · exact .goes hinner

/-- Outside of the step there may be any turn at any stage, and an attempt is fresh if one may begin. -/
theorem next_outside (hplace : ¬ p.place <:+ m.place) (e : Evaluator) (path way : Way) (w v : World)
    (a : Stage) : ∃ b, p.Next e path m way w v a b ∧
      (m.place = p.around → way = path → b = .fresh) := by
  by_cases hbegins : m.place = p.around ∧ way = path
  · exact ⟨.fresh, .begins hbegins.1 hbegins.2, fun _ _ => rfl⟩
  · exact ⟨a, .aside hplace fun hm hway => hbegins ⟨hm, hway⟩, fun hm hway => (hbegins ⟨hm, hway⟩).elim⟩

/-- A turn within a branch is the same turn in the whole. -/
theorem Next.cons (hnext : p.Next e path m way w v a b) :
    p.Next e ((pool, i) :: path) m ((pool, i) :: way) w v a b := by
  cases hnext with
  | begins hplace hway => exact .begins hplace (congrArg _ hway)
  | aside hplace hway =>
      refine .aside hplace fun hm heq => hway hm ?_
      exact (List.cons.inj heq).2
  | look hm hv => exact .look hm hv
  | goes hm => exact .goes hm
  | skips hm hv => exact .skips hm hv

/-- A turn of the step is a look at its guard, or one that its guard allows. -/
theorem Next.owned (hnext : p.Next e path m way w v a b) (hm : p.place <:+ m.place) :
    (m = ⟨p.place, .guard p.settings⟩ ∧ v = w ∧ a = .fresh ∧
      b = .after (p.settings.holds e w.context)) ∨
    (a = .admitted ∧ p.Inner m) ∨
    (a = .refused ∧ m = ⟨p.place, .upkeep⟩ ∧ ∃ text, v = w.note .warn text) := by
  cases hnext with
  | begins hplace =>
      rw [hplace] at hm
      exact (not_within (List.suffix_refl _) hm).elim
  | aside hplace => exact (hplace hm).elim
  | look heq hv => exact Or.inl ⟨heq, hv, rfl, rfl⟩
  | goes hinner => exact Or.inr (Or.inl ⟨rfl, hinner⟩)
  | skips heq hv => exact Or.inr (Or.inr ⟨rfl, heq, _, hv⟩)

end Post

namespace Marked

/-- **An activity attends to a step** from a stage on: it has only turns that the stage allows.  The path names
the branches of the batches on the way to the step; the other branches have nothing to do with it. -/
inductive Attends (e : Evaluator) (p : Post) : Way → Stage → Marked → Prop
  | done {path : Way} {a : Stage} {o : Outcome} : Attends e p path a (.done o)
  | idle {path : Way} {a : Stage} {s : Marked} (hs : Only (p.Keeps a) s) : Attends e p path a s
  | act {path : Way} {a : Stage} {b : World → Stage} {m : Mark} {f : World → World}
      {next : World → Marked} (hturn : ∀ w, p.Next e path m [] w (f w) a (b w))
      (hnext : ∀ w, Attends e p path (b w) (next w)) : Attends e p path a (.act m f next)
  | sleep {path : Way} {a : Stage} {b : World → Stage} {m : Mark} {ms : Nat} {next : World → Marked}
      (hturn : ∀ w, p.Next e path m [] w w a (b w)) (hnext : ∀ w, Attends e p path (b w) (next w)) :
      Attends e p path a (.sleep m ms next)
  | never {path : Way} {a : Stage} {m : Mark} : Attends e p path a (.never m)
  | first {path : Way} {a : Stage} {s : Marked} {k : Outcome → Marked} (hs : Only (p.Keeps a) s)
      (hk : ∀ o, Attends e p path a (k o)) : Attends e p path a (s.bind k)
  | last {path : Way} {a : Stage} {s : Marked} {k : Outcome → Marked} (hs : Attends e p path a s)
      (hk : ∀ b o, Attends e p path b (k o)) : Attends e p path a (s.bind k)
  | within {path : Way} {a : Stage} {m : Mark} {left : Nat} {body : Marked}
      {next : Option Outcome → Marked} (hm : ¬ p.place <:+ m.place) (hbody : Attends e p path a body)
      (hnext : ∀ b o, Attends e p path b (next o)) : Attends e p path a (.within m left body next)
  | fork {path : Way} {a : Stage} {m : Mark} {pool : Pool} {i : Nat} {tally : Tally}
      {slots : List (Slot Marked)} {next : Reading → Marked} (htally : tally.pool = pool)
      (hpool : m.place = pool) (hm : ¬ p.place <:+ m.place)
      (hrun : ∀ s, slots[i]? = some (.running s) → Attends e p path a s)
      (hwait : ∀ s b, slots[i]? = some (.fresh s) ∨ slots[i]? = some (.queued s) →
        (pool = p.around → path = [] → b = .fresh) → Attends e p path b s)
      (hothers : ∀ j s, Ongoing slots j s → j ≠ i → Only p.Apart s)
      (hnext : ∀ b r, Attends e p ((pool, i) :: path) b (next r)) :
      Attends e p ((pool, i) :: path) a (.fork m tally slots next)

variable {e : Evaluator} {p : Post} {path : Way} {a : Stage} {ordered : Prop} {m : Mark} {way : Way}
variable {s t : Marked} {w v : World} {h g : List Turn}

/-! ### Moves, time and runs -/

/-- **A move** of what attends to a step is one that the stage allows. -/
theorem Attends.move (hs : Attends e p path a s) (hmove : Move ordered m way s w t v) :
    ∃ b, p.Next e path m way w v a b ∧ Attends e p path b t := by
  induction hs generalizing m way w t v with
  | done => cases hmove
  | idle hs =>
      obtain ⟨hm, ht⟩ := hs.move hmove
      exact ⟨_, hm.next, .idle ht⟩
  | act hturn hnext =>
      cases hmove
      exact ⟨_, hturn _, hnext _⟩
  | sleep hturn hnext =>
      cases hmove
      exact ⟨_, hturn _, hnext _⟩
  | never => cases hmove
  | first hs hk ih =>
      rcases hmove.of_bind with ⟨s', hfirst, rfl⟩ | ⟨o, rfl, hsecond⟩
      · obtain ⟨hm, ht⟩ := hs.move hfirst
        exact ⟨_, hm.next, .first ht hk⟩
      · exact ih o hsecond
  | last hs hk ih ihk =>
      rcases hmove.of_bind with ⟨s', hfirst, rfl⟩ | ⟨o, rfl, hsecond⟩
      · obtain ⟨b, hb, ht⟩ := ih hfirst
        exact ⟨b, hb, .last ht hk⟩
      · exact ihk _ o hsecond
  | @within path a n left body next hn hbody hnext ih =>
      cases hmove with
      | inside _ hmove =>
          obtain ⟨b, hb, ht⟩ := ih hmove
          exact ⟨b, hb, .within hn ht hnext⟩
      | inTime | late =>
          obtain ⟨b, hb, -⟩ := Post.next_outside hn e path [] w w a
          exact ⟨b, hb, hnext b _⟩
  | @fork path a n pool i tally slots next htally hpool hn hrun hwait hothers hnext ih ihwait =>
      subst htally
      have hstays : p.Next e ((tally.pool, i) :: path) n [] w w a a := .aside hn fun _ => nofun
      -- What becomes of another branch leaves the branch of the step as it is, and the other way round.
      have hother {j : Nat} {slot : Slot Marked} {tally' : Tally} (htally : tally'.pool = tally.pool)
          (hji : j ≠ i) (hslot : ∀ t, slot.body? = some t → Only p.Apart t) :
          Attends e p ((tally.pool, i) :: path) a (.fork n tally' (slots.set j slot) next) := by
        refine .fork htally hpool hn (fun s hs => ?_) (fun s b hs => ?_) (fun k s hs hki => ?_) hnext
        · rw [List.getElem?_set_ne hji] at hs
          exact hrun s hs
        · rw [List.getElem?_set_ne hji] at hs
          exact hwait s b hs
        · rcases hs.of_set with ⟨-, hbody⟩ | ⟨-, hold⟩
          · exact hslot s hbody
          · exact hothers k s hold hki
      have hothers' {slot : Slot Marked} (k : Nat) (s : Marked) (hs : Ongoing (slots.set i slot) k s)
          (hki : k ≠ i) : Only p.Apart s :=
        hothers k s (hs.of_set_other hki) hki
      cases hmove with
      | @deal j _ tally' _ slot slot' _ _ _ hslot hdeal =>
          have hlt := (List.getElem?_eq_some_iff.mp hslot).1
          have hdealt := Tally.dealt_iff.mp hdeal
          by_cases hji : j = i
          · -- The branch of the step gets its answer, so that an attempt may begin.
            subst hji
            obtain ⟨b, hb, hfresh⟩ :=
              Post.next_outside hn e ((tally.pool, j) :: path) [(tally.pool, j)] w w a
            have hfirst (s : Marked) (c : Stage) (hs : slot'.body? = some s)
                (hc : tally.pool = p.around → path = [] → c = .fresh) : Attends e p path c s := by
              obtain ⟨body, rfl | rfl⟩ := hdealt.waits
              · exact hwait s c (.inl (by rw [hslot, Option.some.inj (hdealt.body hs)])) hc
              · exact hwait s c (.inr (by rw [hslot, Option.some.inj (hdealt.body hs)])) hc
            refine ⟨b, hb, .fork hdealt.pool hpool hn (fun s hs => ?_) (fun s c hs => ?_) hothers' hnext⟩
            · rw [List.getElem?_set_self hlt, Option.some.injEq] at hs
              subst hs
              exact hfirst s b rfl fun hpath heq => hfresh (hpool.trans hpath) (by rw [heq])
            · rw [List.getElem?_set_self hlt, Option.some.injEq, Option.some.injEq] at hs
              obtain rfl | rfl := hs
              · exact hfirst s c rfl
              · exact hfirst s c rfl
          · have hway : [(tally.pool, j)] ≠ (tally.pool, i) :: path := fun heq =>
              hji (Prod.mk.inj (List.cons.inj heq).1).2
            refine ⟨a, .aside hn fun _ => hway, hother hdealt.pool hji fun t ht => ?_⟩
            exact hothers j t ⟨slot, hslot, hdealt.body ht⟩ hji
      | @branch _ _ j _ _ s t _ _ _ _ hslot hmove =>
          have hlt := (List.getElem?_eq_some_iff.mp hslot).1
          by_cases hji : j = i
          · subst hji
            obtain ⟨b, hb, ht⟩ := ih s hslot hmove
            refine ⟨b, hb.cons, .fork rfl hpool hn (fun r hr => ?_) (fun r c hr => ?_) hothers' hnext⟩
            · rw [List.getElem?_set_self hlt] at hr
              cases hr
              exact ht
            · rw [List.getElem?_set_self hlt] at hr
              rcases hr with hr | hr <;> cases hr
          · obtain ⟨hm, ht⟩ := (hothers j s (ongoing_running hslot) hji).move hmove
            refine ⟨a, .aside hm.1 fun heq => (hm.2 heq).elim, hother rfl hji fun r hr => ?_⟩
            cases hr
            exact ht
      | @finish j _ _ o _ _ _ hslot =>
          have hlt := (List.getElem?_eq_some_iff.mp hslot).1
          by_cases hji : j = i
          · subst hji
            obtain ⟨b, hb, -⟩ :=
              Post.next_outside hn e ((tally.pool, j) :: path) [(tally.pool, j)] w w a
            refine ⟨b, hb, .fork rfl hpool hn (fun r hr => ?_) (fun r c hr => ?_) hothers' hnext⟩
            · rw [List.getElem?_set_self hlt] at hr
              cases hr
            · rw [List.getElem?_set_self hlt] at hr
              rcases hr with hr | hr <;> cases hr
          · have hway : [(tally.pool, j)] ≠ (tally.pool, i) :: path := fun heq =>
              hji (Prod.mk.inj (List.cons.inj heq).1).2
            exact ⟨a, .aside hn fun _ => hway, hother rfl hji nofun⟩
      | read => exact ⟨a, hstays, .fork rfl hpool hn hrun hwait hothers hnext⟩
      | abort | leave => exact ⟨a, hstays, hnext a _⟩

/-- Time keeps the attention to a step. -/
theorem Attends.elapse (hs : Attends e p path a s) (ms : Nat) : Attends e p path a (s.elapse ms) := by
  induction hs with
  | done => exact .done
  | idle hs => exact .idle (hs.elapse ms)
  | act hturn hnext => exact .act hturn hnext
  | sleep hturn hnext => exact .sleep hturn hnext
  | never => exact .never
  | @first path a s k hs hk ih =>
      rcases elapse_bind s k ms with heq | ⟨o, rfl⟩
      · rw [heq]
        exact .first (hs.elapse ms) hk
      · exact ih o
  | @last path a s k hs hk ih ihk =>
      rcases elapse_bind s k ms with heq | ⟨o, rfl⟩
      · rw [heq]
        exact .last ih hk
      · exact ihk a o
  | within hm hbody hnext ih => exact .within hm ih hnext
  | @fork path a n pool i tally slots next htally hpool hn hrun hwait hothers hnext ih =>
      refine .fork htally hpool hn (fun t ht => ?_) (fun t c ht => ?_) (fun j t ht hji => ?_) hnext
      · obtain ⟨s, hs, rfl⟩ := elapse_eq_running.mp ht
        exact ih s hs
      · rw [elapse_eq_fresh, elapse_eq_queued] at ht
        exact hwait t c ht
      · obtain ⟨s, hs, rfl | ⟨-, rfl⟩⟩ := of_ongoing_elapse ht
        · exact hothers j _ hs hji
        · exact (hothers j s hs hji).elapse ms

end Marked

namespace Post

/-- **What a history tells about the stage** that it has led to.  If the attempt is fresh, there was no look
since the last one began; if the guard held or not, it did so when it was looked at, and there was no other
look since. -/
def Led (e : Evaluator) (p : Post) (path : Way) (h : List Turn) : Stage → Prop
  | .fresh => ∀ h₁ turn h₂, h = h₁ ++ turn :: h₂ → p.Looks turn → ∃ turn' ∈ h₂, p.Begins path turn'
  | .admitted => ∃ h₁ way x h₂, h = h₁ ++ .own ⟨p.place, .guard p.settings⟩ way x x :: h₂ ∧
      p.settings.holds e x.context = .ok true ∧ ∀ turn ∈ h₂, ¬ p.Begins path turn ∧ ¬ p.Looks turn
  | .refused => ∃ h₁ way x h₂, h = h₁ ++ .own ⟨p.place, .guard p.settings⟩ way x x :: h₂ ∧
      p.settings.holds e x.context = .ok false ∧ ∀ turn ∈ h₂, ¬ p.Begins path turn ∧ ¬ p.Owns turn
  | .dropped => True

variable {e : Evaluator} {p : Post} {path : Way} {m : Mark} {way : Way} {w v : World} {a b : Stage}
variable {h : List Turn} {turn : Turn}

theorem Looks.owns (hturn : p.Looks turn) : p.Owns turn := by
  cases turn with
  | own m way w v =>
      obtain rfl : m = _ := hturn
      exact List.suffix_refl _
  | _ => exact hturn

/-- A history with one more turn splits at that turn or before it. -/
theorem split_concat {h₁ h₂ : List Turn} {look : Turn} (heq : h ++ [turn] = h₁ ++ look :: h₂) :
    look = turn ∨ ∃ h₃, h = h₁ ++ look :: h₃ ∧ h₂ = h₃ ++ [turn] := by
  rcases List.eq_nil_or_concat h₂ with rfl | ⟨h₃, last, rfl⟩
  · exact Or.inl (List.cons.inj (List.append_inj' heq rfl).2).1.symm
  · have hsplit : h ++ [turn] = (h₁ ++ look :: h₃) ++ [last] := by simpa using heq
    obtain ⟨hbefore, hlast⟩ := List.append_inj' hsplit rfl
    exact Or.inr ⟨h₃, hbefore, by simp [hlast]⟩

/-- A turn that is not a look at the guard and with which no attempt begins changes nothing in what the
history tells, unless it is one of a step whose guard did not hold. -/
theorem Led.extend (hled : p.Led e path h a) (hlooks : ¬ p.Looks turn)
    (hbegins : ¬ p.Begins path turn) (howns : a = .refused → ¬ p.Owns turn) :
    p.Led e path (h ++ [turn]) a := by
  cases a with
  | fresh =>
      intro h₁ look h₂ heq hlook
      rcases split_concat heq with rfl | ⟨h₃, rfl, rfl⟩
      · exact (hlooks hlook).elim
      · obtain ⟨turn', hmem, hturn'⟩ := hled h₁ look h₃ rfl hlook
        exact ⟨turn', List.mem_append_left _ hmem, hturn'⟩
  | admitted =>
      obtain ⟨h₁, way, x, h₂, rfl, hholds, hsince⟩ := hled
      refine ⟨h₁, way, x, h₂ ++ [turn], by simp, hholds, fun turn' hmem => ?_⟩
      rcases List.mem_append.mp hmem with hold | hnew
      · exact hsince turn' hold
      · obtain rfl := List.mem_singleton.mp hnew
        exact ⟨hbegins, hlooks⟩
  | refused =>
      obtain ⟨h₁, way, x, h₂, rfl, hholds, hsince⟩ := hled
      refine ⟨h₁, way, x, h₂ ++ [turn], by simp, hholds, fun turn' hmem => ?_⟩
      rcases List.mem_append.mp hmem with hold | hnew
      · exact hsince turn' hold
      · obtain rfl := List.mem_singleton.mp hnew
        exact ⟨hbegins, howns rfl⟩
  | dropped => trivial

/-- What the history tells with one more turn. -/
theorem Led.next (hled : p.Led e path h a) (hnext : p.Next e path m way w v a b) :
    p.Led e path (h ++ [.own m way w v]) b := by
  cases hnext with
  | begins hplace hway =>
      intro h₁ look h₂ heq hlook
      rcases split_concat heq with rfl | ⟨h₃, rfl, rfl⟩
      · have hm : p.place <:+ m.place := hlook.owns
        rw [hplace] at hm
        exact (not_within (List.suffix_refl _) hm).elim
      · exact ⟨_, List.mem_append_right _ (List.mem_singleton_self _), hplace, hway⟩
  | aside hplace hway =>
      exact hled.extend (fun hlook => hplace hlook.owns) (fun hbegins => hway hbegins.1 hbegins.2)
        fun _ => hplace
  | look hm hv =>
      subst hm hv
      cases hholds : p.settings.holds e v.context with
      | error error => trivial
      | ok holds =>
          cases holds with
          | true => exact ⟨h, way, v, [], rfl, hholds, nofun⟩
          | false => exact ⟨h, way, v, [], rfl, hholds, nofun⟩
  | goes hm =>
      refine hled.extend (hm.2 _) (fun hbegins => ?_) nofun
      have hplace := hm.1
      rw [hbegins.1] at hplace
      exact not_within (List.suffix_refl _) hplace
  | skips => trivial

end Post

namespace Marked

variable {e : Evaluator} {p : Post} {path : Way} {a : Stage} {ordered : Prop} {m : Mark} {way : Way}
variable {s t : Marked} {w v x y : World} {h g : List Turn}

/-- **A run** of what attends to a step leads to a stage of which the history tells. -/
theorem Attends.run (hs : Attends e p path a s) (hg : p.Led e path g a)
    (hrun : Run ordered s w h t v) : ∃ b, p.Led e path (g ++ h) b ∧ Attends e p path b t := by
  induction hrun generalizing a g with
  | stop => exact ⟨a, by rwa [List.append_nil], hs⟩
  | own hmove _ ih =>
      obtain ⟨b, hb, ht⟩ := hs.move hmove
      obtain ⟨c, hc, hr⟩ := ih ht (hg.next hb)
      rw [List.append_assoc] at hc
      exact ⟨c, hc, hr⟩
  | @other s r w v u h _ ih =>
      have hother : p.Led e path (g ++ [.other w v]) a := hg.extend id id fun _ => id
      obtain ⟨c, hc, hr⟩ := ih hs hother
      rw [List.append_assoc] at hc
      exact ⟨c, hc, hr⟩
  | tick _ _ ih =>
      have htick : p.Led e path (g ++ [.tick]) a := hg.extend id id fun _ => id
      obtain ⟨c, hc, hr⟩ := ih (hs.elapse 1) htick
      rw [List.append_assoc] at hc
      exact ⟨c, hc, hr⟩

/-- When an attempt is over, the step has no turn until another one begins. -/
theorem Attends.rests (hs : Attends e p path .dropped s)
    (hrun : Run ordered s w (h ++ .own m way x y :: g) t v)
    (hbegins : ∀ turn ∈ h, ¬ p.Begins path turn) : ¬ p.place <:+ m.place := by
  induction h generalizing s w with
  | nil =>
      cases hrun with
      | own hmove hrest =>
          obtain ⟨b, hb, -⟩ := hs.move hmove
          intro hm
          rcases hb.owned hm with ⟨-, -, heq, -⟩ | ⟨heq, -⟩ | ⟨heq, -⟩ <;> cases heq
  | cons turn h ih =>
      have hlater := fun turn' hmem => hbegins turn' (List.mem_cons_of_mem _ hmem)
      cases hrun with
      | own hmove hrest =>
          obtain ⟨b, hb, ht⟩ := hs.move hmove
          cases hb with
          | begins hplace hway => exact (hbegins _ (List.mem_cons_self ..) ⟨hplace, hway⟩).elim
          | aside => exact ih ht hrest hlater
      | other hrest => exact ih hs hrest hlater
      | tick _ hrest => exact ih (hs.elapse 1) hrest hlater

/-- **A turn of a run** is one that the stage allows to which the history before has led. -/
theorem Attends.turn (hs : Attends e p path .fresh s)
    (hrun : Run ordered s w (h ++ .own m way x y :: g) t v) :
    ∃ a b r, p.Led e path h a ∧ p.Next e path m way x y a b ∧ Attends e p path b r ∧
      Run ordered r y g t v := by
  obtain ⟨q, u, hbefore, hafter⟩ := hrun.split
  have hnone : p.Led e path [] .fresh := fun h₁ turn h₂ heq => by simp at heq
  obtain ⟨a, ha, hq⟩ := hs.run hnone hbefore
  cases hafter with
  | own hmove hrest =>
      obtain ⟨b, hb, hr⟩ := hq.move hmove
      exact ⟨a, b, _, ha, hb, hr, hrest⟩

end Marked

end Runsheet
