import Runsheet.Proofs.Throughout
import Runsheet.Proofs.Batch
import Runsheet.Proofs.Determinism

/-!
# Work that depends on keys of its own

What an activity does may depend on some keys and on the pools below a root, and on nothing else: not
on the clock, not on the order in which its own parts have their turns, and not on others, as long as
they leave those keys and pools alone.  Such an activity is `Steady`: of two of its runs that have lasted
equally long and go no further before time passes, both are over, with one outcome, or neither is, and
both have left the same values.

Under a limit this asks for more.  When the limit is reached, the branches of a split within may be in time
or not, which is for the order of the turns to say.  So the work has to be `Punctual`: at the limit it waits
only if all its parts do.

* `Steady.act`, `Steady.sleep`, `Steady.within` — what is made of steady parts is steady;
* `Throughout.steady` — an activity without splits is steady if its changes look at its keys alone;
* `Steady.takes` — a steady activity that ends once ends always, after the same time.
-/

namespace Runsheet

/-- The worlds have the same values under the keys and the same closed pools at and below the root,
maybe at different times. -/
structure Alike (keys : String → Prop) (root : Pool) (w v : World) : Prop where
  values {key : String} : keys key → v.context.get? key = w.context.get? key
  closed {p : Pool} : root <:+ p → v.isClosed p = w.isClosed p

variable {keys : String → Prop} {root : Pool} {w v u w' v' u' : World}

theorem Alike.refl (w : World) : Alike keys root w w :=
  ⟨fun _ => rfl, fun _ => rfl⟩

theorem Alike.symm (halike : Alike keys root w v) : Alike keys root v w :=
  ⟨fun hkey => (halike.values hkey).symm, fun hp => (halike.closed hp).symm⟩

theorem Alike.trans (hl : Alike keys root w v) (hr : Alike keys root v u) : Alike keys root w u :=
  ⟨fun hkey => (hr.values hkey).trans (hl.values hkey),
    fun hp => (hr.closed hp).trans (hl.closed hp)⟩

/-- Time changes neither values nor pools. -/
@[simp] theorem alike_wait_left {ms : Nat} : Alike keys root (w.wait ms) v ↔ Alike keys root w v :=
  ⟨fun halike => ⟨halike.values, halike.closed⟩, fun halike => ⟨halike.values, halike.closed⟩⟩

@[simp] theorem alike_wait_right {ms : Nat} : Alike keys root w (v.wait ms) ↔ Alike keys root w v :=
  ⟨fun halike => ⟨halike.values, halike.closed⟩, fun halike => ⟨halike.values, halike.closed⟩⟩

/-- Nor does a change of the log alone. -/
theorem Alike.note (halike : Alike keys root w v) (level : Level) (text : String) :
    Alike keys root (w.note level text) (v.note level text) :=
  ⟨halike.values, halike.closed⟩

namespace Activity

/-- Others leave the keys and the pools alone. -/
def Spared (keys : String → Prop) (root : Pool) (h : List Turn) : Prop :=
  ∀ x y, .other x y ∈ h → Alike keys root x y

/-- **A steady activity**: two of its runs in worlds that are alike, whatever turns its parts take, are
in the same state whenever they come to rest at the same time: both have ended, with one outcome, or both
wait for time to pass, or no time passes in either. -/
structure Steady (keys : String → Prop) (root : Pool) (a : Activity) : Prop where
  agree {w w' : World} {h h' : List Turn} {b b' : Activity} {v v' : World} :
    Alike keys root w w' → Spared keys root h → Spared keys root h' →
    Run False a w h b v → Run False a w' h' b' v' → ticks h = ticks h' → Rests b → Rests b' →
    (∀ o, b = .done o → b' = .done o) ∧ (Settled b → Settled b') ∧ Alike keys root v v'

/-- **A punctual activity**: if it waits with its own hands at a time, all its parts wait. -/
def Punctual (keys : String → Prop) (root : Pool) (time : Nat) (a : Activity) : Prop :=
  ∀ {w : World} {h : List Turn} {b : Activity} {v : World}, Spared keys root h →
    Run False a w h b v → ticks h = time → AtRest b → Settled b

/-- From every world that is alike, the activity ends after one time, with one report, and leaves
the values of one world; until then it waits for time to pass whenever it stands still. -/
structure Takes (keys : String → Prop) (root : Pool) (w : World) (a : Activity) (duration : Nat)
    (report : Report) (last : World) : Prop where
  waits {v : World} {h : List Turn} {b : Activity} {u : World} : Alike keys root w v →
    Spared keys root h → Run False a v h b u → Still b → Settled b ∧ ticks h < duration
  ends {v : World} {h : List Turn} {o : Outcome} {u : World} : Alike keys root w v →
    Spared keys root h → Run False a v h (.done o) u →
    o = .ok report ∧ ticks h = duration ∧ Alike keys root last u

/-- A change that looks at the keys and the pools alone. -/
def Tied (keys : String → Prop) (root : Pool) (f : World → World) (next : World → Activity) : Prop :=
  ∀ w v, Alike keys root w v → next v = next w ∧ Alike keys root (f w) (f v)

variable {ordered : Prop} {way : Way} {a b c b' c' : Activity} {h g h' g' : List Turn} {o o' : Outcome}
variable {t left : Nat} {next : Option Outcome → Activity}

/-! ### Histories that others spare -/

theorem spared_append : Spared keys root (h ++ g) ↔ Spared keys root h ∧ Spared keys root g :=
  forall_other_append

theorem Spared.tail {t : Turn} (hspared : Spared keys root (t :: h)) : Spared keys root h :=
  fun x y hmem => hspared x y (List.mem_cons_of_mem _ hmem)

theorem Spared.kept (hspared : Spared keys root h) (w : World) : Kept (Alike keys root w) h :=
  fun x y hmem halike => halike.trans (hspared x y hmem)

theorem Alone.spared (halone : Alone h) : Spared keys root h :=
  fun x y hmem => (halone x y hmem).elim

theorem rests_done (o : Outcome) : Rests (.done o) :=
  Or.inl ⟨o, rfl⟩

/-! ### The ends of steady activities -/

section

variable (ha : Steady keys root a) (halike : Alike keys root w w')
  (hspared : Spared keys root h) (hspared' : Spared keys root h')

include ha halike hspared hspared'

/-- What has ended in one run does not stand still in the other one when the same time has passed. -/
theorem Steady.before (hend : Run False a w h (.done o) v) (hrun : Run False a w' h' b' v')
    (hstill : Still b') : ticks h' < ticks h := by
  refine Nat.lt_of_not_le fun hle => ?_
  have hmet {g : List Turn} {c : Activity} {x : World} (hg : Spared keys root g)
      (hrun : Run False a w' g c x) (hticks : ticks h = ticks g) : ¬ Still c := by
    intro hc
    obtain ⟨hsame, _⟩ := ha.agree halike hspared hg hend hrun hticks (rests_done o) (Or.inr hc)
    rw [hsame o rfl] at hc
    exact not_resting_done hc
  rcases Nat.lt_or_ge (ticks h) (ticks h') with hlt | hge
  · obtain ⟨h₁, h₂, c, x, rfl, hticks, hbefore, hc⟩ := hrun.settled_at hlt
    exact hmet (spared_append.mp hspared').1 hbefore hticks.symm hc.still
  · exact hmet hspared' hrun (by omega) hstill

/-- If one run ends, the other one waits for time to pass wherever it stands still. -/
theorem Steady.settles (hend : Run False a w h (.done o) v) (hrun : Run False a w' h' b' v')
    (hstill : Still b') : Settled b' := by
  have hlt := ha.before halike hspared hspared' hend hrun hstill
  obtain ⟨h₁, h₂, c, x, rfl, hticks, hbefore, hc⟩ := hend.settled_at hlt
  have hagree := ha.agree halike (spared_append.mp hspared).1 hspared' hbefore hrun hticks
    (Or.inr hc.still) (Or.inr hstill)
  exact hagree.2.1 hc

/-- Two runs that have ended have lasted equally long, and have the same outcome. -/
theorem Steady.ends (hend : Run False a w h (.done o) v) (hend' : Run False a w' h' (.done o') v') :
    ticks h = ticks h' ∧ o = o' ∧ Alike keys root v v' := by
  have hnot {w w' : World} {h h' : List Turn} {o o' : Outcome} {v v' : World}
      (halike : Alike keys root w w') (hspared : Spared keys root h) (hspared' : Spared keys root h')
      (hend : Run False a w h (.done o) v) (hend' : Run False a w' h' (.done o') v') :
      ¬ ticks h < ticks h' := by
    intro hlt
    obtain ⟨h₁, h₂, c, x, rfl, hticks, hbefore, hc⟩ := hend'.settled_at hlt
    have hearlier := ha.before halike hspared (spared_append.mp hspared').1 hend hbefore hc.still
    omega
  have hticks : ticks h = ticks h' := by
    have hle := hnot halike hspared hspared' hend hend'
    have hge := hnot halike.symm hspared' hspared hend' hend
    omega
  obtain ⟨hsame, -, hlast⟩ :=
    ha.agree halike hspared hspared' hend hend' hticks (rests_done o) (rests_done o')
  cases hsame o rfl
  exact ⟨hticks, rfl, hlast⟩

end

/-- **A steady activity that ends once, ends always**, after the same time. -/
theorem Steady.takes {r : Report} (ha : Steady keys root a) (hspared : Spared keys root h)
    (hend : Run False a w h (.done (.ok r)) v) : Takes keys root w a (ticks h) r v where
  waits halike hspared' hrun hstill := ⟨ha.settles halike hspared hspared' hend hrun hstill,
    ha.before halike hspared hspared' hend hrun hstill⟩
  ends halike hspared' hend' := by
    obtain ⟨hticks, rfl, hlast⟩ := ha.ends halike hspared hspared' hend hend'
    exact ⟨rfl, hticks.symm, hlast⟩

/-- An activity that takes a time lasts no longer. -/
theorem Takes.ticks_le {duration : Nat} {r : Report} (htakes : Takes keys root w a duration r v)
    (halike : Alike keys root w w') (hspared : Spared keys root h) (hrun : Run False a w' h b u) :
    ticks h ≤ duration := by
  refine Nat.le_of_not_lt fun hlate => ?_
  obtain ⟨h₁, h₂, c, x, rfl, hticks, hbefore, hc⟩ := hrun.settled_at hlate
  have hwaits := htakes.waits halike (spared_append.mp hspared).1 hbefore hc.still
  omega

/-! ### What is made of steady parts -/

theorem Steady.done : Steady keys root (.done o) := by
  constructor
  intro w w' h h' b b' v v' halike hspared hspared' hrun hrun' _ _ _
  obtain ⟨rfl, hidle⟩ := hrun.of_done
  obtain ⟨rfl, hidle'⟩ := hrun'.of_done
  refine ⟨fun o ho => ho, False.elim, ?_⟩
  have hv : Alike keys root w v := hrun.kept_idle hidle (hspared.kept w) (.refl w)
  have hv' : Alike keys root w' v' := hrun'.kept_idle hidle' (hspared'.kept w') (.refl w')
  exact hv.symm.trans (halike.trans hv')

/-- Work that never ends changes nothing. -/
theorem Run.of_never (hrun : Run ordered .never w h b v) (hspared : Spared keys root h) :
    b = .never ∧ Alike keys root w v := by
  generalize hnever : Activity.never = a at hrun
  induction hrun with
  | stop => exact ⟨rfl, .refl _⟩
  | own hmove =>
      subst hnever
      cases hmove
  | other _ ih =>
      obtain ⟨hb, hlater⟩ := ih hspared.tail hnever
      exact ⟨hb, (hspared _ _ (List.mem_cons_self ..)).trans hlater⟩
  | tick hsettled =>
      subst hnever
      exact hsettled.elim

theorem Steady.never : Steady keys root .never := by
  constructor
  intro w w' h h' b b' v v' halike hspared hspared' hrun hrun' _ _ _
  obtain ⟨rfl, hv⟩ := hrun.of_never hspared
  obtain ⟨rfl, hv'⟩ := hrun'.of_never hspared'
  exact ⟨fun o ho => ho, id, hv.symm.trans (halike.trans hv')⟩

/-- A change that has not been made is not at rest. -/
theorem Run.past_act {f : World → World} {next : World → Activity}
    (hrun : Run ordered (.act f next) w h b v) (hb : Rests b) (hspared : Spared keys root h) :
    ∃ h₁ h₂ x, h = h₁ ++ .own [] x (f x) :: h₂ ∧ ticks h = ticks h₂ ∧ Alike keys root w x ∧
      Spared keys root h₂ ∧ Run ordered (next x) (f x) h₂ b v := by
  rcases hrun.of_act with ⟨rfl, _⟩ | ⟨h₁, h₂, x, rfl, hidle, hbefore, hrest⟩
  · rcases hb with ⟨o, ho⟩ | hsettled
    · cases ho
    · exact hsettled.elim
  · obtain ⟨hspared₁, hspared₂⟩ := spared_append.mp hspared
    exact ⟨h₁, h₂, x, rfl, by simp [hidle.ticks],
      hbefore.kept_idle hidle (hspared₁.kept w) (.refl w), hspared₂.tail, hrest⟩

theorem Steady.act {f : World → World} {next : World → Activity} (htied : Tied keys root f next)
    (hnext : ∀ w, Steady keys root (next w)) : Steady keys root (.act f next) := by
  constructor
  intro w w' h h' b b' v v' halike hspared hspared' hrun hrun' hticks hb hb'
  obtain ⟨h₁, h₂, x, rfl, heq, hx, hs, hrest⟩ := hrun.past_act hb hspared
  obtain ⟨h₁', h₂', x', rfl, heq', hx', hs', hrest'⟩ := hrun'.past_act hb' hspared'
  obtain ⟨hsame, hafter⟩ := htied x x' (hx.symm.trans (halike.trans hx'))
  rw [hsame] at hrest'
  exact (hnext x).agree hafter hs hs' hrest hrest' (by omega) hb hb'

/-- Work that waits changes nothing until its time has come. -/
theorem Run.past_sleep {ms : Nat} {next : World → Activity}
    (hrun : Run ordered (.sleep ms next) w h b v) (hspared : Spared keys root h) :
    (b = .sleep (ms - ticks h) next ∧ ticks h ≤ ms ∧ Alike keys root w v) ∨
      ∃ h₁ h₂ x, h = h₁ ++ .own [] x x :: h₂ ∧ ticks h₁ = ms ∧ Alike keys root w x ∧
        Spared keys root h₂ ∧ Run ordered (next x) x h₂ b v := by
  generalize hsleep : Activity.sleep ms next = a at hrun
  induction hrun generalizing ms with
  | stop => exact Or.inl ⟨hsleep.symm, by simp, .refl _⟩
  | @own way a b c w v u h hmove hrun _ =>
      subst hsleep
      cases hmove
      exact Or.inr ⟨[], h, w, rfl, rfl, .refl w, hspared.tail, hrun⟩
  | @other _ _ y z _ _ _ ih =>
      have hfirst := hspared _ _ (List.mem_cons_self ..)
      rcases ih hspared.tail hsleep with ⟨hb, hle, hlater⟩ | ⟨h₁, h₂, x, rfl, hms, hx, hs, hrest⟩
      · exact Or.inl ⟨hb, hle, hfirst.trans hlater⟩
      · exact Or.inr ⟨.other y z :: h₁, h₂, x, rfl, hms, hfirst.trans hx, hs, hrest⟩
  | tick hsettled _ ih =>
      subst hsleep
      have hpos : ms ≠ 0 := hsettled
      rcases ih hspared.tail rfl with ⟨hb, hle, hlater⟩ | ⟨h₁, h₂, x, rfl, hms, hx, hs, hrest⟩
      · refine Or.inl ⟨?_, ?_, alike_wait_left.mp hlater⟩
        · rw [hb, ticks_tick, Nat.sub_sub, Nat.add_comm 1]
        · rw [ticks_tick]
          omega
      · refine Or.inr ⟨.tick :: h₁, h₂, x, rfl, ?_, alike_wait_left.mp hx, hs, hrest⟩
        rw [ticks_tick, hms]
        omega

theorem Steady.sleep {ms : Nat} {next : World → Activity} (htied : Tied keys root id next)
    (hnext : ∀ w, Steady keys root (next w)) : Steady keys root (.sleep ms next) := by
  have hlasts {g h₁ h₂ : List Turn} {c : Activity} {x y : World}
      (hc : c = .sleep (ms - ticks g) next) (hticks : ticks g = ticks (h₁ ++ .own [] x y :: h₂))
      (hms : ticks h₁ = ms) : ¬ Rests c := by
    rw [hc, hticks, ticks_append]
    rintro (⟨o, ho⟩ | hsettled)
    · cases ho
    · exact hsettled (by omega)
  constructor
  intro w w' h h' b b' v v' halike hspared hspared' hrun hrun' hticks hb hb'
  rcases hrun.past_sleep hspared with ⟨hc, hle, hv⟩ | ⟨h₁, h₂, x, rfl, hms, hx, hs, hrest⟩ <;>
    rcases hrun'.past_sleep hspared' with
      ⟨hc', hle', hv'⟩ | ⟨h₁', h₂', x', rfl, hms', hx', hs', hrest'⟩
  · rw [hc, hc', hticks]
    exact ⟨fun o ho => ho, id, hv.symm.trans (halike.trans hv')⟩
  · exact (hlasts hc hticks hms' hb).elim
  · exact (hlasts hc' hticks.symm hms hb').elim
  · have hboth := hx.symm.trans (halike.trans hx')
    rw [(htied x x' hboth).1] at hrest'
    refine (hnext x).agree hboth hs hs' hrest hrest' ?_ hb hb'
    simp only [ticks_append, ticks_own] at hticks
    omega

/-- The body of work under a limit is over: it has ended in time, or the time has passed while all of its
parts wait. -/
inductive Over (a : Activity) (w : World) (left : Nat) (h : List Turn) (v : World) :
    Option Outcome → Prop
  | inTime {o : Outcome} (hrun : Run False a w h (.done o) v) (hle : ticks h ≤ left) :
      Over a w left h v (some o)
  | late {b : Activity} (hrun : Run False a w h b v) (hsettled : Settled b)
      (hlate : ticks h = left) : Over a w left h v none

/-- **Punctual work under a limit** that is at rest: its body stands still, and does not wait any more if the
time has passed, or it is over. -/
theorem Run.past_within (hrun : Run False (.within left a next) w h b v) (hb : Rests b)
    (hspared : Spared keys root h) (hpunctual : Punctual keys root left a) :
    (∃ c, b = .within (left - ticks h) c next ∧ Run False a w h c v ∧ Still c ∧ ticks h ≤ left ∧
      (ticks h = left → ¬ AtRest c)) ∨
    ∃ h₁ h₂ x o, h = h₁ ++ .own [] x x :: h₂ ∧ Spared keys root h₁ ∧ Spared keys root h₂ ∧
      Over a w left h₁ x o ∧ Run False (next o) x h₂ b v := by
  rcases hrun.of_within with ⟨c, hbody, hle, rfl⟩ | ⟨h₁, h₂, o, x, rfl, hbody, hle, _, hrest⟩ |
    ⟨h₁, h₂, c, x, rfl, hbody, hc, hlate, _, hrest⟩
  · rcases hb with ⟨o, ho⟩ | ⟨hc, hleft⟩
    · cases ho
    · exact Or.inl ⟨c, rfl, hbody, hc, hle, fun heq => hleft (by omega)⟩
  · obtain ⟨hs₁, hs₂⟩ := spared_append.mp hspared
    exact Or.inr ⟨h₁, h₂, x, _, rfl, hs₁, hs₂.tail, .inTime hbody hle, hrest⟩
  · obtain ⟨hs₁, hs₂⟩ := spared_append.mp hspared
    exact Or.inr ⟨h₁, h₂, x, _, rfl, hs₁, hs₂.tail, .late hbody (hpunctual hs₁ hbody hlate hc) hlate,
      hrest⟩

section

variable {left : Nat} {p p' : Option Outcome} (ha : Steady keys root a)
  (halike : Alike keys root w w') (hspared : Spared keys root h) (hspared' : Spared keys root h')

include ha halike hspared hspared'

/-- A body that is over in one run is not under way in the other one at that time. -/
theorem Over.after (hover : Over a w left h v p) (hrun : Run False a w' h' b' v') (hstill : Still b')
    (hle : ticks h' ≤ left) (hlate : ticks h' = left → ¬ AtRest b') : ticks h' < ticks h := by
  cases hover with
  | inTime hend => exact ha.before halike hspared hspared' hend hrun hstill
  | late hbody hsettled heq =>
      refine Nat.lt_of_le_of_ne (by omega) fun hsame => hlate (by omega) ?_
      have hagree := ha.agree halike hspared hspared' hbody hrun hsame.symm (Or.inr hsettled.still)
        (Or.inr hstill)
      exact (hagree.2.1 hsettled).atRest

/-- The bodies of two runs are over at the same time and in the same way. -/
theorem Over.agree (hover : Over a w left h v p) (hover' : Over a w' left h' v' p') :
    ticks h = ticks h' ∧ p = p' ∧ Alike keys root v v' := by
  cases hover with
  | inTime hend hle =>
      cases hover' with
      | inTime hend' =>
          obtain ⟨hticks, rfl, hlast⟩ := ha.ends halike hspared hspared' hend hend'
          exact ⟨hticks, rfl, hlast⟩
      | late hrun' hsettled' hlate' =>
          have hbefore := ha.before halike hspared hspared' hend hrun' hsettled'.still
          omega
  | late hrun hsettled hlate =>
      cases hover' with
      | inTime hend' hle' =>
          have hbefore := ha.before halike.symm hspared' hspared hend' hrun hsettled.still
          omega
      | late hrun' hsettled' hlate' =>
          have hticks : ticks h = ticks h' := by omega
          obtain ⟨_, _, hlast⟩ := ha.agree halike hspared hspared' hrun hrun' hticks
            (Or.inr hsettled.still) (Or.inr hsettled'.still)
          exact ⟨hticks, rfl, hlast⟩

end

/-- **Punctual work under a limit is steady** if it is so by itself. -/
theorem Steady.within (ha : Steady keys root a) (hpunctual : Punctual keys root left a)
    (hnext : ∀ o, Steady keys root (next o)) : Steady keys root (.within left a next) := by
  constructor
  intro w w' h h' b b' v v' halike hspared hspared' hrun hrun' hticks hb hb'
  rcases hrun.past_within hb hspared hpunctual with ⟨c, rfl, hbody, hc, hle, hlate⟩ |
      ⟨h₁, h₂, x, o, rfl, hs₁, hs₂, hover, hrest⟩ <;>
    rcases hrun'.past_within hb' hspared' hpunctual with ⟨c', rfl, hbody', hc', hle', hlate'⟩ |
      ⟨h₁', h₂', x', o', rfl, hs₁', hs₂', hover', hrest'⟩
  · obtain ⟨_, hsettles, hlast⟩ :=
      ha.agree halike hspared hspared' hbody hbody' hticks (Or.inr hc) (Or.inr hc')
    refine ⟨nofun, fun hsettled => ?_, hlast⟩
    obtain ⟨hleft, hinner⟩ := settled_within.mp hsettled
    exact settled_within.mpr ⟨by omega, hsettles hinner⟩
  · have hafter := hover'.after ha halike.symm hs₁' hspared hbody hc hle hlate
    simp only [ticks_append, ticks_own] at hticks
    omega
  · have hafter := hover.after ha halike hs₁ hspared' hbody' hc' hle' hlate'
    simp only [ticks_append, ticks_own] at hticks
    omega
  · obtain ⟨heq, rfl, hmet⟩ := hover.agree ha halike hs₁ hs₁' hover'
    refine (hnext o).agree hmet hs₂ hs₂' hrest hrest' ?_ hb hb'
    simp only [ticks_append, ticks_own] at hticks
    omega

/-- What flows without splits do by themselves looks at no keys and no pools. -/
theorem fits_tied (keys : String → Prop) (root : Pool) : Fits (Tied keys root) fun _ => False where
  bind k hf w v halike := by
    obtain ⟨hnext, hafter⟩ := hf w v halike
    exact ⟨congrArg (Activity.bind k) hnext, hafter⟩
  note level text _ _ _ halike := ⟨rfl, halike.note level text⟩
  pause _ _ _ halike := ⟨rfl, halike⟩
  enter _ _ hp := hp.elim
  leave _ _ hp := hp.elim

/-- An activity without splits that waits with its own hands waits with all its parts. -/
theorem Throughout.settled {P : (World → World) → (World → Activity) → Prop}
    (ha : Throughout P (fun _ => False) a) (hrest : AtRest a) : Settled a := by
  induction ha with
  | done | act | never => exact hrest.elim
  | sleep => exact hrest
  | within _ _ ih => exact settled_within.mpr ⟨hrest.1, ih hrest.2⟩
  | fork hpool => exact hpool.elim

theorem Throughout.punctual {P : (World → World) → (World → Activity) → Prop}
    (ha : Throughout P (fun _ => False) a) (time : Nat) : Punctual keys root time a :=
  fun _ hrun _ hrest => (ha.run hrun).settled hrest

/-- **An activity without splits is steady** if its changes look at its keys alone: it has one move at
most in each of its states. -/
theorem Throughout.steady (ha : Throughout (Tied keys root) (fun _ => False) a) :
    Steady keys root a := by
  induction ha with
  | done => exact .done
  | act htied _ ih => exact .act htied ih
  | sleep htied _ ih => exact .sleep htied ih
  | never => exact .never
  | within hbody _ ih₁ ih₂ => exact .within ih₁ (Throughout.punctual hbody _) ih₂
  | fork hpool => exact hpool.elim

/-! ### The branches of a parallel flow -/

theorem Steady.note {level : Level} {text : String} (ha : Steady keys root a) :
    Steady keys root (note level text a) :=
  .act ((fits_tied keys root).note level text a) fun _ => ha

/-- Steady work under a limit is steady if it is punctual at the limit. -/
theorem Steady.limited {limit index : Nat} {label : String} (ha : Steady keys root a)
    (hpunctual : limit ≠ 0 → Punctual keys root limit a) :
    Steady keys root (Activity.limited limit index label a) := by
  by_cases hlimit : limit = 0
  · subst hlimit
    rwa [limited_zero]
  · simp only [Activity.limited, limitOf?, hlimit, if_false]
    refine .within ha (hpunctual hlimit) fun o => ?_
    cases o with
    | some o => exact .done
    | none => exact .note .done

/-- A branch is steady if its work under the limit is and its guard looks at the keys alone. -/
theorem Steady.branch {e : Evaluator} {s : Settings} {limit index : Nat} {label : String}
    (hguard : ∀ c d : Context, (∀ key, keys key → d.get? key = c.get? key) →
      s.holds e d = s.holds e c) (ha : Steady keys root (Activity.limited limit index label a)) :
    Steady keys root (Activity.branch e limit index label s a) := by
  refine .act (fun w v halike => ⟨?_, halike⟩) fun w => ?_
  · simp only [hguard w.context v.context fun _ => halike.values]
  cases s.holds e w.context with
  | error error => exact .done
  | ok b =>
      cases b with
      | false => exact .note .done
      | true => exact ha

end Activity

end Runsheet
