import Runsheet.Proofs.Interleaving

/-!
# Runs of parts

A run of an activity that is put together is made of runs of its parts.

* `Run.of_bind` — first the activity, then what goes on with its outcome;
* `Run.of_within` — the body for as long as there is time, then what follows.
-/

namespace Runsheet

namespace Activity

variable {ordered : Prop} {way : Way} {a b c : Activity} {w v u : World} {h g : List Turn}

/-! ### One move, and then the rest -/

/-- Work that changes the world and goes on: others have their turns for a while, and then it does
its change and goes on. -/
theorem Run.of_act {f : World → World} {next : World → Activity}
    (hrun : Run ordered (.act f next) w h c u) :
    (c = .act f next ∧ Idle h) ∨
      ∃ h₁ h₂ v, h = h₁ ++ .own [] v (f v) :: h₂ ∧ Idle h₁ ∧
        Run ordered (.act f next) w h₁ (.act f next) v ∧ Run ordered (next v) (f v) h₂ c u := by
  generalize hact : Activity.act f next = a at hrun
  induction hrun with
  | stop => exact Or.inl ⟨rfl, idle_nil⟩
  | @own way a b c w v u h hmove hrun ih =>
      subst hact
      cases hmove
      exact Or.inr ⟨[], h, w, rfl, idle_nil, .stop, hrun⟩
  | @other a c w v u h hrun ih =>
      rcases ih hact with ⟨hc, hidle⟩ | ⟨h₁, h₂, x, rfl, hidle, hbefore, hafter⟩
      · exact Or.inl ⟨hc, hidle.other⟩
      · subst hact
        exact Or.inr ⟨.other w v :: h₁, h₂, x, rfl, hidle.other, .other hbefore, hafter⟩
  | tick hsettled => exact (hact ▸ hsettled : Settled (.act f next)).elim

/-- Work that changes the world and goes on, whatever the world is. -/
theorem Run.of_change {f : World → World} (hrun : Run ordered (change f a) w h c u) :
    (c = change f a ∧ Idle h) ∨
      ∃ h₁ h₂ v x, h = h₁ ++ .own [] v x :: h₂ ∧ x = f v ∧ Idle h₁ ∧
        Run ordered (change f a) w h₁ (change f a) v ∧ Run ordered a x h₂ c u := by
  rcases Run.of_act hrun with hfirst | ⟨h₁, h₂, v, rfl, hidle, hbefore, hafter⟩
  · exact Or.inl hfirst
  · exact Or.inr ⟨h₁, h₂, v, f v, rfl, rfl, hidle, hbefore, hafter⟩

/-- Work that waits and goes on. -/
theorem Run.of_sleep {ms : Nat} {next : World → Activity}
    (hrun : Run ordered (.sleep ms next) w h c u) :
    (∃ rest, c = .sleep rest next) ∨
      ∃ h₁ h₂ v, h = h₁ ++ .own [] v v :: h₂ ∧
        Run ordered (.sleep ms next) w h₁ (.sleep 0 next) v ∧ Run ordered (next v) v h₂ c u := by
  generalize hsleep : Activity.sleep ms next = a at hrun
  induction hrun generalizing ms with
  | stop => exact Or.inl ⟨ms, hsleep.symm⟩
  | @own way a b c w v u h hmove hrun ih =>
      subst hsleep
      cases hmove
      exact Or.inr ⟨[], h, w, rfl, .stop, hrun⟩
  | other _ ih =>
      subst hsleep
      rcases ih rfl with hleft | ⟨h₁, h₂, x, rfl, hbefore, hafter⟩
      · exact Or.inl hleft
      · exact Or.inr ⟨_, h₂, x, rfl, .other hbefore, hafter⟩
  | tick hsettled _ ih =>
      subst hsleep
      rcases ih rfl with hleft | ⟨h₁, h₂, x, rfl, hbefore, hafter⟩
      · exact Or.inl hleft
      · exact Or.inr ⟨_, h₂, x, rfl, .tick hsettled hbefore, hafter⟩

/-! ### One activity after the other -/

section

variable {k : Outcome → Activity}

theorem Move.of_bind (hmove : Move ordered way (a.bind k) w c v) :
    (∃ b, Move ordered way a w b v ∧ c = b.bind k) ∨
      ∃ o, a = .done o ∧ Move ordered way (k o) w c v := by
  cases a with
  | done o => exact Or.inr ⟨o, rfl, hmove⟩
  | act f next => cases hmove; exact Or.inl ⟨_, .act, rfl⟩
  | sleep ms next => cases hmove; exact Or.inl ⟨_, .wake, rfl⟩
  | never => cases hmove
  | within left body next =>
      cases hmove with
      | inside hturn hmove => exact Or.inl ⟨_, .inside hturn hmove, rfl⟩
      | inTime => exact Or.inl ⟨_, .inTime, rfl⟩
      | late hrest => exact Or.inl ⟨_, .late hrest, rfl⟩
  | fork tally slots next =>
      cases hmove with
      | deal hturn hslot hdeal => exact Or.inl ⟨_, .deal hturn hslot hdeal, rfl⟩
      | branch hturn hslot hmove => exact Or.inl ⟨_, .branch hturn hslot hmove, rfl⟩
      | finish hturn hslot => exact Or.inl ⟨_, .finish hturn hslot, rfl⟩
      | read hturn harrivals hverdict => exact Or.inl ⟨_, .read hturn harrivals hverdict, rfl⟩
      | abort hturn harrivals hverdict => exact Or.inl ⟨_, .abort hturn harrivals hverdict, rfl⟩
      | leave harrivals hended => exact Or.inl ⟨_, .leave harrivals hended, rfl⟩

theorem resting_bind {spin : Prop} (hrests : Resting spin (a.bind k)) :
    Resting spin a ∨ ∃ o, a = .done o ∧ Resting spin (k o) := by
  cases a with
  | done o => exact Or.inr ⟨o, rfl, hrests⟩
  | _ => exact Or.inl hrests

theorem atRest_bind (hrest : AtRest (a.bind k)) : AtRest a ∨ ∃ o, a = .done o ∧ AtRest (k o) := by
  cases a with
  | done o => exact Or.inr ⟨o, rfl, hrest⟩
  | _ => exact Or.inl hrest

theorem AtRest.bind (hrest : AtRest a) : AtRest (a.bind k) := by
  cases a with
  | done o => exact hrest.elim
  | _ => exact hrest

theorem elapse_bind (ha : Settled a) (ms : Nat) : (a.bind k).elapse ms = (a.elapse ms).bind k := by
  cases a with
  | done o => exact (not_resting_done ha).elim
  | _ => rfl

/-- **One after the other.**  A run of an activity that goes on with its outcome is a run of the
activity, or such a run to its end and then a run of what goes on. -/
theorem Run.of_bind (hrun : Run ordered (a.bind k) w h c u) :
    (∃ b, Run ordered a w h b u ∧ (∀ o, b ≠ .done o) ∧ c = b.bind k) ∨
      ∃ h₁ h₂ o v, h = h₁ ++ h₂ ∧ Run ordered a w h₁ (.done o) v ∧ Run ordered (k o) v h₂ c u := by
  generalize hbind : a.bind k = d at hrun
  induction hrun generalizing a with
  | @stop d w =>
      by_cases hdone : ∃ o, a = .done o
      · obtain ⟨o, rfl⟩ := hdone
        subst hbind
        exact Or.inr ⟨[], [], o, w, rfl, .stop, .stop⟩
      · exact Or.inl ⟨a, .stop, fun o ho => hdone ⟨o, ho⟩, hbind.symm⟩
  | @own way d b c w v u h hmove hrun ih =>
      subst hbind
      rcases hmove.of_bind with ⟨b', hmove', rfl⟩ | ⟨o, rfl, hmove'⟩
      · rcases ih rfl with ⟨b'', hrun', hlasts, rfl⟩ | ⟨h₁, h₂, o, x, rfl, hfirst, hsecond⟩
        · exact Or.inl ⟨b'', .own hmove' hrun', hlasts, rfl⟩
        · exact Or.inr ⟨_, h₂, o, x, rfl, .own hmove' hfirst, hsecond⟩
      · exact Or.inr ⟨[], _, o, w, rfl, .stop, .own hmove' hrun⟩
  | other hrun ih =>
      rcases ih hbind with ⟨b, hrun', hlasts, rfl⟩ | ⟨h₁, h₂, o, x, rfl, hfirst, hsecond⟩
      · exact Or.inl ⟨b, .other hrun', hlasts, rfl⟩
      · exact Or.inr ⟨_, h₂, o, x, rfl, .other hfirst, hsecond⟩
  | @tick d c w u h hsettled hrun ih =>
      subst hbind
      rcases resting_bind hsettled with ha | ⟨o, rfl, hnext⟩
      · rcases ih (elapse_bind ha 1).symm with ⟨b, hrun', hlasts, rfl⟩ |
          ⟨h₁, h₂, o, x, rfl, hfirst, hsecond⟩
        · exact Or.inl ⟨b, .tick ha hrun', hlasts, rfl⟩
        · exact Or.inr ⟨_, h₂, o, x, rfl, .tick ha hfirst, hsecond⟩
      · exact Or.inr ⟨[], _, o, w, rfl, .stop, .tick hnext hrun⟩

end

/-! ### Work under a time limit -/

section

variable {left : Nat} {next : Option Outcome → Activity}

/-- **Work under a limit.**  A run of work under a limit is a run of the work for at most that long;
after it comes what follows, with the outcome if the work ended, and without one if it waited with its
own hands when the whole time had passed. -/
theorem Run.of_within (hrun : Run ordered (.within left a next) w h c u) :
    (∃ b, Run ordered a w h b u ∧ ticks h ≤ left ∧ c = .within (left - ticks h) b next) ∨
    (∃ h₁ h₂ o v, h = h₁ ++ .own [] v v :: h₂ ∧ Run ordered a w h₁ (.done o) v ∧
      ticks h₁ ≤ left ∧
      Run ordered (.within left a next) w h₁ (.within (left - ticks h₁) (.done o) next) v ∧
      Run ordered (next (some o)) v h₂ c u) ∨
    (∃ h₁ h₂ b v, h = h₁ ++ .own [] v v :: h₂ ∧ Run ordered a w h₁ b v ∧ AtRest b ∧
      ticks h₁ = left ∧ Run ordered (.within left a next) w h₁ (.within 0 b next) v ∧
      Run ordered (next none) v h₂ c u) := by
  generalize hwithin : Activity.within left a next = d at hrun
  induction hrun generalizing a left with
  | stop => exact Or.inl ⟨a, .stop, by simp, by simp [hwithin]⟩
  | @own way d b c w v u h hmove hrun ih =>
      subst hwithin
      cases hmove with
      | inside hturn hmove =>
          rcases ih rfl with ⟨b', hrun', hle, rfl⟩ | ⟨h₁, h₂, o, x, rfl, hbody, hle, hwhole, hnext⟩ |
            ⟨h₁, h₂, b', x, rfl, hbody, hrest, heq, hwhole, hnext⟩
          · exact Or.inl ⟨b', .own hmove hrun', hle, rfl⟩
          · exact Or.inr (Or.inl ⟨_, h₂, o, x, rfl, .own hmove hbody, hle,
              .own (.inside hturn hmove) hwhole, hnext⟩)
          · exact Or.inr (Or.inr ⟨_, h₂, b', x, rfl, .own hmove hbody, hrest, heq,
              .own (.inside hturn hmove) hwhole, hnext⟩)
      | inTime => exact Or.inr (Or.inl ⟨[], h, _, w, rfl, .stop, by simp, .stop, hrun⟩)
      | late hrest => exact Or.inr (Or.inr ⟨[], h, a, w, rfl, .stop, hrest, rfl, .stop, hrun⟩)
  | other hrun ih =>
      rcases ih hwithin with ⟨b', hrun', hle, rfl⟩ | ⟨h₁, h₂, o, x, rfl, hbody, hle, hwhole, hnext⟩ |
        ⟨h₁, h₂, b', x, rfl, hbody, hrest, heq, hwhole, hnext⟩
      · exact Or.inl ⟨b', .other hrun', hle, rfl⟩
      · exact Or.inr (Or.inl ⟨_, h₂, o, x, rfl, .other hbody, hle, .other hwhole, hnext⟩)
      · exact Or.inr (Or.inr ⟨_, h₂, b', x, rfl, .other hbody, hrest, heq, .other hwhole, hnext⟩)
  | tick hsettled hrun ih =>
      subst hwithin
      obtain ⟨hleft, hbody⟩ := settled_within.mp hsettled
      rcases ih rfl with ⟨b', hrun', hle, rfl⟩ | ⟨h₁, h₂, o, x, rfl, hrun', hle, hwhole, hnext⟩ |
        ⟨h₁, h₂, b', x, rfl, hrun', hrest, heq, hwhole, hnext⟩
      · refine Or.inl ⟨b', .tick hbody hrun', ?_, ?_⟩
        · simp only [ticks_tick]
          omega
        · simp only [ticks_tick, Nat.sub_sub, Nat.add_comm]
      · have hrest : left - ticks (.tick :: h₁) = left - 1 - ticks h₁ := by
          rw [ticks_tick]
          omega
        refine Or.inr (Or.inl ⟨_, h₂, o, x, rfl, .tick hbody hrun', ?_, ?_, hnext⟩)
        · rw [ticks_tick]
          omega
        · rw [hrest]
          exact .tick hsettled hwhole
      · refine Or.inr (Or.inr ⟨_, h₂, b', x, rfl, .tick hbody hrun', hrest, ?_,
          .tick hsettled hwhole, hnext⟩)
        rw [ticks_tick]
        omega

end

end Activity

end Runsheet
