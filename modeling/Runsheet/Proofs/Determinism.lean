import Runsheet.Proofs.Schedule

/-!
# The schedule is determined

On the schedule of `settle` one move at most is possible in a state: among the branches of a split the
first one that is not settled has its turn.  Histories in which no one else has a turn are therefore
the beginnings of one history.

* `Move.determined` — two moves in one state are the same;
* `Run.determined` — of two histories from one state, one goes on with the other;
* `run_of_alone` — an activity that can come to its end is carried there by `run`.
-/

namespace Runsheet

namespace Activity

variable {way way' : Way} {a b c : Activity} {w v u : World} {h g : List Turn}
variable {t t₁ t₂ : Tally} {slots : List (Slot Activity)} {s s' s₁ s₂ : Slot Activity} {i j : Nat}
variable {ordered : Prop}

/-- A turn that is taken is not over when those before another branch stand still. -/
theorem InTurn.le (hi : InTurn t slots i) (hs : slots[i]? = some s)
    (hmoves : s.Calm Still → ∃ body, s = .queued body) (hj : InTurn t slots j)
    (hs' : slots[j]? = some s') (hmoves' : s'.Calm Still → ∃ body, s' = .queued body) : j ≤ i := by
  by_cases hij : i < j
  · -- The branch before is calm, so it is the first in the line, and then so is the later one.
    have hcalm : s.Calm Still := by
      refine hj.1.calm (i := i) ?_
      rw [List.getElem?_take, if_pos hij]
      exact hs
    obtain ⟨body, rfl⟩ := hmoves hcalm
    obtain ⟨hslots, hfirst, _⟩ := hi.2 body hs
    obtain ⟨body', rfl⟩ := hmoves' (hslots.calm hs')
    have hfirst' := (hj.2 body' hs').2.1
    rw [hfirst] at hfirst'
    cases hfirst'
    exact Nat.le_refl i
  · omega

/-- It is the turn of one branch at most. -/
theorem InTurn.unique (hi : InTurn t slots i) (hs : slots[i]? = some s)
    (hmoves : s.Calm Still → ∃ body, s = .queued body) (hj : InTurn t slots j)
    (hs' : slots[j]? = some s') (hmoves' : s'.Calm Still → ∃ body, s' = .queued body) : i = j :=
  Nat.le_antisymm (hj.le hs' hmoves' hi hs hmoves) (hi.le hs hmoves hj hs' hmoves')

/-- When the branches have had their turns, none has another one. -/
theorem Readable.not_turn (hreadable : Readable t slots) (hi : InTurn t slots i)
    (hs : slots[i]? = some s) (hmoves : s.Calm Still → ∃ body, s = .queued body) : False := by
  obtain ⟨body, rfl⟩ := hmoves (hreadable.1.calm hs)
  obtain ⟨_, hfirst, hfree⟩ := hi.2 body hs
  exact hfree (hreadable.2 i body hfirst hs)

/-- A split with a branch that moves in its turn waits for that turn. -/
theorem Move.of_turn {next : Reading → Activity} (hc : Move True way' (.fork t slots next) w c u)
    (hi : InTurn t slots i) (hs : slots[i]? = some s) (hmove : BranchMove True i way t s w t₁ s₁ v) :
    ∃ rest t₂ s₂, way' = (t.pool, i) :: rest ∧ BranchMove True i rest t s w t₂ s₂ u ∧
      c = .fork t₂ (slots.set i s₂) next := by
  cases hc.of_fork with
  | turn hj hs' hmove' =>
      obtain rfl := hi.unique hs hmove.queued (hj trivial) hs' hmove'.queued
      rw [hs] at hs'
      cases hs'
      exact ⟨_, _, _, rfl, hmove', rfl⟩
  | read hreadable => exact ((hreadable trivial).not_turn hi hs hmove.queued).elim
  | abort hreadable => exact ((hreadable trivial).not_turn hi hs hmove.queued).elim
  | leave _ hended => exact (hmove.not_ended (hended _ (List.mem_of_getElem? hs))).elim

/-- **One move at most.** -/
theorem Move.determined (hb : Move True way a w b v) (hc : Move True way' a w c u) :
    way = way' ∧ b = c ∧ v = u := by
  induction hb generalizing way' c u with
  | act =>
      cases hc
      exact ⟨rfl, rfl, rfl⟩
  | wake =>
      cases hc
      exact ⟨rfl, rfl, rfl⟩
  | inside hturn hmove ih =>
      cases hc with
      | inside _ hmove' =>
          obtain ⟨rfl, rfl, rfl⟩ := ih hmove'
          exact ⟨rfl, rfl, rfl⟩
      | inTime => exact (not_move_done hmove).elim
      | late hrest => exact (hturn trivial rfl hrest).elim
  | inTime =>
      cases hc with
      | inside _ hmove' => exact (not_move_done hmove').elim
      | inTime => exact ⟨rfl, rfl, rfl⟩
      | late hrest => exact hrest.elim
  | late hrest =>
      cases hc with
      | inside hturn => exact (hturn trivial rfl hrest).elim
      | inTime => exact hrest.elim
      | late => exact ⟨rfl, rfl, rfl⟩
  | deal hturn hslot hdeal =>
      have hdealt := Tally.dealt_iff.mp hdeal
      have hmove : BranchMove True _ [] _ _ _ _ _ _ := .dealt hdealt
      obtain ⟨rest, t', s', rfl, hmove', rfl⟩ := hc.of_turn (hturn trivial) hslot hmove
      cases hmove' with
      | dealt hdealt' =>
          rw [Tally.dealt_iff.mpr hdealt'] at hdeal
          cases hdeal
          exact ⟨rfl, rfl, rfl⟩
      | works | finishes => cases hdeal
  | @branch _ i _ _ _ _ _ _ _ hturn hslot hmove ih =>
      obtain ⟨rest, t', s', rfl, hmove', rfl⟩ :=
        hc.of_turn (hturn trivial) hslot (BranchMove.works (i := i) hmove)
      cases hmove' with
      | dealt hdealt' => cases Tally.dealt_iff.mpr hdealt'
      | works hmove' =>
          obtain ⟨rfl, rfl, rfl⟩ := ih hmove'
          exact ⟨rfl, rfl, rfl⟩
      | finishes => exact (not_move_done hmove).elim
  | finish hturn hslot =>
      obtain ⟨rest, t', s', rfl, hmove', rfl⟩ :=
        hc.of_turn (hturn trivial) hslot BranchMove.finishes
      cases hmove' with
      | dealt hdealt' => cases Tally.dealt_iff.mpr hdealt'
      | works hmove' => exact (not_move_done hmove').elim
      | finishes => exact ⟨rfl, rfl, rfl⟩
  | read hturn harrivals hverdict =>
      cases hc.of_fork with
      | turn hturn' hslot' hmove' =>
          exact ((hturn trivial).not_turn (hturn' trivial) hslot' hmove'.queued).elim
      | read _ harrivals' hverdict' =>
          rw [harrivals] at harrivals'
          cases harrivals'
          rw [hverdict] at hverdict'
          cases hverdict'
          exact ⟨rfl, rfl, rfl⟩
      | abort _ harrivals' hverdict' =>
          rw [harrivals] at harrivals'
          cases harrivals'
          rw [hverdict] at hverdict'
          cases hverdict'
      | leave harrivals' =>
          rw [harrivals] at harrivals'
          cases harrivals'
  | abort hturn harrivals hverdict =>
      cases hc.of_fork with
      | turn hturn' hslot' hmove' =>
          exact ((hturn trivial).not_turn (hturn' trivial) hslot' hmove'.queued).elim
      | read _ harrivals' hverdict' =>
          rw [harrivals] at harrivals'
          cases harrivals'
          rw [hverdict] at hverdict'
          cases hverdict'
      | abort _ harrivals' hverdict' =>
          rw [harrivals] at harrivals'
          cases harrivals'
          rw [hverdict] at hverdict'
          cases hverdict'
          exact ⟨rfl, rfl, rfl⟩
      | leave harrivals' =>
          rw [harrivals] at harrivals'
          cases harrivals'
  | leave harrivals hended =>
      cases hc.of_fork with
      | turn _ hslot' hmove' => exact (hmove'.not_ended (hended _ (List.mem_of_getElem? hslot'))).elim
      | read _ harrivals' =>
          rw [harrivals] at harrivals'
          cases harrivals'
      | abort _ harrivals' =>
          rw [harrivals] at harrivals'
          cases harrivals'
      | leave => exact ⟨rfl, rfl, rfl⟩

/-- **Of two histories from one state**, in which no one else has a turn, one goes on with the other. -/
theorem Run.determined (hrun : Run True a w h b v) (hrun' : Run True a w g c u) (halone : Alone h)
    (halone' : Alone g) :
    (∃ r, g = h ++ r ∧ Run True b v r c u) ∨ ∃ r, h = g ++ r ∧ Run True c u r b v := by
  induction hrun generalizing g with
  | stop => exact Or.inl ⟨g, rfl, hrun'⟩
  | @own way a b c' w v u' h hmove hrun ih =>
      cases hrun' with
      | stop => exact Or.inr ⟨_, rfl, .own hmove hrun⟩
      | own hmove' hrest =>
          obtain ⟨rfl, rfl, rfl⟩ := hmove.determined hmove'
          rcases ih hrest (alone_cons.mp halone).2 (alone_cons.mp halone').2 with
            ⟨r, rfl, hlater⟩ | ⟨r, rfl, hlater⟩
          · exact Or.inl ⟨r, rfl, hlater⟩
          · exact Or.inr ⟨r, rfl, hlater⟩
      | other => exact ((alone_cons.mp halone').1 _ _ rfl).elim
      | tick hsettled => exact (hsettled.still.not_move hmove).elim
  | other => exact ((alone_cons.mp halone).1 _ _ rfl).elim
  | @tick a c' w u' h hsettled hrun ih =>
      cases hrun' with
      | stop => exact Or.inr ⟨_, rfl, .tick hsettled hrun⟩
      | own hmove' => exact (hsettled.still.not_move hmove').elim
      | other => exact ((alone_cons.mp halone').1 _ _ rfl).elim
      | tick _ hrest =>
          rcases ih hrest (alone_cons.mp halone).2 (alone_cons.mp halone').2 with
            ⟨r, rfl, hlater⟩ | ⟨r, rfl, hlater⟩
          · exact Or.inl ⟨r, rfl, hlater⟩
          · exact Or.inr ⟨r, rfl, hlater⟩

/-- What has ended alone goes on with nothing. -/
theorem Run.of_done_alone {o : Outcome} (hrun : Run ordered (.done o) w h c u) (halone : Alone h) :
    h = [] ∧ c = .done o ∧ u = w := by
  obtain ⟨rfl, hidle⟩ := hrun.of_done
  obtain rfl := hidle.alone halone
  cases hrun
  exact ⟨rfl, rfl, rfl⟩

/-- A history to the end is the longest one. -/
theorem Run.before_done {o : Outcome} (hend : Run True a w h (.done o) v) (halone : Alone h)
    (hrun : Run True a w g c u) (halone' : Alone g) :
    ∃ r, h = g ++ r ∧ Alone r ∧ Run True c u r (.done o) v := by
  rcases hend.determined hrun halone halone' with ⟨r, rfl, hlater⟩ | ⟨r, rfl, hlater⟩
  · obtain ⟨rfl, rfl, rfl⟩ := hlater.of_done_alone (alone_append.mp halone').2
    exact ⟨[], by simp, alone_nil, .stop⟩
  · exact ⟨r, rfl, (alone_append.mp halone).2, hlater⟩

/-! ### What can end, ends -/

@[simp] theorem ticks_replicate (k : Nat) : ticks (List.replicate k .tick) = k := by
  induction k with
  | zero => rfl
  | succ k ih => simp [List.replicate_succ, ih]

/-- What stands still and yet ends alone waits for time to pass. -/
theorem Still.settled_of_run {o : Outcome} (ha : Still a) (hrun : Run True a w h (.done o) v)
    (halone : Alone h) : Settled a := by
  cases hrun with
  | stop => exact (not_resting_done ha).elim
  | own hmove => exact (Still.not_move ha hmove).elim
  | other => exact ((alone_cons.mp halone).1 _ _ rfl).elim
  | tick hsettled => exact hsettled

/-- What waits for ever never ends. -/
theorem Settled.wakes {o : Outcome} (hb : Settled b) (hrun : Run True b w h (.done o) v)
    (halone : Alone h) : ∃ ms, wake? b = some ms := by
  cases hwake : wake? b with
  | some ms => exact ⟨ms, rfl⟩
  | none =>
      have hpause : Run True b w _ _ _ := hb.waits (k := ticks h + 1) (by simp [hwake, Ahead]) w
      obtain ⟨r, heq, _⟩ := hrun.before_done halone hpause (alone_ticks _)
      have hticks := congrArg ticks heq
      simp only [ticks_append, ticks_replicate] at hticks
      omega

/-- **What can come to its end alone, `run` carries there**, with one pause at most for each millisecond. -/
theorem run_of_alone {fuel : Nat} {o : Outcome} (hrun : Run True a w h (.done o) v)
    (halone : Alone h) (hfuel : ticks h ≤ fuel) : run fuel a w = some (o, v) := by
  induction fuel using Nat.strongRecOn generalizing a w h with
  | ind fuel ih =>
      obtain ⟨g, hinstant, hreached⟩ : ∃ g, Instant g ∧ Run True a w g _ _ :=
        (settle_reaches a w).run
      have hrests := settle_rests a w
      obtain ⟨r, rfl, halone', hlater⟩ := hrun.before_done halone hreached hinstant.1
      rcases hsettle : settle a false w with ⟨b, x⟩
      rw [hsettle] at hlater hrests
      rcases hrests with ⟨o', rfl⟩ | hstill
      · obtain ⟨_, heq, rfl⟩ := hlater.of_done_alone halone'
        cases heq
        exact run_done hsettle
      · have hb := Still.settled_of_run hstill hlater halone'
        obtain ⟨ms, hms⟩ := hb.wakes hlater halone'
        have hpos : 0 < ms := hb.ahead ms hms
        have hahead : ∀ j < ms, Ahead j (wake? b) := by
          intro j hj ms' hms'
          rw [hms, Option.some.injEq] at hms'
          omega
        have hpause : Run True b x _ _ _ := hb.waits hahead x
        obtain ⟨r', rfl, halone'', hrest⟩ := hlater.before_done halone' hpause (alone_ticks ms)
        simp only [ticks_append, ticks_replicate] at hfuel
        rw [run_still hsettle hstill, hb.not_spins, hms]
        cases fuel with
        | zero => omega
        | succ less => exact ih less (by omega) hrest halone'' (by omega)

end Activity

end Runsheet
