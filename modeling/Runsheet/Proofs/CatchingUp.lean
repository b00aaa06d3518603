import Runsheet.Proofs.Lockstep

/-!
# Catching up

What an activity does that is mirrored, the one does that mirrors it.  That one has to catch up before:
it makes moves that the other one does not make, until both do the same.

* `Pair.expose`, `Pair.settles` — it catches up with what has ended or waits;
* `Pair.back`, `Pair.along_back` — what the second activity does, the first one does;
* `Pair.ends_iff` — the two can end in the same ways.
-/

namespace Runsheet

namespace Activity

variable {pools fresh region later part : Pool → Prop} {own parts : Nat → Pool → Prop}
variable {way : Way} {w v u w' v' : World} {a b c a' b' : Activity} {i : Nat} {h : List Turn}

/-- An activity leads to another one and a world at once, with its own moves in any order. -/
inductive Leads : Activity → World → Activity → World → Prop
  | stay {a : Activity} {w : World} : Leads a w a w
  | go {way : Way} {a b c : Activity} {w v u : World} (hmove : Move False way a w b v)
      (hrest : Leads b v c u) : Leads a w c u

theorem Leads.trans (hl : Leads a w b v) (hr : Leads b v c u) : Leads a w c u := by
  induction hl with
  | stay => exact hr
  | go hmove _ ih => exact .go hmove (ih hr)

theorem Move.leads (hmove : Move False way a w b v) : Leads a w b v :=
  .go hmove .stay

theorem Leads.run (hleads : Leads a w b v) : ∃ h, Instant h ∧ Run False a w h b v := by
  induction hleads with
  | stay => exact ⟨[], ⟨alone_nil, rfl⟩, .stop⟩
  | @go way a b c w v u hmove _ ih =>
      obtain ⟨h, ⟨halone, hticks⟩, hrun⟩ := ih
      exact ⟨.own way w v :: h, ⟨alone_cons.mpr ⟨by simp, halone⟩, hticks⟩, .own hmove hrun⟩

theorem Leads.within {left : Nat} {next : Option Outcome → Activity} (hleads : Leads a w b v) :
    Leads (.within left a next) w (.within left b next) v := by
  induction hleads with
  | stay => exact .stay
  | go hmove _ ih => exact .go (.inside nofun hmove) ih

theorem Leads.branch {t : Tally} {slots : List (Slot Activity)} {next : Reading → Activity}
    (hleads : Leads a w b v) (hslot : slots[i]? = some (.running a)) :
    Leads (.fork t slots next) w (.fork t (slots.set i (.running b)) next) v := by
  induction hleads generalizing slots with
  | stay =>
      rw [set_self hslot]
      exact .stay
  | @go way a b c w v u hmove _ ih =>
      have hlt := (List.getElem?_eq_some_iff.mp hslot).1
      have hself : (slots.set i (.running b))[i]? = some (.running b) := List.getElem?_set_self hlt
      have hrest := ih hself
      rw [List.set_set] at hrest
      exact .go (.branch nofun hslot hmove) hrest

/-- The first split catches up with the second one, branch after branch. -/
theorem Branches.settles {t : Tally} {slots slots' : List (Slot Activity)}
    {next next' : Reading → Activity}
    (hall : Branches pools fresh region later own parts t.pool slots slots' next next')
    (hready : Ready pools fresh w) (hlike : Like pools w v)
    (heach : ∀ i a b u, slots[i]? = some (.running a) → slots'[i]? = some (.running b) →
      Like pools u v → Ready pools (own i) u → ∃ a' w', Leads a u a' w' ∧
        After pools (own i) (parts i) u a' w' b v ∧ Settled a') (k : Nat) :
    ∃ now w', Leads (.fork t slots next) w (.fork t now next) w' ∧ Abreast now slots' ∧
      Like pools w' v ∧ Keeps pools (fun p => ∃ i, i < k ∧ parts i p) w w' ∧
      (∀ (i : Nat) (s s' : Slot Activity) (a b : Activity), i < k → now[i]? = some s →
        slots'[i]? = some s' → s.body? = some a → s'.body? = some b →
        Mirrors pools (Unspent (own i) w') (parts i) a b) ∧
      (∀ (i : Nat) (a : Activity), i < k → now[i]? = some (.running a) → Settled a) ∧
      ∀ i, k ≤ i → now[i]? = slots[i]? := by
  induction k with
  | zero =>
      exact ⟨slots, w, .stay, hall.abreast, hlike, .refl w,
        fun i s s' a b hi => (Nat.not_lt_zero i hi).elim, fun i a hi => (Nat.not_lt_zero i hi).elim,
        fun _ _ => rfl⟩
  | succ k ih =>
      obtain ⟨now, u, hleads, habreast, hlike', hkeeps, hmirrors, hsettled, hsame⟩ := ih
      have hslot : now[k]? = slots[k]? := hsame k (Nat.le_refl k)
      have haside : Keeps pools (fun p => ∃ i, i ≠ k ∧ parts i p) w u :=
        hkeeps.mono fun p ⟨i, hi, hp⟩ => ⟨i, by omega, hp⟩
      have hfresh : Ready pools (own k) u := fun p hp =>
        ⟨(hready p (hall.owns k p hp).1).1, (hall.aside hready haside hp).2⟩
      by_cases hruns : ∃ a, slots[k]? = some (.running a)
      · obtain ⟨a, ha⟩ := hruns
        obtain ⟨s', hslot', hshape⟩ := hall.abreast.get ha
        obtain ⟨b, rfl⟩ := shape_running hshape
        obtain ⟨a', w', hgoes, hafter, ha'⟩ := heach k a b u ha hslot' hlike' hfresh
        rw [ha] at hslot
        have hlt : k < now.length := (List.getElem?_eq_some_iff.mp hslot).1
        refine ⟨now.set k (.running a'), w', hleads.trans (hgoes.branch hslot), ?_, hafter.like, ?_, ?_,
          ?_, ?_⟩
        · have hset : Abreast (now.set k (.running a')) (slots'.set k (.running b)) := habreast.set rfl
          rwa [set_self hslot'] at hset
        · exact (hkeeps.mono fun p ⟨i, hi, hp⟩ => ⟨i, by omega, hp⟩).trans
            (hafter.keeps.mono fun p hp => ⟨k, by omega, hp⟩)
        · intro i s s' a₁ b₁ hi hs hs' hbody hbody'
          by_cases hik : i = k
          · subst hik
            rw [List.getElem?_set_self hlt] at hs
            rw [hslot'] at hs'
            cases hs
            cases hs'
            cases hbody
            cases hbody'
            exact hafter.mirrors
          · rw [List.getElem?_set_ne (Ne.symm hik)] at hs
            refine (hmirrors i s s' a₁ b₁ (by omega) hs hs' hbody hbody').mono (fun p hp => ⟨hp.1, ?_⟩)
              fun _ hp => hp
            have hother : ¬ parts k p := fun hk => hik (hall.apart i k p (hall.owns i p hp.1).2 hk)
            exact (hafter.keeps p (hready p (hall.owns i p hp.1).1).1 hother).trans hp.2
        · intro i a₁ hi hs
          by_cases hik : i = k
          · subst hik
            rw [List.getElem?_set_self hlt] at hs
            cases hs
            exact ha'
          · rw [List.getElem?_set_ne (Ne.symm hik)] at hs
            exact hsettled i a₁ (by omega) hs
        · intro i hi
          rw [List.getElem?_set_ne (by omega)]
          exact hsame i (by omega)
      · refine ⟨now, u, hleads, habreast, hlike', hkeeps.mono fun p ⟨i, hi, hp⟩ => ⟨i, by omega, hp⟩, ?_,
          ?_, fun i hi => hsame i (by omega)⟩
        · intro i s s' a₁ b₁ hi hs hs' hbody hbody'
          by_cases hik : i = k
          · subst hik
            rw [hslot] at hs
            exact (hall.each i s s' a₁ b₁ hs hs' hbody hbody').unspent hfresh
          · exact hmirrors i s s' a₁ b₁ (by omega) hs hs' hbody hbody'
        · intro i a₁ hi hs
          by_cases hik : i = k
          · subst hik
            rw [hslot] at hs
            exact (hruns ⟨a₁, hs⟩).elim
          · exact hsettled i a₁ (by omega) hs

/-- **The first activity catches up** with one that waits for time to pass. -/
theorem Pair.settles (hpair : Pair pools fresh region a w b v) (hb : Settled b) :
    ∃ a' w', Leads a w a' w' ∧ After pools fresh region w a' w' b v ∧ Settled a' := by
  obtain ⟨hmirrors, hlike, hready, hopen⟩ := hpair
  induction hmirrors generalizing w with
  | done | act | never => exact hb.elim
  | @silent fresh region later part f next b hf hpart hlater _ ih =>
      obtain ⟨hsame, hkeeps⟩ := hf w
      obtain ⟨a', w', hleads, hafter, hsettled⟩ := ih w hready hb (hsame.symm.trans hlike)
        (hready.keeps hkeeps hlater)
      exact ⟨a', w', .go .act hleads, .trans hkeeps hpart (fun p hp => (hlater p hp).1) hafter,
        hsettled⟩
  | sleep hnext =>
      exact ⟨_, w, .stay, .next hready hlike hopen (fun _ hp => hp) (.sleep hnext), hb⟩
  | within hown hpart hlater _ hnext ih _ =>
      obtain ⟨hleft, hbody⟩ := settled_within.mp hb
      obtain ⟨a', w', hleads, hafter, hsettled⟩ := ih hbody hlike (hready.mono hown)
      exact ⟨_, w', hleads.within, .within hready hown hpart hlater hnext hafter,
        settled_within.mpr ⟨hleft, hsettled⟩⟩
  | @fork fresh region later own parts t slots slots' next next' hpool hown hparts hapart hlater
      habreast hslots hnext ih _ =>
      obtain ⟨hcalm, harrivals, hserved, hwaits⟩ := hb
      have hall : Branches pools fresh region later own parts t.pool slots slots' next next' :=
        ⟨hpool, hown, hparts, hapart, hlater, habreast, hslots, hnext⟩
      obtain ⟨now, w', hleads, hnow, hlike', hkeeps, hmirrors, hsettled, hsame⟩ :=
        hall.settles hready hlike (fun i a b u ha hb hu hfresh =>
          ih i _ _ a b ha hb rfl rfl (hcalm.calm hb) hu hfresh) slots.length
      have hkeeps' : Keeps pools (fun p => ∃ i, parts i p) w w' :=
        hkeeps.mono fun p ⟨i, _, hp⟩ => ⟨i, hp⟩
      have hlength : now.length = slots.length := by
        have hl : now.length = slots'.length := by simpa using congrArg List.length hnow
        have hr : slots.length = slots'.length := by simpa using congrArg List.length habreast
        omega
      have hmoved := hall.moved hready hkeeps' hnow fun i s s' a b hs =>
        hmirrors i s s' a b (by have := (List.getElem?_eq_some_iff.mp hs).1; omega) hs
      refine ⟨_, w', hleads, ⟨hmoved.mirrors rfl, hlike', hkeeps'.mono fun p ⟨i, hp⟩ => hparts i p hp,
        hopen⟩, ?_, harrivals, hnow.symm.served hserved, hnow.symm.not_ended hwaits⟩
      refine hcalm.abreast hnow.symm fun i b a _ ha _ => ?_
      exact hsettled i a (by have := (List.getElem?_eq_some_iff.mp ha).1; omega) ha

end Activity

end Runsheet
