import Runsheet.Proofs.Determinism
import Runsheet.Proofs.Mirroring

/-!
# In lockstep

An activity and what it mirrors keep in lockstep, in whatever order branches take turns.  A move of the
first one is one of the second one, or is seen nowhere.

* `Branches.turned` — two splits after a turn of a branch of each;
* `Pair.move`, `Pair.along` — what the first one does, the second one does;
* `Pair.settle`, `Pair.run` — both get equally far in turn, and come to the same end or to none.
-/

namespace Runsheet

namespace Activity

variable {pools fresh region later part : Pool → Prop} {own parts : Nat → Pool → Prop}
variable {ordered : Prop} {way : Way} {w v u x w' v' : World} {a b c a' b' : Activity} {i : Nat}
variable {h g : List Turn}

/-- An activity mirrors another one, in worlds that are like each other: the fresh pools are open in the
first one, and all the pools in the second one. -/
structure Pair (pools fresh region : Pool → Prop) (a : Activity) (w : World) (b : Activity)
    (v : World) : Prop where
  mirrors : Mirrors pools fresh region a b
  like : Like pools w v
  ready : Ready pools fresh w
  unclosed : Unclosed pools v

/-- The two have gone on: the first one may have closed pools of the region. -/
structure After (pools fresh region : Pool → Prop) (w : World) (a' : Activity) (w' : World)
    (b' : Activity) (v' : World) : Prop where
  mirrors : Mirrors pools (Unspent fresh w') region a' b'
  like : Like pools w' v'
  keeps : Keeps pools region w w'
  unclosed : Unclosed pools v'

theorem After.pair (hafter : After pools fresh region w a' w' b' v') (hready : Ready pools fresh w) :
    Pair pools (Unspent fresh w') region a' w' b' v' :=
  ⟨hafter.mirrors, hafter.like, hready.of_unspent w', hafter.unclosed⟩

/-- What goes on after others, of which each leaves the region its pools, has gone on from the beginning. -/
theorem After.trans (hl : Keeps pools part w u) (hpart : ∀ p, part p → region p)
    (hlater : ∀ p, later p → fresh p) (hr : After pools later region u a' w' b' v') :
    After pools fresh region w a' w' b' v' where
  mirrors := hr.mirrors.mono (fun p hp => ⟨hlater p hp.1, hp.2⟩) fun _ hp => hp
  like := hr.like
  keeps := (hl.mono hpart).trans hr.keeps
  unclosed := hr.unclosed

/-- What follows is mirrored if it comes next. -/
theorem After.next (hready : Ready pools fresh w) (hlike : Like pools w v) (hopen : Unclosed pools v)
    (hlater : ∀ p, later p → fresh p) (hmirrors : Mirrors pools later region a b) :
    After pools fresh region w a w b v :=
  ⟨hmirrors.mono (fun p hp => ⟨hlater p hp, (hready p (hlater p hp)).2⟩) fun _ hp => hp, hlike,
    .refl w, hopen⟩

/-! ### Parts -/

/-- Work under a limit after the work has gone on. -/
theorem After.within {mine : Pool → Prop} {left : Nat} {next next' : Option Outcome → Activity}
    (hready : Ready pools fresh w) (hmine : ∀ p, mine p → fresh p) (hpart : ∀ p, part p → region p)
    (hlater : ∀ p, later p → fresh p ∧ ¬ part p)
    (hnext : ∀ o, Mirrors pools later region (next o) (next' o))
    (hafter : After pools mine part w a' w' b' v') :
    After pools fresh region w (.within left a' next) w' (.within left b' next') v' := by
  refine ⟨.within (fun p (hp : Unspent mine w' p) => ⟨hmine p hp.1, hp.2⟩) hpart (fun p hp => ?_)
    hafter.mirrors hnext, hafter.like, hafter.keeps.mono hpart, hafter.unclosed⟩
  exact ⟨hready.unspent hafter.keeps (hlater p hp).1 (hlater p hp).2, (hlater p hp).2⟩

/-- What the branches of two splits have to do with each other, and what follows them. -/
structure Branches (pools fresh region later : Pool → Prop) (own parts : Nat → Pool → Prop)
    (pool : Pool) (slots slots' : List (Slot Activity)) (next next' : Reading → Activity) : Prop where
  spare : pools pool → fresh pool ∧ ∀ i, ¬ parts i pool
  owns (i : Nat) (p : Pool) : own i p → fresh p ∧ parts i p
  covers (i : Nat) (p : Pool) : parts i p → region p
  apart (i j : Nat) (p : Pool) : parts i p → parts j p → i = j
  leaves (p : Pool) : later p → fresh p ∧ ∀ i, ¬ parts i p
  abreast : Abreast slots slots'
  each (i : Nat) (s s' : Slot Activity) (a b : Activity) : slots[i]? = some s →
    slots'[i]? = some s' → s.body? = some a → s'.body? = some b → Mirrors pools (own i) (parts i) a b
  goesOn (r : Reading) : Mirrors pools later region (next r) (next' r)

section

variable {t t' : Tally} {pool : Pool} {slots slots' : List (Slot Activity)}
variable {next next' : Reading → Activity} {s s' : Slot Activity}

theorem Mirrors.branches (hmirrors : Mirrors pools fresh region (.fork t slots next) b) :
    ∃ slots' next', b = .fork t slots' next' ∧ ∃ later own parts,
      Branches pools fresh region later own parts t.pool slots slots' next next' := by
  cases hmirrors with
  | fork hpool hown hparts hapart hlater habreast hslots hnext =>
      exact ⟨_, _, rfl, _, _, _, hpool, hown, hparts, hapart, hlater, habreast, hslots, hnext⟩

theorem Branches.mirrors
    (hall : Branches pools fresh region later own parts pool slots slots' next next')
    (hpool : t.pool = pool) :
    Mirrors pools fresh region (.fork t slots next) (.fork t slots' next') := by
  subst hpool
  exact .fork hall.spare hall.owns hall.covers hall.apart hall.leaves hall.abreast hall.each hall.goesOn

/-- Two splits whose branches have gone on. -/
theorem Branches.moved {now now' : List (Slot Activity)}
    (hall : Branches pools fresh region later own parts pool slots slots' next next')
    (hready : Ready pools fresh w) (hkeeps : Keeps pools (fun p => ∃ i, parts i p) w w')
    (habreast : Abreast now now') (heach : ∀ (i : Nat) (s s' : Slot Activity) (a b : Activity),
      now[i]? = some s → now'[i]? = some s' → s.body? = some a → s'.body? = some b →
      Mirrors pools (Unspent (own i) w') (parts i) a b) :
    Branches pools (Unspent fresh w') region later (fun i => Unspent (own i) w') parts pool now now'
      next next' where
  spare hp := ⟨hready.unspent hkeeps (hall.spare hp).1 fun ⟨i, hi⟩ => (hall.spare hp).2 i hi,
    (hall.spare hp).2⟩
  owns i p hp := ⟨⟨(hall.owns i p hp.1).1, hp.2⟩, (hall.owns i p hp.1).2⟩
  covers := hall.covers
  apart := hall.apart
  leaves p hp := ⟨hready.unspent hkeeps (hall.leaves p hp).1 fun ⟨i, hi⟩ => (hall.leaves p hp).2 i hi,
    (hall.leaves p hp).2⟩
  abreast := habreast
  each := heach
  goesOn := hall.goesOn

/-- A branch still has its pools after another one has gone on. -/
theorem Branches.aside {j : Nat}
    (hall : Branches pools fresh region later own parts pool slots slots' next next')
    (hready : Ready pools fresh w) (hkeeps : Keeps pools (fun p => ∃ i, i ≠ j ∧ parts i p) w w') {p : Pool}
    (hp : own j p) : Unspent (own j) w' p := by
  refine ⟨hp, (hready.unspent hkeeps (hall.owns j p hp).1 ?_).2⟩
  rintro ⟨i, hne, hi⟩
  exact hne (hall.apart i j p hi (hall.owns j p hp).2)

/-- **Two splits after a turn** of a branch of each: the others still have their pools. -/
theorem Branches.turned
    (hall : Branches pools fresh region later own parts pool slots slots' next next')
    (hready : Ready pools fresh w) (hkeeps : Keeps pools (parts i) w w') (hshape : s'.shape = s.shape)
    (hbody : ∀ a b, s.body? = some a → s'.body? = some b →
      Mirrors pools (Unspent (own i) w') (parts i) a b) :
    Branches pools (Unspent fresh w') region later (fun j => Unspent (own j) w') parts pool
      (slots.set i s) (slots'.set i s') next next' := by
  refine hall.moved hready (hkeeps.mono fun p hp => ⟨i, hp⟩) (hall.abreast.set hshape)
    fun j s₁ s₁' a b hslot hslot' ha hb => ?_
  by_cases hj : j = i
  · subst hj
    have hlt := (List.getElem?_eq_some_iff.mp hslot).1
    have hlt' := (List.getElem?_eq_some_iff.mp hslot').1
    rw [List.length_set] at hlt hlt'
    rw [List.getElem?_set_self hlt, Option.some.injEq] at hslot
    rw [List.getElem?_set_self hlt', Option.some.injEq] at hslot'
    subst hslot hslot'
    exact hbody a b ha hb
  · rw [List.getElem?_set_ne (Ne.symm hj)] at hslot hslot'
    have haside : Keeps pools (fun p => ∃ k, k ≠ j ∧ parts k p) w w' :=
      hkeeps.mono fun p hp => ⟨i, Ne.symm hj, hp⟩
    exact (hall.each j s₁ s₁' a b hslot hslot' ha hb).mono (fun p hp => hall.aside hready haside hp)
      fun _ hp => hp

/-- Both splits find their pool open or closed alike. -/
theorem Branches.closed
    (hall : Branches pools fresh region later own parts pool slots slots' next next')
    (hpair : Pair pools fresh region a w b v) : v.isClosed pool = w.isClosed pool := by
  by_cases hpool : pools pool
  · rw [hpair.unclosed pool hpool, (hpair.ready pool (hall.spare hpool).1).2]
  · exact hpair.like.closed hpool

/-- A branch and its counterpart. -/
theorem Branches.pair
    (hall : Branches pools fresh region later own parts pool slots slots' next next')
    (hpair : Pair pools fresh region a w b v) (hslot : slots[i]? = some s) (hslot' : slots'[i]? = some s')
    (hs : s.body? = some a') (hs' : s'.body? = some b') :
    Pair pools (own i) (parts i) a' w b' v where
  mirrors := hall.each i s s' a' b' hslot hslot' hs hs'
  like := hpair.like
  ready := hpair.ready.mono fun p hp => (hall.owns i p hp).1
  unclosed := hpair.unclosed

/-- **Both splits after a branch has worked** in each. -/
theorem Branches.worked
    (hall : Branches pools fresh region later own parts t.pool slots slots' next next')
    (hready : Ready pools fresh w) (hafter : After pools (own i) (parts i) w a' w' b' v') :
    After pools fresh region w (.fork t (slots.set i (.running a')) next) w'
      (.fork t (slots'.set i (.running b')) next') v' := by
  have hturned : Branches pools (Unspent fresh w') region later (fun j => Unspent (own j) w') parts
      t.pool (slots.set i (.running a')) (slots'.set i (.running b')) next next' := by
    refine hall.turned hready hafter.keeps rfl fun a b ha hb => ?_
    cases ha
    cases hb
    exact hafter.mirrors
  exact ⟨hturned.mirrors rfl, hafter.like, hafter.keeps.mono (hall.covers i), hafter.unclosed⟩

/-- **Both splits after a turn in which nothing is changed** by a branch. -/
theorem Branches.passed
    (hall : Branches pools fresh region later own parts t.pool slots slots' next next')
    (hpair : Pair pools fresh region a w b v) (hpool : t'.pool = t.pool) (hshape : s'.shape = s.shape)
    (hbody : ∀ a b, s.body? = some a → s'.body? = some b → Mirrors pools (own i) (parts i) a b) :
    After pools fresh region w (.fork t' (slots.set i s) next) w (.fork t' (slots'.set i s') next')
      v := by
  have hown : Ready pools (own i) w := hpair.ready.mono fun p hp => (hall.owns i p hp).1
  have hturned := hall.turned hpair.ready (.refl w) hshape fun a b ha hb =>
    (hbody a b ha hb).unspent hown
  exact ⟨hturned.mirrors hpool, hpair.like, .refl w, hpair.unclosed⟩

end

/-! ### Forward -/

/-- What the first activity does in a move, seen from the second one: nothing, or a move of its own, before
which it waits with its own hands only if the first one does. -/
inductive Follows (ordered : Prop) (pools fresh region : Pool → Prop) (way : Way) (a : Activity)
    (w : World) (b : Activity) (v : World) (a' : Activity) (w' : World) : Prop
  | stays (hafter : After pools fresh region w a' w' b v) :
      Follows ordered pools fresh region way a w b v a' w'
  | moves {b' : Activity} {v' : World} (hmove : Move ordered way b v b' v')
      (hrest : AtRest b → AtRest a) (hafter : After pools fresh region w a' w' b' v') :
      Follows ordered pools fresh region way a w b v a' w'

/-- It is the turn of the same branch in both splits. -/
theorem InTurn.mirrored {t : Tally} {slots slots' : List (Slot Activity)} (hturn : InTurn t slots i)
    (habreast : Abreast slots slots')
    (heach : ∀ (i : Nat) (a b : Activity), slots[i]? = some (.running a) →
      slots'[i]? = some (.running b) → Still a → Still b) : InTurn t slots' i := by
  have hbefore := hturn.1.abreast (habreast.take i) fun j a b hj hj' => by
    rw [List.getElem?_take] at hj hj'
    split at hj
    next hlt =>
      rw [if_pos hlt] at hj'
      exact heach j a b hj hj'
    next => cases hj
  refine ⟨hbefore, fun body hslot => ?_⟩
  obtain ⟨s, hslot', hshape⟩ := habreast.symm.get hslot
  obtain ⟨body', rfl⟩ := shape_queued hshape
  obtain ⟨hall, hfirst, hfree⟩ := hturn.2 body' hslot'
  exact ⟨hall.abreast habreast heach, hfirst, hfree⟩

theorem Branches.still
    {pool : Pool} {slots slots' : List (Slot Activity)} {next next' : Reading → Activity}
    (hall : Branches pools fresh region later own parts pool slots slots' next next') (i : Nat)
    (a b : Activity) (ha : slots[i]? = some (.running a)) (hb : slots'[i]? = some (.running b))
    (hstill : Still a) : Still b :=
  ((hall.each i _ _ a b ha hb rfl rfl).resting hstill).1

/-- Both splits can be read at the same time. -/
theorem Readable.mirrored {t : Tally} {slots slots' : List (Slot Activity)}
    {next next' : Reading → Activity} (hreadable : Readable t slots)
    (hall : Branches pools fresh region later own parts t.pool slots slots' next next') :
    Readable t slots' :=
  ⟨hreadable.1.abreast hall.abreast hall.still, hall.abreast.served hreadable.2⟩

/-- **A move of the first activity** is a move of the second one or is seen nowhere. -/
theorem Pair.move (hpair : Pair pools fresh region a w b v) (hmove : Move ordered way a w a' w') :
    Follows ordered pools fresh region way a w b v a' w' := by
  induction hmove generalizing fresh region b v with
  | @act f next w =>
      obtain ⟨hmirrors, hlike, hready, hopen⟩ := hpair
      cases hmirrors with
      | silent hf hpart hlater hnext =>
          obtain ⟨hsame, hkeeps⟩ := hf w
          refine .stays ⟨(hnext w hready).mono (fun p hp => ?_) fun _ hp => hp, hsame.symm.trans hlike,
            hkeeps.mono hpart, hopen⟩
          exact hready.unspent hkeeps (hlater p hp).1 (hlater p hp).2
      | act hf hkeeps hkeeps' hnext =>
          refine .moves .act id ⟨(hnext w v hlike).mono (fun p hp => ?_) fun _ hp => hp,
            hf w v hlike, (hkeeps w).mono fun _ hp => hp.elim, hopen.keeps (hkeeps' v)⟩
          exact hready.unspent (hkeeps w) hp id
  | wake =>
      obtain ⟨hmirrors, hlike, hready, hopen⟩ := hpair
      cases hmirrors with
      | sleep hnext =>
          exact .moves .wake id (.next hready hlike hopen (fun _ hp => hp) (hnext _ _ hlike))
  | @inside way left a a' next w w' hturn _ ih =>
      obtain ⟨hmirrors, hlike, hready, hopen⟩ := hpair
      cases hmirrors with
      | within hown hpart hlater hbody hnext =>
          have hfollows := ih ⟨hbody, hlike, hready.mono hown, hopen⟩
          cases hfollows with
          | stays hafter => exact .stays (.within hready hown hpart hlater hnext hafter)
          | moves hmove hrest hafter =>
              refine .moves (.inside (fun hordered hleft hb => hturn hordered hleft (hrest hb)) hmove)
                (fun hb => ⟨hb.1, hrest hb.2⟩) (.within hready hown hpart hlater hnext hafter)
  | @inTime left o next w =>
      obtain ⟨hmirrors, hlike, hready, hopen⟩ := hpair
      cases hmirrors with
      | within hown hpart hlater hbody hnext =>
          obtain rfl := hbody.of_done
          exact .moves .inTime (fun hb => hb.2.elim)
            (.next hready hlike hopen (fun p hp => (hlater p hp).1) (hnext _))
  | late hrest =>
      obtain ⟨hmirrors, hlike, hready, hopen⟩ := hpair
      cases hmirrors with
      | within hown hpart hlater hbody hnext =>
          exact .moves (.late (hbody.atRest hrest)) (fun hb => (hb.1 rfl).elim)
            (.next hready hlike hopen (fun p hp => (hlater p hp).1) (hnext none))
  | @deal i t t' slots s s' next w hturn hslot hdeal =>
      obtain ⟨slots', next', rfl, later, own, parts, hall⟩ := hpair.mirrors.branches
      obtain ⟨s₁, hslot', hshape⟩ := hall.abreast.get hslot
      have hclosed := hall.closed hpair
      have hdealt := Tally.dealt_iff.mp hdeal
      obtain ⟨s₁', hdealt', hshape'⟩ := hdealt.abreast hshape
      rw [← hclosed] at hdealt'
      refine .moves (.deal (fun hordered => (hturn hordered).mirrored hall.abreast hall.still) hslot'
        (Tally.dealt_iff.mpr hdealt')) (fun hb => ⟨hb.1, hall.abreast.symm.not_ended hb.2⟩)
        (hall.passed hpair hdealt.pool hshape' fun a b ha hb => ?_)
      exact hall.each i s s₁ a b hslot hslot' (hdealt.body ha) (hdealt'.body hb)
  | @branch way i t slots a a' next w w' hturn hslot _ ih =>
      obtain ⟨slots', next', rfl, later, own, parts, hall⟩ := hpair.mirrors.branches
      obtain ⟨s', hslot', hshape⟩ := hall.abreast.get hslot
      obtain ⟨b, rfl⟩ := shape_running hshape
      have hfollows := ih (hall.pair hpair hslot hslot' rfl rfl)
      cases hfollows with
      | stays hafter =>
          have hworked := hall.worked hpair.ready hafter
          rw [set_self hslot'] at hworked
          exact .stays hworked
      | moves hmove _ hafter =>
          exact .moves (.branch (fun hordered => (hturn hordered).mirrored hall.abreast hall.still) hslot'
            hmove) (fun hb => ⟨hb.1, hall.abreast.symm.not_ended hb.2⟩)
            (hall.worked hpair.ready hafter)
  | @finish i t slots o next w hturn hslot =>
      obtain ⟨slots', next', rfl, later, own, parts, hall⟩ := hpair.mirrors.branches
      obtain ⟨s', hslot', hshape⟩ := hall.abreast.get hslot
      obtain ⟨b, rfl⟩ := shape_running hshape
      obtain rfl := (hall.each i _ _ _ b hslot hslot' rfl rfl).of_done
      exact .moves (.finish (fun hordered => (hturn hordered).mirrored hall.abreast hall.still) hslot')
        (fun hb => ⟨hb.1, hall.abreast.symm.not_ended hb.2⟩)
        (hall.passed hpair rfl rfl fun a b ha => by cases ha)
  | @read t slots arrival rest reports next w hturn harrivals hverdict =>
      obtain ⟨slots', next', rfl, later, own, parts, hall⟩ := hpair.mirrors.branches
      exact .moves (.read (fun hordered => (hturn hordered).mirrored hall) harrivals hverdict)
        (fun hb => ⟨hb.1, hall.abreast.symm.not_ended hb.2⟩)
        (.next hpair.ready hpair.like hpair.unclosed (fun _ hp => hp) (hall.mirrors rfl))
  | @abort t slots arrival rest fault next w hturn harrivals hverdict =>
      obtain ⟨slots', next', rfl, later, own, parts, hall⟩ := hpair.mirrors.branches
      exact .moves (.abort (fun hordered => (hturn hordered).mirrored hall) harrivals hverdict)
        (fun hb => ⟨hb.1, hall.abreast.symm.not_ended hb.2⟩)
        (.next hpair.ready hpair.like hpair.unclosed (fun p hp => (hall.leaves p hp).1)
          (hall.goesOn _))
  | @leave t slots next w harrivals hended =>
      obtain ⟨slots', next', rfl, later, own, parts, hall⟩ := hpair.mirrors.branches
      exact .moves (.leave harrivals (hall.abreast.all_ended hended))
        (fun hb => ⟨hb.1, hall.abreast.symm.not_ended hb.2⟩)
        (.next hpair.ready hpair.like hpair.unclosed (fun p hp => (hall.leaves p hp).1)
          (hall.goesOn _))

/-- Time passes for both. -/
theorem Pair.tick (hpair : Pair pools fresh region a w b v) (ha : Settled a) (ms : Nat) :
    Pair pools fresh region (a.elapse ms) (w.wait ms) (b.elapse ms) (v.wait ms) :=
  ⟨hpair.mirrors.elapse ha ms, hpair.like.wait ms, hpair.ready, hpair.unclosed⟩

/-- **What the first activity does alone, the second one does**, and it takes as long. -/
theorem Pair.along (hpair : Pair pools fresh region a w b v) (hrun : Run ordered a w h a' w')
    (halone : Alone h) : ∃ g b' v' later, Alone g ∧ ticks g = ticks h ∧ Run ordered b v g b' v' ∧
      Pair pools later region a' w' b' v' := by
  induction hrun generalizing fresh b v with
  | stop => exact ⟨[], b, v, fresh, alone_nil, rfl, .stop, hpair⟩
  | own hmove _ ih =>
      have hlater := (alone_cons.mp halone).2
      cases hpair.move hmove with
      | stays hafter => exact ih (hafter.pair hpair.ready) hlater
      | moves hmove' _ hafter =>
          obtain ⟨g, b', v', later, halone', hticks, hrun, hend⟩ :=
            ih (hafter.pair hpair.ready) hlater
          exact ⟨_, b', v', later, alone_cons.mpr ⟨by simp, halone'⟩, by simpa using hticks,
            .own hmove' hrun, hend⟩
  | other => exact ((alone_cons.mp halone).1 _ _ rfl).elim
  | tick hsettled _ ih =>
      obtain ⟨g, b', v', later, halone', hticks, hrun, hend⟩ :=
        ih (hpair.tick hsettled 1) (alone_cons.mp halone).2
      exact ⟨.tick :: g, b', v', later, alone_cons.mpr ⟨by simp, halone'⟩, by simp [hticks],
        .tick (hpair.mirrors.resting hsettled).1 hrun, hend⟩

/-! ### In turn -/

/-- What rests has no turn of its own before time passes. -/
theorem Rests.no_turn (ha : Rests a) (hrun : Run True a w h b v) (halone : Alone h)
    (hticks : ticks h = 0) : b = a ∧ v = w := by
  cases hrun with
  | stop => exact ⟨rfl, rfl⟩
  | own hmove =>
      rcases ha with ⟨o, rfl⟩ | ha
      · exact (not_move_done hmove).elim
      · exact (ha.not_move hmove).elim
  | other => exact ((alone_cons.mp halone).1 _ _ rfl).elim
  | tick => simp at hticks

/-- **Both get equally far** in turn. -/
theorem Pair.settle (hpair : Pair pools fresh region a w b v) : ∃ later,
    Pair pools later region (Activity.settle a false w).1 (Activity.settle a false w).2
      (Activity.settle b false v).1 (Activity.settle b false v).2 := by
  obtain ⟨h, ⟨halone, hticks⟩, hrun⟩ : ∃ h, Instant h ∧ Run True a w h _ _ := (settle_reaches a w).run
  obtain ⟨g, b', v', later, halone', hticks', hrun', hend⟩ := hpair.along hrun halone
  obtain ⟨r, ⟨halone'', hticks''⟩, hreached⟩ : ∃ h, Instant h ∧ Run True b v h _ _ :=
    (settle_reaches b v).run
  have hrests := hend.mirrors.rests (settle_rests a w)
  have hsame : (Activity.settle b false v).1 = b' ∧ (Activity.settle b false v).2 = v' := by
    rcases hrun'.determined hreached halone' halone'' with ⟨d, rfl, hrest⟩ | ⟨d, rfl, hrest⟩
    · rw [ticks_append] at hticks''
      exact hrests.no_turn hrest (alone_append.mp halone'').2 (by omega)
    · rw [ticks_append] at hticks'
      obtain ⟨heq, heq'⟩ := (settle_rests b v).no_turn hrest (alone_append.mp halone').2 (by omega)
      exact ⟨heq.symm, heq'.symm⟩
  refine ⟨later, ?_⟩
  rw [hsame.1, hsame.2]
  exact hend

/-- **To the same end**: an activity and what it mirrors, with their parts in turn, end with the same
outcome in worlds that are like each other, or come to no end. -/
theorem Pair.run (hpair : Pair pools fresh region a w b v) (fuel : Nat) :
    (Activity.run fuel a w = none ∧ Activity.run fuel b v = none) ∨
      ∃ o u x, Activity.run fuel a w = some (o, u) ∧ Activity.run fuel b v = some (o, x) ∧
        Like pools u x := by
  induction fuel using Nat.strongRecOn generalizing fresh a b w v with
  | ind fuel ih =>
      obtain ⟨later, hend⟩ := hpair.settle
      have hrests := settle_rests a w
      rcases hl : Activity.settle a false w with ⟨a', u⟩
      rcases hr : Activity.settle b false v with ⟨b', x⟩
      rw [hl, hr] at hend
      rw [hl] at hrests
      rcases hrests with ⟨o, rfl⟩ | hstill
      · obtain rfl := hend.mirrors.of_done
        exact .inr ⟨o, u, x, run_done hl, run_done hr, hend.like⟩
      · rw [run_still hl hstill, run_still hr (hend.mirrors.resting hstill).1,
          ← hend.mirrors.spins hstill, ← hend.mirrors.wake hstill]
        cases hspins : spins a' with
        | true => exact .inl ⟨rfl, rfl⟩
        | false =>
            have hsettled := settled_of_still hstill hspins
            cases fuel with
            | zero => exact .inl ⟨rfl, rfl⟩
            | succ fuel =>
                cases wake? a' with
                | none => exact .inl ⟨rfl, rfl⟩
                | some ms => exact ih fuel (Nat.lt_succ_self fuel) (hend.tick hsettled ms)

end Activity

end Runsheet
