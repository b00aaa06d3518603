import Runsheet.Proofs.Throughout
import Runsheet.Proofs.Schedule

/-!
# Activities that mirror each other

One activity does what another one does, and besides writes to the log, and looks at pools of its own and
closes them.  `Mirrors pools fresh region a b` says so of `a` and `b`: of the `pools`, which `b` never
closes, `a` looks at `fresh` ones alone, which have to be open, and closes none outside a `region`.

* `Mirrors.mono`, `Mirrors.bind` — fewer restrictions, and one activity after the other;
* `Mirrors.resting` — what mirrors something that stands still is mirrored by it at rest;
* `Mirrors.elapse`, `Mirrors.wake`, `Mirrors.spins` — what time does to both.
-/

namespace Runsheet

/-- The worlds are the same but for the log, and for which of the pools are closed. -/
structure Like (pools : Pool → Prop) (w v : World) : Prop where
  context : v.context = w.context
  now : v.now = w.now
  entries : v.entries = w.entries
  closed {p : Pool} : ¬ pools p → v.isClosed p = w.isClosed p

/-- Of the pools, those outside a region are as open in the second world as in the first one. -/
def Keeps (pools region : Pool → Prop) (w v : World) : Prop :=
  ∀ p, pools p → ¬ region p → v.isClosed p = w.isClosed p

/-- The fresh pools are among the pools, and open. -/
def Ready (pools fresh : Pool → Prop) (w : World) : Prop :=
  ∀ p, fresh p → pools p ∧ w.isClosed p = false

/-- The fresh pools that are open. -/
def Unspent (fresh : Pool → Prop) (w : World) (p : Pool) : Prop :=
  fresh p ∧ w.isClosed p = false

/-- None of the pools is closed. -/
def Unclosed (pools : Pool → Prop) (w : World) : Prop :=
  ∀ p, pools p → w.isClosed p = false

section

variable {pools fresh region part later : Pool → Prop} {w v u x : World}

theorem Like.refl (w : World) : Like pools w w :=
  ⟨rfl, rfl, rfl, fun _ => rfl⟩

theorem Like.symm (h : Like pools w v) : Like pools v w :=
  ⟨h.context.symm, h.now.symm, h.entries.symm, fun hp => (h.closed hp).symm⟩

theorem Like.trans (hl : Like pools w v) (hr : Like pools v u) : Like pools w u :=
  ⟨hr.context.trans hl.context, hr.now.trans hl.now, hr.entries.trans hl.entries,
    fun hp => (hr.closed hp).trans (hl.closed hp)⟩

theorem Like.wait (h : Like pools w v) (ms : Nat) : Like pools (w.wait ms) (v.wait ms) :=
  ⟨h.context, by simp [World.wait, h.now], h.entries, h.closed⟩

/-- An event is written to the log alone. -/
theorem Like.note (w : World) (level : Level) (text : String) :
    Like pools w (w.note level text) :=
  ⟨rfl, rfl, rfl, fun _ => rfl⟩

theorem Keeps.refl (w : World) : Keeps pools region w w :=
  fun _ _ _ => rfl

theorem Keeps.trans (hl : Keeps pools region w v) (hr : Keeps pools region v u) :
    Keeps pools region w u :=
  fun p hp hregion => (hr p hp hregion).trans (hl p hp hregion)

theorem Keeps.mono (h : Keeps pools part w v) (hpart : ∀ p, part p → region p) :
    Keeps pools region w v :=
  fun p hp hregion => h p hp fun hp' => hregion (hpart p hp')

/-- Fresh pools that are left alone stay open. -/
theorem Ready.keeps (h : Ready pools fresh w) (hkeeps : Keeps pools part w v)
    (hlater : ∀ p, later p → fresh p ∧ ¬ part p) : Ready pools later v := by
  intro p hp
  obtain ⟨hfresh, hpart⟩ := hlater p hp
  obtain ⟨hpool, hopen⟩ := h p hfresh
  exact ⟨hpool, (hkeeps p hpool hpart).trans hopen⟩

theorem Ready.mono (h : Ready pools fresh w) (hlater : ∀ p, later p → fresh p) :
    Ready pools later w :=
  fun p hp => h p (hlater p hp)

/-- Fresh pools that are left alone are still open. -/
theorem Ready.unspent (h : Ready pools fresh w) (hkeeps : Keeps pools part w v) {p : Pool}
    (hfresh : fresh p) (hpart : ¬ part p) : Unspent fresh v p :=
  ⟨hfresh, (hkeeps p (h p hfresh).1 hpart).trans (h p hfresh).2⟩

theorem Ready.of_unspent (h : Ready pools fresh w) (v : World) : Ready pools (Unspent fresh v) v :=
  fun p hp => ⟨(h p hp.1).1, hp.2⟩

/-- Where no pool is closed outside what is given away, none is closed. -/
theorem Unclosed.keeps (h : Unclosed pools w) (hkeeps : Keeps pools (fun _ => False) w v) :
    Unclosed pools v :=
  fun p hp => (hkeeps p hp id).trans (h p hp)

end

/-! ### Branches of one shape -/

section

variable {α β : Type}

/-- How far a branch has come, whatever it is to do. -/
def Slot.shape : Slot α → Slot Unit :=
  Slot.map fun _ => ()

/-- The branches of two splits have come equally far. -/
def Abreast (slots : List (Slot α)) (slots' : List (Slot β)) : Prop :=
  slots.map Slot.shape = slots'.map Slot.shape

variable {slots : List (Slot α)} {slots' : List (Slot β)} {i : Nat} {t t' : Tally}
variable {s s₁ : Slot α} {s' : Slot β} {closed : Bool}

theorem Abreast.symm (h : Abreast slots slots') : Abreast slots' slots :=
  Eq.symm h

theorem Abreast.get (h : Abreast slots slots') (hslot : slots[i]? = some s) :
    ∃ s', slots'[i]? = some s' ∧ s'.shape = s.shape := by
  have hget := congrArg (fun l => l[i]?) h
  simp only [List.getElem?_map, hslot, Option.map_some] at hget
  exact Option.map_eq_some_iff.mp hget.symm

theorem Abreast.set (h : Abreast slots slots') (hshape : s'.shape = s.shape) :
    Abreast (slots.set i s) (slots'.set i s') := by
  unfold Abreast at h ⊢
  rw [List.map_set, List.map_set, h, hshape]

theorem Abreast.take (h : Abreast slots slots') (k : Nat) : Abreast (slots.take k) (slots'.take k) := by
  unfold Abreast at h ⊢
  rw [List.map_take, List.map_take, h]

theorem shape_running {a : α} (h : s'.shape = (Slot.running a).shape) : ∃ b, s' = .running b := by
  obtain ⟨b, hb, _⟩ := Slot.map_eq_running.mp h
  exact ⟨b, hb⟩

theorem shape_queued {a : α} (h : s'.shape = (Slot.queued a).shape) : ∃ b, s' = .queued b := by
  obtain ⟨b, hb, _⟩ := Slot.map_eq_queued.mp h
  exact ⟨b, hb⟩

theorem shape_isEnded (h : s'.shape = s.shape) : s'.isEnded = s.isEnded := by
  rw [← Slot.isEnded_map (fun _ => ()) s', ← Slot.isEnded_map (fun _ => ()) s]
  exact congrArg Slot.isEnded h

theorem Abreast.not_ended (h : Abreast slots slots') (hwaits : ∃ s ∈ slots, s.isEnded = false) :
    ∃ s ∈ slots', s.isEnded = false := by
  obtain ⟨s, hs, hopen⟩ := hwaits
  obtain ⟨i, hi⟩ := List.mem_iff_getElem?.mp hs
  obtain ⟨s', hslot, hshape⟩ := h.get hi
  exact ⟨s', List.mem_of_getElem? hslot, (shape_isEnded hshape).trans hopen⟩

theorem Abreast.all_ended (h : Abreast slots slots') (hended : ∀ s ∈ slots, s.isEnded = true) :
    ∀ s ∈ slots', s.isEnded = true := by
  intro s' hs'
  obtain ⟨i, hi⟩ := List.mem_iff_getElem?.mp hs'
  obtain ⟨s, hslot, hshape⟩ := h.symm.get hi
  rw [← shape_isEnded hshape]
  exact hended s (List.mem_of_getElem? hslot)

theorem Abreast.served (h : Abreast slots slots') (hserved : t.Served slots) : t.Served slots' := by
  intro i body hfirst hslot
  obtain ⟨s, hslot', hshape⟩ := h.symm.get hslot
  obtain ⟨body', rfl⟩ := shape_queued hshape
  exact hserved i body' hfirst hslot'

/-- Branches that have come equally far have the same fate. -/
theorem Tally.Dealt.abreast (h : t.Dealt closed i s t' s₁) (hshape : s'.shape = s.shape) :
    ∃ s₁', t.Dealt closed i s' t' s₁' ∧ s₁'.shape = s₁.shape := by
  have hdeal := congrArg (t.deal closed i) hshape
  simp only [Slot.shape] at hdeal
  rw [deal_map, deal_map, dealt_iff.mpr h, Option.map_some, Option.map_eq_some_iff] at hdeal
  obtain ⟨⟨t₁, s₁'⟩, hdeal', heq⟩ := hdeal
  obtain ⟨rfl, hsame⟩ := Prod.mk.inj heq
  exact ⟨s₁', dealt_iff.mp hdeal', hsame⟩

/-- Time passes for all branches. -/
theorem Abreast.elapse {slots slots' : List (Slot Activity)} (h : Abreast slots slots') (ms : Nat) :
    Abreast (Activity.elapseSlots ms slots) (Activity.elapseSlots ms slots') := by
  have hshape : Slot.shape ∘ Slot.elapse ms = Slot.shape := by
    funext s
    cases s <;> rfl
  unfold Abreast at h ⊢
  rw [Activity.elapseSlots_eq_map, Activity.elapseSlots_eq_map, List.map_map, List.map_map, hshape, h]

end

namespace Activity

/-- The first activity mirrors the second one.  What it does besides is `silent`. -/
inductive Mirrors (pools : Pool → Prop) :
    (Pool → Prop) → (Pool → Prop) → Activity → Activity → Prop
  | done {fresh region : Pool → Prop} {o : Outcome} :
      Mirrors pools fresh region (.done o) (.done o)
  | silent {fresh region later part : Pool → Prop} {f : World → World} {next : World → Activity}
      {b : Activity} (hf : ∀ w, Like pools w (f w) ∧ Keeps pools part w (f w))
      (hpart : ∀ p, part p → region p) (hlater : ∀ p, later p → fresh p ∧ ¬ part p)
      (hnext : ∀ w, Ready pools fresh w → Mirrors pools later region (next w) b) :
      Mirrors pools fresh region (.act f next) b
  | act {fresh region : Pool → Prop} {f f' : World → World} {next next' : World → Activity}
      (hf : ∀ w v, Like pools w v → Like pools (f w) (f' v))
      (hkeeps : ∀ w, Keeps pools (fun _ => False) w (f w))
      (hkeeps' : ∀ v, Keeps pools (fun _ => False) v (f' v))
      (hnext : ∀ w v, Like pools w v → Mirrors pools fresh region (next w) (next' v)) :
      Mirrors pools fresh region (.act f next) (.act f' next')
  | sleep {fresh region : Pool → Prop} {ms : Nat} {next next' : World → Activity}
      (hnext : ∀ w v, Like pools w v → Mirrors pools fresh region (next w) (next' v)) :
      Mirrors pools fresh region (.sleep ms next) (.sleep ms next')
  | never {fresh region : Pool → Prop} : Mirrors pools fresh region .never .never
  | within {fresh region own later part : Pool → Prop} {left : Nat} {body body' : Activity}
      {next next' : Option Outcome → Activity} (hown : ∀ p, own p → fresh p)
      (hpart : ∀ p, part p → region p) (hlater : ∀ p, later p → fresh p ∧ ¬ part p)
      (hbody : Mirrors pools own part body body')
      (hnext : ∀ o, Mirrors pools later region (next o) (next' o)) :
      Mirrors pools fresh region (.within left body next) (.within left body' next')
  | fork {fresh region later : Pool → Prop} {own parts : Nat → Pool → Prop} {t : Tally}
      {slots slots' : List (Slot Activity)} {next next' : Reading → Activity}
      (hpool : pools t.pool → fresh t.pool ∧ ∀ i, ¬ parts i t.pool)
      (hown : ∀ i p, own i p → fresh p ∧ parts i p) (hparts : ∀ i p, parts i p → region p)
      (hapart : ∀ i j p, parts i p → parts j p → i = j)
      (hlater : ∀ p, later p → fresh p ∧ ∀ i, ¬ parts i p) (habreast : Abreast slots slots')
      (hslots : ∀ i s s' a b, slots[i]? = some s → slots'[i]? = some s' → s.body? = some a →
        s'.body? = some b → Mirrors pools (own i) (parts i) a b)
      (hnext : ∀ r, Mirrors pools later region (next r) (next' r)) :
      Mirrors pools fresh region (.fork t slots next) (.fork t slots' next')

variable {pools fresh fresh' region region' part later : Pool → Prop} {w v u x : World}
variable {a b c : Activity}

/-! ### Put together -/

/-- More fresh pools and a larger region are no harm. -/
theorem Mirrors.mono (h : Mirrors pools fresh region a b) (hfresh : ∀ p, fresh p → fresh' p)
    (hregion : ∀ p, region p → region' p) : Mirrors pools fresh' region' a b := by
  induction h generalizing fresh' region' with
  | done => exact .done
  | silent hf hpart hlater _ ih =>
      refine .silent hf (fun p hp => hregion p (hpart p hp))
        (fun p hp => ⟨hfresh p (hlater p hp).1, (hlater p hp).2⟩) fun w hready => ?_
      exact ih w (hready.mono hfresh) (fun _ hp => hp) hregion
  | act hf hkeeps hkeeps' _ ih =>
      exact .act hf hkeeps hkeeps' fun w v hlike => ih w v hlike hfresh hregion
  | sleep _ ih => exact .sleep fun w v hlike => ih w v hlike hfresh hregion
  | never => exact .never
  | within hown hpart hlater hbody _ _ ih =>
      exact .within (fun p hp => hfresh p (hown p hp)) (fun p hp => hregion p (hpart p hp))
        (fun p hp => ⟨hfresh p (hlater p hp).1, (hlater p hp).2⟩) hbody
        fun o => ih o (fun _ hp => hp) hregion
  | fork hpool hown hparts hapart hlater habreast hslots _ _ ih =>
      refine .fork (fun hp => ⟨hfresh _ (hpool hp).1, (hpool hp).2⟩)
        (fun i p hp => ⟨hfresh p (hown i p hp).1, (hown i p hp).2⟩)
        (fun i p hp => hregion p (hparts i p hp)) hapart
        (fun p hp => ⟨hfresh p (hlater p hp).1, (hlater p hp).2⟩) habreast hslots fun r => ?_
      exact ih r (fun _ hp => hp) hregion

/-- **One after the other**: what follows looks at pools that the first activities leave alone. -/
theorem Mirrors.bind {own : Pool → Prop} {k k' : Outcome → Activity}
    (h : Mirrors pools own part a b) (hown : ∀ p, own p → fresh p)
    (hpart : ∀ p, part p → region p) (hlater : ∀ p, later p → fresh p ∧ ¬ part p)
    (hk : ∀ o, Mirrors pools later region (k o) (k' o)) :
    Mirrors pools fresh region (a.bind k) (b.bind k') := by
  induction h generalizing fresh with
  | done => exact (hk _).mono (fun p hp => (hlater p hp).1) fun _ hp => hp
  | @silent _ _ later' _ _ _ _ hf hpart' hlater' _ ih =>
      -- what follows is ready for its own pools, and for those of the second activity
      refine .silent hf (fun p hp => hpart p (hpart' p hp))
        (fun p (hp : later' p ∨ later p) => ?_) fun w hready => ?_
      · rcases hp with hp | hp
        · exact ⟨hown p (hlater' p hp).1, (hlater' p hp).2⟩
        · exact ⟨(hlater p hp).1, fun hp' => (hlater p hp).2 (hpart' p hp')⟩
      · exact ih w (hready.mono hown) (fun _ hp => Or.inl hp) hpart
          fun p hp => ⟨Or.inr hp, (hlater p hp).2⟩
  | act hf hkeeps hkeeps' _ ih =>
      exact .act hf hkeeps hkeeps' fun w v hlike => ih w v hlike hown hpart hlater
  | sleep _ ih => exact .sleep fun w v hlike => ih w v hlike hown hpart hlater
  | never => exact .never
  | @within _ _ _ later' _ _ _ _ _ _ hown' hpart' hlater' hbody _ _ ih =>
      refine .within (fun p hp => hown p (hown' p hp)) (fun p hp => hpart p (hpart' p hp))
        (fun p (hp : later' p ∨ later p) => ?_) hbody fun o => ?_
      · rcases hp with hp | hp
        · exact ⟨hown p (hlater' p hp).1, (hlater' p hp).2⟩
        · exact ⟨(hlater p hp).1, fun hp' => (hlater p hp).2 (hpart' p hp')⟩
      · exact ih o (fun _ hp => Or.inl hp) hpart fun p hp => ⟨Or.inr hp, (hlater p hp).2⟩
  | @fork _ _ later' _ _ _ _ _ _ _ hpool hown' hparts hapart hlater' habreast hslots _ _ ih =>
      refine .fork (fun hp => ⟨hown _ (hpool hp).1, (hpool hp).2⟩)
        (fun i p hp => ⟨hown p (hown' i p hp).1, (hown' i p hp).2⟩)
        (fun i p hp => hpart p (hparts i p hp)) hapart (fun p (hp : later' p ∨ later p) => ?_)
        habreast hslots fun r => ?_
      · rcases hp with hp | hp
        · exact ⟨hown p (hlater' p hp).1, (hlater' p hp).2⟩
        · exact ⟨(hlater p hp).1, fun i hp' => (hlater p hp).2 (hparts i p hp')⟩
      · exact ih r (fun _ hp => Or.inl hp) hpart fun p hp => ⟨Or.inr hp, (hlater p hp).2⟩

theorem Mirrors.onReport {own : Pool → Prop} {k k' : Report → Activity}
    (h : Mirrors pools own part a b) (hown : ∀ p, own p → fresh p)
    (hpart : ∀ p, part p → region p) (hlater : ∀ p, later p → fresh p ∧ ¬ part p)
    (hk : ∀ r, Mirrors pools later region (k r) (k' r)) :
    Mirrors pools fresh region (a.onReport k) (b.onReport k') := by
  refine h.bind hown hpart hlater fun o => ?_
  cases o with
  | ok r => exact hk r
  | error fault => exact .done

/-- An activity that begins with an event mirrors what it mirrors without it. -/
theorem Mirrors.note (h : Mirrors pools fresh region a b) (level : Level) (text : String) :
    Mirrors pools fresh region (note level text a) b :=
  .silent (fun w => ⟨.note w level text, fun _ _ _ => rfl⟩) (fun _ (hp : False) => hp.elim)
    (fun _ hp => ⟨hp, id⟩) fun _ _ => h

/-- Where nothing is closed, all fresh pools are still open. -/
theorem Mirrors.unspent (h : Mirrors pools fresh region a b) (hready : Ready pools fresh w) :
    Mirrors pools (Unspent fresh w) region a b :=
  h.mono (fun p hp => ⟨hp, (hready p hp).2⟩) fun _ hp => hp

/-! ### At rest -/

/-- What an activity mirrors that has ended has ended in the same way. -/
theorem Mirrors.of_done {o : Outcome} (h : Mirrors pools fresh region (.done o) b) :
    b = .done o := by
  cases h
  rfl

/-- What waits with its own hands mirrors what does. -/
theorem Mirrors.atRest (h : Mirrors pools fresh region a b) (ha : AtRest a) : AtRest b := by
  induction h with
  | done | silent | act | never => exact ha.elim
  | sleep => exact ha
  | within _ _ _ _ _ ih _ => exact ⟨ha.1, ih ha.2⟩
  | fork _ _ _ _ _ habreast => exact ⟨ha.1, habreast.not_ended ha.2⟩

/-- Branches rest if those do that have come equally far. -/
theorem RestingSlots.abreast {spin : Prop} {slots slots' : List (Slot Activity)}
    (hslots : RestingSlots spin slots) (habreast : Abreast slots slots')
    (heach : ∀ (i : Nat) (a b : Activity), slots[i]? = some (.running a) →
      slots'[i]? = some (.running b) → Resting spin a → Resting spin b) :
    RestingSlots spin slots' := by
  rw [restingSlots_iff]
  intro s' hs'
  obtain ⟨i, hi⟩ := List.mem_iff_getElem?.mp hs'
  obtain ⟨s, hslot, hshape⟩ := habreast.symm.get hi
  have hs := hslots.calm hslot
  cases s' with
  | fresh body =>
      cases s with
      | fresh => exact hs.elim
      | queued | running | ended => cases hshape
  | queued | ended => trivial
  | running body =>
      obtain ⟨body', rfl⟩ := shape_running hshape
      exact heach i _ _ hslot hi hs

/-- **What rests mirrors what rests**, and what waits with its own hands. -/
theorem Mirrors.resting {spin : Prop} (h : Mirrors pools fresh region a b) (ha : Resting spin a) :
    Resting spin b ∧ (AtRest b → AtRest a) := by
  induction h with
  | done | silent | act => exact ha.elim
  | sleep => exact ⟨ha, id⟩
  | never => exact ⟨ha, id⟩
  | within _ _ _ _ _ ih _ =>
      obtain ⟨hbody, hrest⟩ := ih ha.1
      exact ⟨⟨hbody, fun hleft hb => ha.2 hleft (hrest hb)⟩, fun hb => ⟨hb.1, hrest hb.2⟩⟩
  | fork _ _ _ _ _ habreast _ _ ih _ =>
      obtain ⟨hcalm, harrivals, hserved, hwaits⟩ := ha
      have hcalm' := hcalm.abreast habreast fun i a b hi hj ha => (ih i _ _ a b hi hj rfl rfl ha).1
      exact ⟨⟨hcalm', harrivals, habreast.served hserved, habreast.not_ended hwaits⟩,
        fun _ => ⟨harrivals, hwaits⟩⟩

theorem Mirrors.rests (h : Mirrors pools fresh region a b) (ha : Rests a) : Rests b := by
  rcases ha with ⟨o, rfl⟩ | ha
  · exact .inl ⟨o, h.of_done⟩
  · exact .inr (h.resting ha).1

/-- Activities at rest stay mirrored while time passes. -/
theorem Mirrors.elapse {spin : Prop} (h : Mirrors pools fresh region a b) (ha : Resting spin a)
    (ms : Nat) : Mirrors pools fresh region (a.elapse ms) (b.elapse ms) := by
  induction h with
  | done | silent | act => exact ha.elim
  | sleep hnext => exact .sleep hnext
  | never => exact .never
  | within hown hpart hlater _ hnext ih _ => exact .within hown hpart hlater (ih ha.1) hnext
  | fork hpool hown hparts hapart hlater habreast hslots hnext ih _ =>
      refine .fork hpool hown hparts hapart hlater (habreast.elapse ms)
        (fun i s s' a b hs hs' ha' hb => ?_) hnext
      rw [elapseSlots_eq_map, List.getElem?_map, Option.map_eq_some_iff] at hs hs'
      obtain ⟨s, hslot, rfl⟩ := hs
      obtain ⟨s', hslot', rfl⟩ := hs'
      have hshape : s'.shape = s.shape := by
        obtain ⟨s₁, hslot₁, hshape⟩ := habreast.get hslot
        rw [hslot', Option.some.injEq] at hslot₁
        rw [hslot₁, hshape]
      cases s with
      | fresh body => exact (ha.1.calm hslot).elim
      | queued body =>
          obtain ⟨body', rfl⟩ := shape_queued hshape
          exact hslots i _ _ a b hslot hslot' ha' hb
      | running body =>
          obtain ⟨body', rfl⟩ := shape_running hshape
          cases ha'
          cases hb
          exact ih i _ _ _ _ hslot hslot' rfl rfl (ha.1.calm hslot)
      | ended o => cases ha'

/-! ### The next moment -/

/-- What is true of the branches that run of two splits together is true of both splits. -/
private theorem abreast_induction {motive : List (Slot Activity) → List (Slot Activity) → Prop}
    {M : Activity → Activity → Prop} (hnil : motive [] [])
    (hrunning : ∀ a b slots slots', M a b → motive slots slots' →
      motive (.running a :: slots) (.running b :: slots'))
    (hother : ∀ s s' slots slots', s.holds = false → s'.holds = false → motive slots slots' →
      motive (s :: slots) (s' :: slots')) {slots slots' : List (Slot Activity)}
    (habreast : Abreast slots slots')
    (hslots : ∀ (i : Nat) a b, slots[i]? = some (.running a) → slots'[i]? = some (.running b) →
      M a b) : motive slots slots' := by
  induction slots generalizing slots' with
  | nil =>
      obtain rfl := List.map_eq_nil_iff.mp habreast.symm
      exact hnil
  | cons s rest ih =>
      obtain ⟨s', rest', rfl, hshape, hrest⟩ := List.map_eq_cons_iff.mp habreast.symm
      have htail : motive rest rest' :=
        ih hrest.symm fun i a b ha hb => hslots (i + 1) a b ha hb
      cases s with
      | running a =>
          obtain ⟨b, rfl⟩ := shape_running hshape
          exact hrunning a b rest rest' (hslots 0 a b rfl rfl) htail
      | fresh | queued | ended =>
          refine hother _ s' rest rest' rfl ?_ htail
          cases s' with
          | running => cases hshape
          | fresh | queued | ended => rfl

theorem wakeSlots_of_not_holds {s : Slot Activity} {slots : List (Slot Activity)}
    (hs : s.holds = false) : wakeSlots? (s :: slots) = wakeSlots? slots := by
  cases s with
  | running => cases hs
  | fresh | queued | ended => rfl

theorem spinsSlots_of_not_holds {s : Slot Activity} {slots : List (Slot Activity)}
    (hs : s.holds = false) : spinsSlots (s :: slots) = spinsSlots slots := by
  cases s with
  | running => cases hs
  | fresh | queued | ended => rfl

/-- What rests goes on when the one goes on that it mirrors. -/
theorem Mirrors.wake {spin : Prop} (h : Mirrors pools fresh region a b) (ha : Resting spin a) :
    wake? a = wake? b := by
  induction h with
  | done | silent | act => exact ha.elim
  | sleep | never => rfl
  | within _ _ _ _ _ ih _ => rw [wake?, wake?, ih ha.1]
  | fork _ _ _ _ _ habreast _ _ ih _ =>
      rw [wake?, wake?]
      refine abreast_induction (motive := fun l r => wakeSlots? l = wakeSlots? r) rfl
        (fun a b l r hab hlr => ?_) (fun s s' l r hs hs' hlr => ?_) habreast fun i a b hi hj =>
        ih i _ _ a b hi hj rfl rfl (ha.1.calm hi)
      · rw [wakeSlots?, wakeSlots?, hab, hlr]
      · rw [wakeSlots_of_not_holds hs, wakeSlots_of_not_holds hs', hlr]

/-- What rests goes on without waiting exactly if the one does that it mirrors. -/
theorem Mirrors.spins {spin : Prop} (h : Mirrors pools fresh region a b) (ha : Resting spin a) :
    Activity.spins a = Activity.spins b := by
  induction h with
  | done | silent | act => exact ha.elim
  | sleep | never => rfl
  | within _ _ _ _ _ ih _ => exact ih ha.1
  | fork _ _ _ _ _ habreast _ _ ih _ =>
      rw [Activity.spins, Activity.spins]
      refine abreast_induction (motive := fun l r => spinsSlots l = spinsSlots r) rfl
        (fun a b l r hab hlr => ?_) (fun s s' l r hs hs' hlr => ?_) habreast fun i a b hi hj =>
        ih i _ _ a b hi hj rfl rfl (ha.1.calm hi)
      · rw [spinsSlots, spinsSlots, hab, hlr]
      · rw [spinsSlots_of_not_holds hs, spinsSlots_of_not_holds hs', hlr]

end Activity

end Runsheet
