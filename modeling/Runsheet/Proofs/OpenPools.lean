import Runsheet.Proofs.SingleUse

/-!
# Pools that are open when they are looked at

A batch looks whether its pool is open, each of its branches does so when it asks for a permit or waits
for one, and only the end of the batch closes the pool.  If nothing else looks at the pool, and nothing
looks at it again after the batch, then it is open whenever it is looked at.  `LooksOnce` says so of an
activity and one pool; at any moment at most one part of the activity knows the pool at all.

* `LooksOnce.move`, `LooksOnce.run` — the pool stays open until its batch is over, and afterwards nothing
  looks at it;
* `Looks`, `Reliable.finds_open` — whoever looks at the pool finds it open;
* `LooksOnce.batch_own`, `LooksOnce.batch_other` — batches, on the pool and on others.
-/

namespace Runsheet

namespace Activity

/-- What follows a change does not depend on whether the pool is closed. -/
def Blind (q : Pool) (_ : World → World) (next : World → Activity) : Prop :=
  ∀ w, next (w.close q) = next w

/-- A change that neither looks at the pool nor closes it. -/
def Spares (q : Pool) (f : World → World) (next : World → Activity) : Prop :=
  Blind q f next ∧ ∀ w, (f w).isClosed q = true → w.isClosed q = true

/-- The activity never looks at the pool. -/
def Overlooks (q : Pool) : Activity → Prop :=
  Throughout (Blind q) (· ≠ q)

/-- The activity knows nothing of the pool: it neither looks at it, nor closes it, nor splits on it. -/
def Ignores (q : Pool) : Activity → Prop :=
  Throughout (Spares q) (· ≠ q)

/-- **The activity has one batch at most that looks at the pool**, and nothing closes the pool before that
batch is over.  Of the parts of an activity all but one know nothing of the pool. -/
inductive LooksOnce (q : Pool) : Activity → Prop
  | ignores {a : Activity} (ha : Ignores q a) : LooksOnce q a
  | look {next : World → Activity} (hnext : ∀ w, w.isClosed q = false → LooksOnce q (next w)) :
      LooksOnce q (look next)
  | serving {t : Tally} {slots : List (Slot Activity)} {next : Reading → Activity} (hpool : t.pool = q)
      (hparts : ∀ i a, Ongoing slots i a → Ignores q a) (hnext : ∀ r, Overlooks q (next r)) :
      LooksOnce q (.fork t slots next)
  | act {f : World → World} {next : World → Activity} (hact : Spares q f next)
      (hnext : ∀ w, LooksOnce q (next w)) : LooksOnce q (.act f next)
  | sleep {ms : Nat} {next : World → Activity} (hnext : ∀ w, LooksOnce q (next w)) :
      LooksOnce q (.sleep ms next)
  | first {a : Activity} {k : Outcome → Activity} (ha : LooksOnce q a) (hk : ∀ o, Ignores q (k o)) :
      LooksOnce q (a.bind k)
  | second {a : Activity} {k : Outcome → Activity} (ha : Ignores q a) (hk : ∀ o, LooksOnce q (k o)) :
      LooksOnce q (a.bind k)
  | within {left : Nat} {body : Activity} {next : Option Outcome → Activity}
      (hbody : LooksOnce q body) (hnext : ∀ o, Ignores q (next o)) :
      LooksOnce q (.within left body next)
  | fork {t : Tally} {slots : List (Slot Activity)} {next : Reading → Activity} (hpool : t.pool ≠ q)
      (hparts : ∀ i a, Ongoing slots i a → LooksOnce q a)
      (hapart : ∀ i j a b, i ≠ j → Ongoing slots i a → Ongoing slots j b → Ignores q a ∨ Ignores q b)
      (hnext : ∀ r, Ignores q (next r)) : LooksOnce q (.fork t slots next)

variable {ordered : Prop} {way : Way} {a b c : Activity} {w v u : World} {h : List Turn}
variable {q place : Pool} {e : Evaluator} {s : Settings} {label name : String}

/-! ### What flows do by themselves -/

theorem close_isClosed {p : Pool} (hne : p ≠ q) (w : World) :
    (w.close q).isClosed p = w.isClosed p := by
  simp [World.isClosed, World.close, hne]

/-- Flows by themselves know nothing of a pool that is not theirs. -/
theorem fits_spares (q : Pool) : Fits (Spares q) (· ≠ q) where
  bind k hf := by
    refine ⟨?_, hf.2⟩
    intro w
    dsimp only
    rw [hf.1 w]
  note _ _ _ := ⟨fun _ => rfl, fun _ hclosed => hclosed⟩
  pause _ := ⟨fun _ => rfl, fun _ hclosed => hclosed⟩
  enter a b hne := by
    refine ⟨?_, fun _ hclosed => hclosed⟩
    intro w
    dsimp only
    rw [close_isClosed hne]
  leave text a hne := by
    refine ⟨fun _ => rfl, ?_⟩
    intro w hclosed
    rwa [close_isClosed fun heq => hne heq.symm] at hclosed

/-- A look at a guard is no look at a pool. -/
theorem guarded_spares (q : Pool) (s : Settings) : Guarded (Spares q) e s :=
  fun _ => ⟨fun _ => rfl, fun _ hclosed => hclosed⟩

/-- What knows nothing of the pool never looks at it. -/
theorem Ignores.overlooks (ha : Ignores q a) : Overlooks q a :=
  ha.imp fun _ _ hspares => hspares.1

/-- A move of what knows nothing of the pool leaves it open. -/
theorem Ignores.move (ha : Ignores q a) (hopen : w.isClosed q = false)
    (hmove : Move ordered way a w b v) : Ignores q b ∧ v.isClosed q = false := by
  refine ⟨Throughout.move ha hmove, ?_⟩
  have hstays : v.isClosed q = true → w.isClosed q = true :=
    Throughout.move_world (R := fun w v => v.isClosed q = true → w.isClosed q = true) ha
      (fun _ _ hspares => hspares.2) (fun _ hclosed => hclosed) hmove
  rw [← Bool.not_eq_true] at hopen ⊢
  exact fun hclosed => hopen (hstays hclosed)

theorem Overlooks.bind {k : Outcome → Activity} (ha : Overlooks q a) (hk : ∀ o, Overlooks q (k o)) :
    Overlooks q (a.bind k) := by
  have hblind {f : World → World} {next : World → Activity} (hf : Blind q f next) :
      Blind q f fun w => (next w).bind k := by
    intro w
    dsimp only
    rw [hf w]
  induction ha with
  | done => exact hk _
  | act hact _ ih => exact .act (hblind hact) ih
  | sleep hwake _ ih => exact .sleep (hblind hwake) ih
  | never => exact .never
  | within hbody _ _ ih => exact .within hbody ih
  | fork hpool hslots _ _ ih => exact .fork hpool hslots ih

/-! ### Moves, time and runs -/

/-- The pool is open and one batch at most will look at it, or nothing will. -/
def Reliable (q : Pool) (a : Activity) (w : World) : Prop :=
  (LooksOnce q a ∧ w.isClosed q = false) ∨ Overlooks q a

theorem Ignores.reliable (ha : Ignores q a) (hopen : w.isClosed q = false) : Reliable q a w :=
  Or.inl ⟨.ignores ha, hopen⟩

/-- A branch that ends in a split, or is dealt with, leaves at most one that knows the pool. -/
theorem LooksOnce.fork_rest {t t' : Tally} {slots slots' : List (Slot Activity)} {next : Reading → Activity}
    (hpool : t.pool ≠ q) (hparts : ∀ i a, Ongoing slots i a → LooksOnce q a)
    (hapart : ∀ i j a b, i ≠ j → Ongoing slots i a → Ongoing slots j b → Ignores q a ∨ Ignores q b)
    (hnext : ∀ r, Ignores q (next r)) (hsame : t'.pool = t.pool)
    (hrest : ∀ i a, Ongoing slots' i a → Ongoing slots i a) : LooksOnce q (.fork t' slots' next) := by
  refine .fork (hsame ▸ hpool) ?_ ?_ hnext
  · intro i a ha
    exact hparts i a (hrest i a ha)
  · intro i j a b hij ha hb
    exact hapart i j a b hij (hrest i a ha) (hrest j b hb)

/-- A branch has moved in a split of which at most one branch knows the pool. -/
theorem LooksOnce.fork_branch {t : Tally} {i : Nat} {slots : List (Slot Activity)} {next : Reading → Activity}
    (hpool : t.pool ≠ q) (hslot : slots[i]? = some (.running a))
    (hparts : ∀ i a, Ongoing slots i a → LooksOnce q a)
    (hapart : ∀ i j a b, i ≠ j → Ongoing slots i a → Ongoing slots j b → Ignores q a ∨ Ignores q b)
    (hnext : ∀ r, Ignores q (next r)) (hkept : Ignores q a → Ignores q b ∧ v.isClosed q = false)
    (hb : Reliable q b v) : Reliable q (.fork t (slots.set i (.running b)) next) v := by
  have hmember : Ongoing slots i a := ongoing_running hslot
  have hfits (hb : LooksOnce q b) (hopen : v.isClosed q = false) :
      Reliable q (.fork t (slots.set i (.running b)) next) v := by
    refine Or.inl ⟨.fork hpool ?_ ?_ hnext, hopen⟩
    · intro j c hc
      exact hc.set_running (P := fun _ c => LooksOnce q c) hb hparts
    · intro j k c d hne hc hd
      rcases hc.of_set with ⟨rfl, heq⟩ | ⟨_, hc'⟩
      · cases heq
        rcases hd.of_set with ⟨rfl, -⟩ | ⟨_, hd'⟩
        · exact (hne rfl).elim
        · exact (hapart _ _ _ _ hne hmember hd').imp_left fun ha => (hkept ha).1
      · rcases hd.of_set with ⟨rfl, heq⟩ | ⟨_, hd'⟩
        · cases heq
          exact (hapart _ _ _ _ hne hc' hmember).imp_right fun ha => (hkept ha).1
        · exact hapart _ _ _ _ hne hc' hd'
  by_cases ha : Ignores q a
  · obtain ⟨hb, hopen⟩ := hkept ha
    exact hfits (.ignores hb) hopen
  · rcases hb with ⟨hb, hopen⟩ | hb
    · exact hfits hb hopen
    · -- it was this branch that knew the pool
      refine Or.inr (.fork hpool (forall_ongoing fun j c hc => ?_) fun r => (hnext r).overlooks)
      rcases hc.of_set with ⟨rfl, heq⟩ | ⟨hne, hold⟩
      · cases heq
        exact hb
      · exact ((hapart j i c a hne hold hmember).resolve_right ha).overlooks

/-- **A move keeps the pool open** until its batch is over, and then it is not looked at again. -/
theorem LooksOnce.move (ha : LooksOnce q a) (hopen : w.isClosed q = false)
    (hmove : Move ordered way a w b v) : Reliable q b v := by
  induction ha generalizing way w b v with
  | ignores ha =>
      obtain ⟨hb, hopen'⟩ := ha.move hopen hmove
      exact hb.reliable hopen'
  | look hnext =>
      cases hmove
      exact Or.inl ⟨hnext w hopen, hopen⟩
  | serving hpool hparts hnext =>
      have hrest {t' : Tally} {slots' : List (Slot Activity)} (hsame : t'.pool = q)
          (hkept : ∀ i a, Ongoing slots' i a → Ignores q a) : Reliable q (.fork t' slots' _) w :=
        Or.inl ⟨.serving hsame hkept hnext, hopen⟩
      cases hmove with
      | deal _ hslot hdeal =>
          apply hrest ((Tally.dealt_iff.mp hdeal).pool.trans hpool)
          intro i a ha
          exact hparts i a (ha.of_dealt hdeal hslot)
      | branch _ hslot hmove =>
          obtain ⟨hb, hopen'⟩ := (hparts _ _ (ongoing_running hslot)).move hopen hmove
          refine Or.inl ⟨.serving hpool ?_ hnext, hopen'⟩
          intro i a ha
          exact ha.set_running (P := fun _ a => Ignores q a) hb hparts
      | finish => exact hrest hpool fun i a ha => hparts i a ha.of_set_ended.2
      | read => exact hrest hpool hparts
      | abort => exact Or.inr (hnext _)
      | leave => exact Or.inr (hnext _)
  | act hact hnext =>
      cases hmove
      refine Or.inl ⟨hnext w, ?_⟩
      rw [← Bool.not_eq_true] at hopen ⊢
      intro hclosed
      exact hopen (hact.2 w hclosed)
  | sleep hnext =>
      cases hmove
      exact Or.inl ⟨hnext w, hopen⟩
  | @first a k ha hk ih =>
      rcases Move.of_bind hmove with ⟨b, hfirst, rfl⟩ | ⟨o, rfl, hafter⟩
      · rcases ih hopen hfirst with ⟨hb, hopen'⟩ | hb
        · exact Or.inl ⟨.first hb hk, hopen'⟩
        · exact Or.inr (hb.bind fun o => (hk o).overlooks)
      · obtain ⟨hb, hopen'⟩ := (hk o).move hopen hafter
        exact hb.reliable hopen'
  | @second a k ha hk ih =>
      rcases Move.of_bind hmove with ⟨b, hfirst, rfl⟩ | ⟨o, rfl, hafter⟩
      · obtain ⟨hb, hopen'⟩ := ha.move hopen hfirst
        exact Or.inl ⟨.second hb hk, hopen'⟩
      · exact ih o hopen hafter
  | within hbody hnext ih =>
      cases hmove with
      | inside _ hmove =>
          rcases ih hopen hmove with ⟨hb, hopen'⟩ | hb
          · exact Or.inl ⟨.within hb hnext, hopen'⟩
          · exact Or.inr (.within hb fun o => (hnext o).overlooks)
      | inTime => exact (hnext _).reliable hopen
      | late => exact (hnext none).reliable hopen
  | fork hpool hparts hapart hnext ih =>
      cases hmove with
      | deal _ hslot hdeal =>
          refine Or.inl ⟨.fork_rest hpool hparts hapart hnext (Tally.dealt_iff.mp hdeal).pool ?_, hopen⟩
          intro i a ha
          exact ha.of_dealt hdeal hslot
      | branch _ hslot hmove =>
          apply LooksOnce.fork_branch hpool hslot hparts hapart hnext
          · intro ha
            exact ha.move hopen hmove
          · exact ih _ _ (ongoing_running hslot) hopen hmove
      | finish =>
          refine Or.inl ⟨.fork_rest hpool hparts hapart hnext rfl ?_, hopen⟩
          intro i a ha
          exact ha.of_set_ended.2
      | read => exact Or.inl ⟨.fork hpool hparts hapart hnext, hopen⟩
      | abort => exact (hnext _).reliable hopen
      | leave => exact (hnext _).reliable hopen

theorem of_ongoing_elapse {slots : List (Slot Activity)} {i ms : Nat} (hb : Ongoing (elapseSlots ms slots) i b) :
    ∃ a, Ongoing slots i a ∧ (b = a ∨ (slots[i]? = some (.running a) ∧ b = a.elapse ms)) := by
  rw [elapseSlots_eq_map] at hb
  apply hb.of_map
  · intro a
    rfl
  · intro slot hslot
    cases slot with
    | running a => cases hslot
    | fresh | queued | ended => rfl

/-- Time makes no difference. -/
theorem LooksOnce.elapse (ha : LooksOnce q a) (hsettled : Settled a) (ms : Nat) :
    LooksOnce q (a.elapse ms) := by
  induction ha with
  | ignores ha => exact .ignores (Throughout.elapse ha ms)
  | look => exact hsettled.elim
  | act => exact hsettled.elim
  | sleep hnext => exact .sleep hnext
  | serving hpool hparts hnext =>
      refine .serving hpool ?_ hnext
      intro i b hb
      obtain ⟨a, ha, rfl | ⟨-, rfl⟩⟩ := of_ongoing_elapse hb
      · exact hparts i _ ha
      · exact Throughout.elapse (hparts i a ha) ms
  | @first a k ha hk ih =>
      rcases resting_bind hsettled with hfirst | ⟨o, rfl, hafter⟩
      · rw [elapse_bind hfirst]
        exact .first (ih hfirst) hk
      · exact .ignores (Throughout.elapse (hk o) ms)
  | @second a k ha hk ih =>
      rcases resting_bind hsettled with hfirst | ⟨o, rfl, hafter⟩
      · rw [elapse_bind hfirst]
        exact .second (Throughout.elapse ha ms) hk
      · exact ih o hafter
  | within hbody hnext ih => exact .within (ih hsettled.1) hnext
  | @fork t slots next hpool hparts hapart hnext ih =>
      refine .fork hpool ?_ ?_ hnext
      · intro i b hb
        obtain ⟨a, ha, rfl | ⟨hslot, rfl⟩⟩ := of_ongoing_elapse hb
        · exact hparts i _ ha
        · exact ih i a ha (hsettled.1.of_getElem? hslot)
      · have hbefore {i : Nat} {b : Activity} (hb : Ongoing (elapseSlots ms slots) i b) :
            ∃ a, Ongoing slots i a ∧ (Ignores q a → Ignores q b) := by
          obtain ⟨a, ha, rfl | ⟨-, rfl⟩⟩ := of_ongoing_elapse hb
          · exact ⟨_, ha, id⟩
          · exact ⟨a, ha, fun ha => Throughout.elapse ha ms⟩
        intro i j c d hne hc hd
        obtain ⟨a, ha, hkeeps⟩ := hbefore hc
        obtain ⟨b, hb, hkeeps'⟩ := hbefore hd
        exact (hapart i j a b hne ha hb).imp hkeeps hkeeps'

/-- **In every run the pool stays open** until it has been looked at, if nobody else closes it. -/
theorem LooksOnce.run (ha : LooksOnce q a) (hopen : w.isClosed q = false)
    (hrun : Run ordered a w h b v) (hothers : Kept (fun w => w.isClosed q = false) h) : Reliable q b v := by
  apply hrun.invariant (Or.inl ⟨ha, hopen⟩)
  · intro way a b w v hreliable hmove
    rcases hreliable with ⟨ha, hopen⟩ | ha
    · exact ha.move hopen hmove
    · exact Or.inr (Throughout.move ha hmove)
  · intro a w v hmem hreliable
    rcases hreliable with ⟨ha, hopen⟩ | ha
    · exact Or.inl ⟨ha, hothers w v hmem hopen⟩
    · exact Or.inr ha
  · intro a w hreliable hsettled
    rcases hreliable with ⟨ha, hopen⟩ | ha
    · exact Or.inl ⟨ha.elapse hsettled 1, hopen⟩
    · exact Or.inr (Throughout.elapse ha 1)

/-! ### What looks -/

/-- Some part of the activity looks at the pool: a batch that is about to begin, which ends with a fault if the
pool is closed and does not end otherwise, or the branches of a batch that is under way. -/
inductive Looks (q : Pool) : Activity → Prop
  | here {next : World → Activity} (w : World) (hclosed : next (w.close q) = fail .poolShutdown)
      (hopen : ∀ o, next w ≠ .done o) : Looks q (look next)
  | asking {t : Tally} {slots : List (Slot Activity)} {next : Reading → Activity} (hpool : t.pool = q) :
      Looks q (.fork t slots next)
  | inside {left : Nat} {a : Activity} {next : Option Outcome → Activity} (ha : Looks q a) :
      Looks q (.within left a next)
  | branch {t : Tally} {i : Nat} {slots : List (Slot Activity)} {a : Activity} {next : Reading → Activity}
      (hslot : slots[i]? = some (.running a)) (ha : Looks q a) : Looks q (.fork t slots next)

theorem Looks.onReport {k : Report → Activity} (ha : Looks q a) : Looks q (a.onReport k) := by
  cases ha with
  | here w hclosed hopen =>
      refine .here w ?_ ?_
      · rw [hclosed]
        rfl
      · exact fun o => bind_not_done hopen
  | asking hpool => exact .asking hpool
  | inside ha => exact .inside ha
  | branch hslot ha => exact .branch hslot ha

/-- What overlooks a pool does not look at it. -/
theorem Overlooks.not_looks (ha : Overlooks q a) : ¬ Looks q a := by
  intro hlooks
  induction hlooks with
  | @here next w hclosed hopen =>
      cases ha with
      | act hblind _ =>
          apply hopen (.error .poolShutdown)
          rw [← hblind w]
          exact hclosed
  | asking hpool =>
      cases ha with
      | fork hother => exact hother hpool
  | inside _ ih =>
      cases ha with
      | within hbody _ => exact ih hbody
  | branch hslot _ ih =>
      cases ha with
      | fork _ hslots _ => exact ih (hslots _ (List.mem_of_getElem? hslot) _ rfl)

/-- **Whoever looks at the pool finds it open.** -/
theorem Reliable.finds_open (hreliable : Reliable q a w) (hlooks : Looks q a) : w.isClosed q = false := by
  rcases hreliable with ⟨-, hopen⟩ | ha
  · exact hopen
  · exact (ha.not_looks hlooks).elim

/-! ### How it is put together -/

theorem LooksOnce.note {level : Level} {text : String} (ha : LooksOnce q a) :
    LooksOnce q (note level text a) :=
  .act ⟨fun _ => rfl, fun _ hclosed => hclosed⟩ fun _ => ha

theorem LooksOnce.delayed {ms : Nat} (ha : LooksOnce q a) : LooksOnce q (delayed label ms a) := by
  unfold Activity.delayed
  split
  · exact ha.note
  · exact .note (.sleep fun _ => ha.note)

theorem LooksOnce.check {next : Bool → Activity} (hnext : ∀ b, LooksOnce q (next b)) :
    LooksOnce q (s.check e next) := by
  refine .act (guarded_spares q s next) fun w => ?_
  cases s.holds e w.context with
  | ok b => exact hnext b
  | error error => exact .ignores .done

/-- What follows looks at no pool that was looked at before. -/
theorem LooksOnce.onReport {k : Report → Activity} (ha : LooksOnce q a)
    (hk : ∀ r, Ignores q (k r)) : LooksOnce q (a.onReport k) := by
  refine .first ha fun o => ?_
  cases o with
  | ok r => exact hk r
  | error fault => exact .done

/-- Only what follows looks at the pool. -/
theorem Ignores.onReport {k : Report → Activity} (ha : Ignores q a) (hk : ∀ r, LooksOnce q (k r)) :
    LooksOnce q (a.onReport k) := by
  refine .second ha fun o => ?_
  cases o with
  | ok r => exact hk r
  | error fault => exact .ignores .done

theorem LooksOnce.limited {limit index : Nat} (ha : LooksOnce q a) :
    LooksOnce q (limited limit index label a) := by
  unfold Activity.limited
  split
  · exact ha
  · refine .within ha fun o => ?_
    cases o with
    | some o => exact .done
    | none => exact .note (fits_spares q) .done

theorem LooksOnce.branch {limit index : Nat} (ha : LooksOnce q a) :
    LooksOnce q (branch e limit index label s a) := by
  refine .check fun b => ?_
  cases b with
  | false => exact .ignores (.note (fits_spares q) .done)
  | true => exact ha.limited

/-- The end of a batch looks at no pool. -/
theorem overlooks_conclude {count : String} (reading : Reading) :
    Overlooks q (conclude name place count reading) := by
  rcases reading with ⟨index, fault⟩ | reports
  · exact .act (fun _ => rfl) fun _ => .act (fun _ => rfl) fun _ => .done
  · refine .act (fun _ => rfl) fun _ => ?_
    cases gatherFrom 0 reports with
    | error fault => exact .done
    | ok rs => exact .act (fun _ => rfl) fun _ => .done

/-- **A batch looks at its pool** until it is over, and only it does if its branches know nothing of the pool. -/
theorem LooksOnce.batch_own {threads limit : Nat} {branches : List Activity}
    (hbranches : ∀ a ∈ branches, Ignores q a) :
    LooksOnce q (batch name q threads limit branches) := by
  refine .look fun w hopen => ?_
  rw [if_neg (Bool.eq_false_iff.mp hopen)]
  refine .note (.serving rfl (fun i a ha => ?_) overlooks_conclude)
  exact hbranches a (List.mem_of_getElem? (ongoing_fresh.mp ha))

/-- **A batch on another pool** has at most one branch that looks at the pool. -/
theorem LooksOnce.batch_other {threads limit : Nat} {branches : List Activity} (hne : place ≠ q)
    (hbranches : ∀ (i : Nat) (a : Activity), branches[i]? = some a → LooksOnce q a)
    (hapart : ∀ (i j : Nat) (a b : Activity), i ≠ j → branches[i]? = some a →
      branches[j]? = some b → Ignores q a ∨ Ignores q b) :
    LooksOnce q (batch name place threads limit branches) := by
  have hfits := fits_spares q
  refine .act (hfits.enter _ _ hne) fun w => ?_
  by_cases hclosed : w.isClosed place = true
  · rw [if_pos hclosed]
    exact .ignores .done
  · rw [if_neg hclosed]
    refine .note (.fork hne ?_ ?_ (.conclude hfits hne))
    · intro i a ha
      exact hbranches i a (ongoing_fresh.mp ha)
    · intro i j a b hij ha hb
      exact hapart i j a b hij (ongoing_fresh.mp ha) (ongoing_fresh.mp hb)

end Activity

end Runsheet
