import Runsheet.Proofs.Cancellation
import Runsheet.Proofs.Layers

/-!
# Pools over whole histories

A flow can be executed again and again, on one context after the other; its pools are not made anew.  A batch
that is given up leaves its own pool open, so that it is for the flows around it to see that it is not reached
a second time: a split that has been under way is never under way again, in this execution or a later one.

* `Annals` — any number of executions of an activity, one after the other;
* `Annals.once`, `Annals.splits_once` — what a single use means for them;
* `Flow.parallel_closes`, `Flow.parallel_refused` — a parallel flow closes its pool and, on a closed pool, does
  nothing but fail;
* `pool_serves_once` — what this says about the executions of a flow.
-/

namespace Runsheet

open Activity (Way Live Splits Barred OthersGrow OpensNone Throughout SingleUse Grows Idle Kept
  othersGrow_append grows_append)

namespace Marked

/-- **Annals** of an activity: any number of its executions, one after the other.  When one has ended, others
may begin the next one, on any world; the last one may still be under way. -/
inductive Annals (ordered : Prop) (a : Marked) : Marked → World → List Turn → Marked → World → Prop
  | run {s t : Marked} {w v : World} {h : List Turn} (hrun : Run ordered s w h t v) :
      Annals ordered a s w h t v
  | again {s t : Marked} {o : Outcome} {w v x u : World} {h g : List Turn}
      (hrun : Run ordered s w h (.done o) v) (hrest : Annals ordered a a x g t u) :
      Annals ordered a s w (h ++ .other v x :: g) t u

/-- The turns of others in a history open no pool that is closed. -/
def Growing (h : List Turn) : Prop :=
  OthersGrow (h.map Turn.plain)

variable {ordered : Prop} {q : Pool} {S pools : Pool → Prop} {a s t r : Marked} {w v u x y : World}
variable {h g k : List Turn} {way way' : Way}

theorem growing_append : Growing (h ++ g) ↔ Growing h ∧ Growing g := by
  unfold Growing
  rw [List.map_append]
  exact othersGrow_append

theorem growing_nil : Growing [] := nofun

theorem growing_own {m : Mark} : Growing [.own m way w v] := by
  intro x y hmem
  cases List.mem_singleton.mp hmem

theorem growing_other : Growing (.other w v :: h) ↔
    (∀ p, w.isClosed p = true → v.isClosed p = true) ∧ Growing h := by
  constructor
  · intro hgrowing
    refine ⟨hgrowing w v (List.mem_cons_self ..), fun x y hmem => ?_⟩
    exact hgrowing x y (List.mem_cons_of_mem _ hmem)
  · rintro ⟨hturn, hrest⟩ x y hmem
    rcases List.mem_cons.mp hmem with heq | hmem
    · cases heq
      exact hturn
    · exact hrest x y hmem

/-! ### Executions one after the other -/

theorem Annals.append (hl : Annals ordered a s w h t v) (hr : Annals ordered a t v g r u) :
    Annals ordered a s w (h ++ g) r u := by
  induction hl with
  | run hrun =>
      cases hr with
      | run hrun' => exact .run (hrun.append hrun')
      | again hrun' hrest =>
          rw [← List.append_assoc]
          exact .again (hrun.append hrun') hrest
  | again hrun _ ih =>
      rw [List.append_assoc, List.cons_append]
      exact .again hrun (ih hr)

/-- A turn in the annals is one of the activity as the annals before it have left it. -/
theorem Annals.of_mem {m : Mark} (hannals : Annals ordered a s w h t v)
    (hmem : .own m way x y ∈ h) :
    ∃ h₁ h₂ r r', h = h₁ ++ .own m way x y :: h₂ ∧ Annals ordered a s w h₁ r x ∧
      Move ordered m way r x r' y := by
  induction hannals with
  | run hrun =>
      obtain ⟨h₁, h₂, rfl⟩ := List.append_of_mem hmem
      obtain ⟨r, z, hbefore, hafter⟩ := hrun.split
      cases hafter with
      | own hmove => exact ⟨h₁, h₂, r, _, rfl, .run hbefore, hmove⟩
  | @again s t o w v z u h g hrun _ ih =>
      rcases List.mem_append.mp hmem with hfirst | hrest
      · obtain ⟨h₁, h₂, rfl⟩ := List.append_of_mem hfirst
        obtain ⟨r, z', hbefore, hafter⟩ := hrun.split
        cases hafter with
        | own hmove =>
            refine ⟨h₁, h₂ ++ .other v z :: g, r, _, ?_, .run hbefore, hmove⟩
            rw [List.append_assoc, List.cons_append]
      · have hrest := (List.mem_cons.mp hrest).resolve_left nofun
        obtain ⟨h₁, h₂, r, r', rfl, hbefore, hmove⟩ := ih hrest
        refine ⟨h ++ .other v z :: h₁, h₂, r, r', ?_, .again hrun hbefore, hmove⟩
        rw [List.append_assoc, List.cons_append]

/-- A state is reached in an execution of the activity. -/
def Reached (ordered : Prop) (a s : Marked) (v : World) : Prop :=
  ∃ w h, Growing h ∧ Run ordered a w h s v

theorem Reached.run (hs : Reached ordered a s w) (hgrowing : Growing h)
    (hrun : Run ordered s w h t v) : Reached ordered a t v := by
  obtain ⟨x, g, hbefore, hreached⟩ := hs
  exact ⟨x, g ++ h, growing_append.mpr ⟨hbefore, hgrowing⟩, hreached.append hrun⟩

/-- The annals lead from one state of an execution to another one, maybe of another execution. -/
theorem Annals.reached (hannals : Annals ordered a s w h t v) (hgrowing : Growing h)
    (hs : Reached ordered a s w) : Reached ordered a t v := by
  induction hannals with
  | run hrun => exact hs.run hgrowing hrun
  | again _ _ ih =>
      exact ih (growing_other.mp (growing_append.mp hgrowing).2).2 ⟨_, [], growing_nil, .stop⟩

section

variable (hpools : Throughout OpensNone pools a.plain)
include hpools

/-- In an execution no pool is opened. -/
theorem Reached.grows (hs : Reached ordered a s w) (hgrowing : Growing h)
    (hrun : Run ordered s w h t v) : Grows (h.map Turn.plain) := by
  obtain ⟨x, g, _, hreached⟩ := hs
  exact hrun.plain.grows (hpools.run hreached.plain) hgrowing

/-- **A pool that is closed stays closed**, in this execution and in all later ones. -/
theorem Annals.stays_closed (hannals : Annals ordered a s w h t v) (hgrowing : Growing h)
    (hs : Reached ordered a s w) {p : Pool} (hclosed : w.isClosed p = true) :
    v.isClosed p = true := by
  have hstays {s t : Marked} {w v : World} {h : List Turn} (hs : Reached ordered a s w)
      (hgrowing : Growing h) (hrun : Run ordered s w h t v) (hclosed : w.isClosed p = true) :
      v.isClosed p = true := by
    have hbarred : Barred (· = p) w := ⟨p, rfl, hclosed⟩
    obtain ⟨_, rfl, hstill⟩ := hrun.plain.barred (hs.grows hpools hgrowing hrun) hbarred
    exact hstill
  induction hannals with
  | run hrun => exact hstays hs hgrowing hrun hclosed
  | again hrun _ ih =>
      obtain ⟨hfirst, hrest⟩ := growing_append.mp hgrowing
      obtain ⟨hturn, hrest⟩ := growing_other.mp hrest
      exact ih hrest ⟨_, [], growing_nil, .stop⟩ (hturn p (hstays hs hfirst hrun hclosed))

variable (ha : SingleUse ordered True q S a.plain)
include ha

/-- If one of the pools is closed at the beginning of an execution, the split is not under way in this one or in
a later one. -/
theorem Annals.barred (hannals : Annals ordered a s w h t v) (hs : s = a) (hgrowing : Growing h)
    (hbarred : Barred S w) : ¬ Live q t.plain := by
  have hstart (x : World) : Reached ordered a a x := ⟨x, [], growing_nil, .stop⟩
  induction hannals with
  | run hrun =>
      subst hs
      exact ha.barred hrun.plain ((hstart _).grows hpools hgrowing hrun) hbarred
  | again hrun _ ih =>
      subst hs
      obtain ⟨hgrowing₁, hgrowing₂⟩ := growing_append.mp hgrowing
      obtain ⟨hturn, hgrowing₂⟩ := growing_other.mp hgrowing₂
      obtain ⟨p, hp, hclosed⟩ :=
        hrun.plain.barred ((hstart _).grows hpools hgrowing₁ hrun) hbarred
      exact ih rfl hgrowing₂ ⟨p, hp, hturn p hclosed⟩

/-- When an execution ends after the split has been under way, one of the pools is closed. -/
theorem Reached.seals {o : Outcome} (hs : Reached ordered a s w) (hlive : Live q s.plain)
    (hgrowing : Growing h) (hrun : Run ordered s w h (.done o) v) : Barred S v := by
  have hgrows := hs.grows hpools hgrowing hrun
  obtain ⟨x, g, hbefore, hreached⟩ := hs
  have hstart : Reached ordered a a x := ⟨x, [], growing_nil, .stop⟩
  exact ha.seals trivial hreached.plain hrun.plain (hstart.grows hpools hbefore hreached) hgrows hlive

/-- **A split that has been under way and is not any more** is never under way again, in this execution or in a
later one. -/
theorem Annals.once (hs : Reached ordered a s w) (hlive : Live q s.plain)
    (hfirst : Annals ordered a s w h t v) (hgrowing : Growing h) (hnot : ¬ Live q t.plain)
    (hsecond : Annals ordered a t v g r u) (hgrowing' : Growing g) : ¬ Live q r.plain := by
  have hstart (x : World) : Reached ordered a a x := ⟨x, [], growing_nil, .stop⟩
  cases hfirst with
  | run hrun₁ =>
      have ht := hs.run hgrowing hrun₁
      have hgrows₁ := hs.grows hpools hgrowing hrun₁
      cases hsecond with
      | run hrun₂ =>
          have hgrows₂ := ht.grows hpools hgrowing' hrun₂
          obtain ⟨x, k, hbefore, hreached⟩ := hs
          exact ha.once hreached.plain hrun₁.plain hrun₂.plain
            ((hstart x).grows hpools hbefore hreached) hgrows₁ hgrows₂ hlive hnot
      | again hrun₂ hrest =>
          obtain ⟨hgrowing₂, hgrowing₃⟩ := growing_append.mp hgrowing'
          obtain ⟨hturn, hgrowing₃⟩ := growing_other.mp hgrowing₃
          have hwhole := growing_append.mpr ⟨hgrowing, hgrowing₂⟩
          obtain ⟨p, hp, hclosed⟩ := hs.seals hpools ha hlive hwhole (hrun₁.append hrun₂)
          exact hrest.barred hpools ha rfl hgrowing₃ ⟨p, hp, hturn p hclosed⟩
  | again hrun₁ hrest =>
      obtain ⟨hgrowing₁, hgrowing₂⟩ := growing_append.mp hgrowing
      obtain ⟨hturn, hgrowing₂⟩ := growing_other.mp hgrowing₂
      obtain ⟨p, hp, hclosed⟩ := hs.seals hpools ha hlive hgrowing₁ hrun₁
      have hafter := growing_append.mpr ⟨hgrowing₂, hgrowing'⟩
      exact (hrest.append hsecond).barred hpools ha rfl hafter ⟨p, hp, hturn p hclosed⟩

/-- **A split begins at most once**, in all executions together. -/
theorem Annals.splits_once {m : Mark} (hs : Reached ordered a s w)
    (hmove : Move ordered m way s w t v) (hsplits : Splits ordered q way s.plain w t.plain v)
    (hannals : Annals ordered a t v g r u) (hgrowing : Growing g) {m' : Mark} {t' : Marked}
    (hmove' : Move ordered m' way' r u t' x) : ¬ Splits ordered q way' r.plain u t'.plain x := by
  intro hagain
  have ht : Reached ordered a t v := hs.run growing_own (.own hmove .stop)
  have hr := hannals.reached hgrowing ht
  by_cases hlive : Live q r.plain
  · have hstart (z : World) : Reached ordered a a z := ⟨z, [], growing_nil, .stop⟩
    obtain ⟨z, k, hbefore, hreached⟩ := hr
    exact ha.alone hreached.plain ((hstart z).grows hpools hbefore hreached) hagain hlive
  · have hlast : Annals ordered a r u [.own m' way' u x] t' x := .run (.own hmove' .stop)
    exact Annals.once hpools ha ht hsplits.live hannals hgrowing hlive hlast growing_own hagain.live

/-- After such a stretch no unit below the split acts any more. -/
theorem Annals.no_unit (hs : Reached ordered a s w) (hlive : Live q s.plain)
    (hfirst : Annals ordered a s w h t v) (hgrowing : Growing h) (hnot : ¬ Live q t.plain)
    (hsecond : Annals ordered a t v g r u) (hgrowing' : Growing g) :
    ∀ turn ∈ g, ¬ turn.plain.Through q := by
  rintro (⟨m, way, x, y⟩ | ⟨x, y⟩ | _) hmem hthrough
  · obtain ⟨i, hi⟩ := hthrough
    obtain ⟨g₁, g₂, p, p', rfl, hbefore, hmove⟩ := hsecond.of_mem hmem
    have hgrowing₁ := (growing_append.mp hgrowing').1
    exact Annals.once hpools ha hs hlive hfirst hgrowing hnot hbefore hgrowing₁ (hmove.plain.live hi)
  · exact hthrough
  · exact hthrough

end

/-- On a closed pool the beginning of a batch is its end: it fails in its first turn, which changes nothing. -/
theorem Left.refused {e : Evaluator} {m : Mark} {inner : Way} {b c : Marked}
    (hleft : Left ordered e q .batch b) (hmove : Move ordered m inner b u c x)
    (hclosed : u.isClosed q = true) : c = .done (.error .poolShutdown) ∧ x = u ∧ inner = [] := by
  cases hleft with
  | guard hpiece => cases hpiece
  | batch =>
      cases hmove
      exact ⟨if_pos hclosed, rfl, rfl⟩

/-- **The pool of a parallel flow serves once** in all executions of an activity together. -/
structure ServesOnce (ordered : Prop) (e : Evaluator) (q : Pool) (a : Marked) : Prop where
  /-- A batch begins at most once. -/
  one {w v u x y : World} {h g : List Turn} {s t r p : Marked} {m m' : Mark} {way way' : Way} :
    Annals ordered a a w h s v → Growing h → Move ordered m way s v t u →
    Splits ordered q way s.plain v t.plain u → Annals ordered a t u g r x → Growing g →
    Move ordered m' way' r x p y → ¬ Splits ordered q way' r.plain x p.plain y
  /-- When a batch is over or given up, it is not under way again, and none of its units acts. -/
  gone {w v u x : World} {h g k : List Turn} {s t r : Marked} : Annals ordered a a w h s v →
    Growing h → Live q s.plain → Annals ordered a s v g t u → Growing g → ¬ Live q t.plain →
    Annals ordered a t u k r x → Growing k →
    ¬ Live q r.plain ∧ ∀ turn ∈ k, ¬ turn.plain.Through q
  /-- A pool that is closed stays closed. -/
  stays {w v u : World} {h g : List Turn} {s t : Marked} : Annals ordered a a w h s v → Growing h →
    Annals ordered a s v g t u → Growing g → ∀ p, v.isClosed p = true → u.isClosed p = true
  /-- When the pool is closed, the parallel flow fails whenever it is executed, and does nothing else. -/
  refused {w v u x : World} {h g : List Turn} {s t r b c : Marked} {m : Mark} {path inner : Way} :
    Annals ordered a a w h s v → Growing h → v.isClosed q = true → Annals ordered a s v g t u →
    Growing g → Left ordered e q .batch b → Works ordered m inner b u c x path t r →
    c = .done (.error .poolShutdown) ∧ x = u ∧ inner = []

/-- What has a single use of a split and opens no pools, uses the pool of the split once. -/
theorem serves_once (e : Evaluator) (hpools : Throughout OpensNone pools a.plain)
    (ha : SingleUse ordered True q S a.plain) : ServesOnce ordered e q a := by
  have hreached {s : Marked} {w v : World} {h : List Turn} (hannals : Annals ordered a a w h s v)
      (hgrowing : Growing h) : Reached ordered a s v :=
    hannals.reached hgrowing ⟨w, [], growing_nil, .stop⟩
  constructor
  case one =>
    intro w v u x y h g s t r p m m' way way' hbefore hgrowing hmove hsplits hafter hgrowing' hmove'
    exact hafter.splits_once hpools ha (hreached hbefore hgrowing) hmove hsplits hgrowing' hmove'
  case gone =>
    intro w v u x h g k s t r hbefore hgrowing hlive hfirst hgrowing₁ hnot hsecond hgrowing₂
    have hs := hreached hbefore hgrowing
    exact ⟨hfirst.once hpools ha hs hlive hgrowing₁ hnot hsecond hgrowing₂,
      hfirst.no_unit hpools ha hs hlive hgrowing₁ hnot hsecond hgrowing₂⟩
  case stays =>
    intro w v u h g s t hbefore hgrowing hafter hgrowing' p hclosed
    exact hafter.stays_closed hpools hgrowing' (hreached hbefore hgrowing) hclosed
  case refused =>
    intro w v u x h g s t r b c m path inner hbefore hgrowing hclosed hafter hgrowing' hleft hworks
    have hstill := hafter.stays_closed hpools hgrowing' (hreached hbefore hgrowing) hclosed
    exact hleft.refused hworks.base hstill

end Marked

open Marked

section

open Activity

variable {ordered : Prop} {e : Evaluator} {patience : Nat} {q : Pool} {name : String}
variable {threads limit : Nat} {steps : List Step} {brief : Brief} {c : Activity} {w v : World}
variable {h : List Activity.Turn}

/-- **When a parallel flow has returned, its pool is closed**: with a report or a fault, and also if it has no
units. -/
theorem Flow.parallel_closes {o : Outcome}
    (hrun : Activity.Run ordered ((Flow.parallel name threads limit steps).work e patience q brief) w h
      (.done o) v) (hothers : OthersGrow h) : v.isClosed q = true := by
  have hkept : Kept (fun w => w.isClosed q = true) h := fun w v hmem hclosed => hothers w v hmem q hclosed
  rw [Flow.work] at hrun
  rcases hrun.of_batch with ⟨⟨_, _, hc⟩, _⟩ | ⟨h₁, x, h₂, rfl, _, _, hclosed, hend⟩ |
    ⟨h₁, x, h₂, y, h₃, rfl, _, _, _, _, _, _, _, hfork⟩
  · cases hc
  · have hidle := hend.of_done.2
    exact hend.kept_idle hidle (kept_append.mp hkept).2.tail hclosed
  · rcases hfork.of_fork with ⟨_, _, hc, _⟩ | ⟨g₁, g₂, _, _, _, _, rfl, _, _, hend⟩
    · cases hc
    · rcases hend.of_conclude with ⟨_, _, hc⟩ | ⟨_, _, _, hcloses⟩
      · cases hc
      · exact hcloses (kept_append.mp (kept_append.mp hkept).2).2.tail

/-- **On a closed pool a parallel flow fails**, in its only turn, which changes nothing. -/
theorem Flow.parallel_refused
    (hrun : Activity.Run ordered ((Flow.parallel name threads limit steps).work e patience q brief) w h c v)
    (hothers : OthersGrow h) (hclosed : w.isClosed q = true) :
    (c = (Flow.parallel name threads limit steps).work e patience q brief ∧ Idle h) ∨
      (c = fail .poolShutdown ∧ ∃ h₁ x h₂, h = h₁ ++ .own [] x x :: h₂ ∧ Idle h₁ ∧ Idle h₂) := by
  have hkept : Kept (fun w => w.isClosed q = true) h := fun w v hmem hclosed => hothers w v hmem q hclosed
  rw [Flow.work] at hrun ⊢
  rcases hrun.of_act with hwaits | ⟨h₁, h₂, x, rfl, hidle₁, hbefore, hafter⟩
  · exact Or.inl hwaits
  · have hstill : x.isClosed q = true := hbefore.kept_idle hidle₁ (kept_append.mp hkept).1 hclosed
    rw [if_pos hstill] at hafter
    obtain ⟨hc, hidle₂⟩ := hafter.of_done
    exact Or.inr ⟨hc, h₁, x, h₂, rfl, hidle₁, hidle₂⟩

end

/-- **Pools serve once, over whole histories.**  Take any number of executions of a flow, one after the other, on
any contexts, whatever turns its branches take and whatever else goes on beside them, and the pool of any
parallel flow in it:

* at most one batch ever begins on the pool; when it is over or given up, none of its units acts again; a
  pool that is closed stays closed; and then each execution of the parallel flow fails in a turn that
  changes nothing;
* when the parallel flow has returned, the pool is closed; and on a closed pool the parallel flow has no turn
  but the one in which it fails.

What `run` computes, on a world that begins anew, is an execution on the same closed pools. -/
theorem pool_serves_once {f : Flow} {e : Evaluator} {q : Pool}
    (hleaf : f.Every (Executable.Leaf e q) fun _ => True) (ordered : Prop) (patience : Nat)
    (place : Pool) (brief : Brief) :
    ServesOnce ordered e q (f.marked e patience place brief) ∧
    (∀ {name threads limit steps brief w h o v},
      Activity.Run ordered ((Flow.parallel name threads limit steps).work e patience q brief) w h
        (.done o) v → OthersGrow h → v.isClosed q = true) ∧
    (∀ {name threads limit steps brief w h c v},
      Activity.Run ordered ((Flow.parallel name threads limit steps).work e patience q brief) w h c v →
      OthersGrow h → w.isClosed q = true →
      (c = (Flow.parallel name threads limit steps).work e patience q brief ∧ Idle h) ∨
        (c = Activity.fail .poolShutdown ∧
          ∃ h₁ x h₂, h = h₁ ++ .own [] x x :: h₂ ∧ Idle h₁ ∧ Idle h₂)) ∧
    ∀ {w v : World} {o : Outcome}, w.run (f.work e patience place brief) = some (o, v) →
      (∀ p, w.renew.isClosed p = w.isClosed p) ∧ ∃ h, (∀ x y, Turn.other x y ∉ h) ∧
        Run True (f.marked e patience place brief) w.renew h (.done o) v := by
  refine ⟨?_, Flow.parallel_closes, Flow.parallel_refused, fun hrun => ⟨fun _ => rfl, ?_⟩⟩
  · obtain ⟨S, hS⟩ := Flow.work_uses ordered patience q f hleaf place brief
    have hpools : Throughout OpensNone (fun _ => True) (f.work e patience place brief) :=
      Flow.work_throughout (suits_opensNone fun _ _ => trivial) f hleaf (fun _ _ => trivial) brief
    rw [← Flow.plain_marked] at hS hpools
    exact serves_once e hpools hS
  · rw [World.run, ← Flow.plain_marked] at hrun
    exact Run.of_run hrun

/-- The task that makes an entry. -/
private def counting : Executable where
  name := "count"
  behave _ b := .instant fun w => (.completed, w.record "log" b.label "done")

/-- A parallel flow that is to be repeated. -/
private def again : Flow :=
  .repetition "again" (.times 2) (.mk {} (.parallel "once" 1 0 [.mk {} (.task counting)]))

/-- The second repetition fails, and so does the first one of the next execution, in which the unit does not
act. -/
theorem pool_serves_once_again :
    ServesOnce False (.standard {}) [0] (again.marked (.standard {}) 0 [] ⟨"again", none, []⟩) ∧
      ∃ v u, World.run {} (again.work (.standard {}) 0 [] ⟨"again", none, []⟩) =
          some (.error .poolShutdown, v) ∧
        v.entries = [⟨0, "log", "count", "done"⟩] ∧
        v.run (again.work (.standard {}) 0 [] ⟨"again", none, []⟩) =
          some (.error .poolShutdown, u) ∧ u.entries = [] := by
  have hcounting : counting.Leaf (.standard {}) [0] := fun b => .act (fun _ _ hclosed => hclosed) fun _ => .done
  have hleaf : again.Every (Executable.Leaf (.standard {}) [0]) fun _ => True := by
    simp [again, Flow.Every, Step.Every, Flow.EveryStep, Repetition.Every, hcounting]
  exact ⟨(pool_serves_once hleaf False 0 [] _).1, _, _, rfl, rfl, rfl, rfl⟩

end Runsheet
