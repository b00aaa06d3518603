import Runsheet.Proofs.Schedule
import Runsheet.Proofs.SingleUse

/-!
# Nothing outlives its split

What a unit of a parallel flow does, it does while the split of the flow is under way.  `Through q`
are the turns of the units below the parallel flow with the pool `q`: a permit that a branch of it
asks for, gets or gives back, and every move inside such a branch, with all entries and all changes of
the context.

* `Flow.work_uses` — along the tree of a flow, every split is used once;
* `Flow.work_contained` — the result: a unit acts only while its split is under way; a split that is
  over or given up, because a fault is read, by a limit or by the end of a split around it, is never under
  way again; no time passes between the fault of a branch and the end of the split; and after the end of
  the flow nothing happens.
-/

namespace Runsheet

namespace Activity

variable {ordered sealed : Prop} {way : Way} {a b c d : Activity} {w v u x : World}
variable {h g : List Turn} {q : Pool} {S : Pool → Prop}

/-- The turn is one of a unit below the parallel flow with the pool. -/
def Turn.Through (q : Pool) : Turn → Prop
  | .own way _ _ => ∃ i, (q, i) ∈ way
  | _ => False

/-- The turns of others open no pool that is closed. -/
def OthersGrow (h : List Turn) : Prop :=
  ∀ w v, .other w v ∈ h → ∀ p, w.isClosed p = true → v.isClosed p = true

/-- Nothing happens any more: no branch of the split gets a permit or moves, and the split is not under
way. -/
def Gone (ordered : Prop) (q : Pool) (a : Activity) (w : World) : Prop :=
  ∀ h b v, Run ordered a w h b v → OthersGrow h → ¬ Live q b ∧ ∀ t ∈ h, ¬ t.Through q

/-- **Structured cancellation** of the split on a pool, along every run of an activity. -/
structure Contained (ordered : Prop) (q : Pool) (a : Activity) : Prop where
  /-- A unit acts only while its split is under way. -/
  live {w : World} {h : List Turn} {b : Activity} {v : World} {way : Way} {c : Activity} {u : World}
    {i : Nat} : Run ordered a w h b v → Move ordered way b v c u → (q, i) ∈ way → Live q b
  /-- A split that was under way and is not under way any more is gone. -/
  gone {w : World} {h : List Turn} {b : Activity} {v : World} {g : List Turn} {c : Activity}
    {u : World} : Run ordered a w h b v → Run ordered b v g c u → OthersGrow (h ++ g) →
    Live q b → ¬ Live q c → Gone ordered q c u
  /-- When a branch has faulted, its split is over before time passes. -/
  prompt {w : World} {h : List Turn} {b : Activity} {v : World} {g : List Turn} {c : Activity}
    {u : World} : Run ordered a w h b v → Run ordered b v g c u → OthersGrow (h ++ g) →
    Outlasting q b → Live q c → ticks g = 0
  /-- After the end nothing happens. -/
  done {w : World} {h : List Turn} {o : Outcome} {v : World} {g : List Turn} {c : Activity}
    {u : World} : Run ordered a w h (.done o) v → Run ordered (.done o) v g c u →
    c = .done o ∧ Idle g

/-- A change that opens no pool. -/
def OpensNone (f : World → World) (_ : World → Activity) : Prop :=
  ∀ w p, w.isClosed p = true → (f w).isClosed p = true

/-! ### From a single use to cancellation -/

theorem othersGrow_append : OthersGrow (h ++ g) ↔ OthersGrow h ∧ OthersGrow g :=
  forall_other_append

/-- An activity that opens no pool leaves histories in which no pool is opened. -/
theorem Run.grows {pools : Pool → Prop} (hrun : Run ordered a w h b v)
    (ha : Throughout OpensNone pools a) (hothers : OthersGrow h) : Grows h := by
  intro t ht
  rcases t with ⟨way, w, v⟩ | ⟨w, v⟩ | _
  · exact ha.own_turns (R := fun w v => ∀ p, w.isClosed p = true → v.isClosed p = true)
      (fun f next hf w => hf w) (fun w p hclosed => hclosed) hrun way w v ht
  · exact hothers w v ht
  · trivial

theorem Gone.of_not_live (hnever : ∀ {h b v}, Run ordered a w h b v → OthersGrow h → ¬ Live q b) :
    Gone ordered q a w := by
  intro h b v hrun hothers
  refine ⟨hnever hrun hothers, fun t ht hthrough => ?_⟩
  rcases t with ⟨way, x, y⟩ | ⟨x, y⟩ | _
  · obtain ⟨i, hi⟩ := hthrough
    obtain ⟨h₁, h₂, rfl⟩ := List.append_of_mem ht
    obtain ⟨c, d, hbefore, hmove, _⟩ := hrun.split_own
    exact hnever hbefore (othersGrow_append.mp hothers).1 (hmove.live hi)
  · exact hthrough
  · exact hthrough

/-- A single use of a split is a contained one. -/
theorem SingleUse.contained {pools : Pool → Prop} (ha : SingleUse ordered sealed q S a)
    (hpools : Throughout OpensNone pools a) : Contained ordered q a where
  live _ hmove hway := hmove.live hway
  gone hrun₁ hrun₂ hothers hlive hnot := by
    have hgrows := grows_append.mp ((hrun₁.append hrun₂).grows hpools hothers)
    refine .of_not_live fun hrun₃ hothers₃ => ?_
    have hafter := (hpools.run hrun₁).run hrun₂
    exact ha.once hrun₁ hrun₂ hrun₃ hgrows.1 hgrows.2 (hrun₃.grows hafter hothers₃) hlive hnot
  prompt hrun₁ hrun₂ hothers hout hlive := by
    have hgrows := grows_append.mp ((hrun₁.append hrun₂).grows hpools hothers)
    exact ha.prompt hrun₁ hrun₂ hgrows.1 hgrows.2 hout hlive
  done _ hrun := hrun.of_done

end Activity

open Activity

/-! ### Along the tree of a flow -/

/-- The executable is no parallel flow with the pool: it does not split on it, and opens no pool that is
closed. -/
def Executable.Leaf (e : Evaluator) (q : Pool) (x : Executable) : Prop :=
  ∀ brief, Throughout OpensNone (· ≠ q) (x.behave e brief)

section

variable {ordered : Prop} {e : Evaluator} {patience : Nat} {q place : Pool}

theorem fits_opensNone (pools : Pool → Prop) : Fits OpensNone pools where
  bind _ hf := hf
  note _ _ _ _ _ hclosed := hclosed
  pause _ _ _ hclosed := hclosed
  enter _ _ _ _ _ hclosed := hclosed
  leave _ _ _ w p hclosed := by
    simp only [World.isClosed, World.close, World.note, List.contains_cons] at hclosed ⊢
    rw [hclosed, Bool.or_true]

/-- A flow whose executables do not split on a pool opens no pool that is closed. -/
theorem suits_opensNone {pools : Pool → Prop} (hpools : ∀ p, p ≠ q → pools p) :
    Suits OpensNone pools e (Executable.Leaf e q) (fun _ => True) fun _ => True where
  fits := fits_opensNone pools
  behave brief hx := (hx brief).mono hpools
  look _ _ _ _ hclosed := hclosed
  test _ _ _ _ _ hclosed := hclosed

/-- Two parts of a flow do not both hold the place of one split. -/
theorem below_or_below (q place : Pool) {i j : Nat} (hij : i ≠ j) :
    Below (· ≠ q) (i :: place) ∨ Below (· ≠ q) (j :: place) := by
  by_cases hi : (i :: place) <:+ q
  · refine Or.inr fun p hj hq => ?_
    subst hq
    exact hij (place_unique hi hj)
  · exact Or.inl fun p hp hq => hi (hq ▸ hp)

theorem below_or_belowFrom (q place : Pool) (index : Nat) :
    Below (· ≠ q) (index :: place) ∨ BelowFrom (· ≠ q) place (index + 1) := by
  by_cases hfirst : Below (· ≠ q) (index :: place)
  · exact Or.inl hfirst
  · refine Or.inr fun i hi => ?_
    exact (below_or_below q place (by omega : index ≠ i)).resolve_left hfirst

theorem Flow.work_never (f : Flow) (hf : f.Every (Executable.Leaf e q) fun _ => True)
    (hplace : Below (· ≠ q) place) (brief : Brief) :
    Never ordered q (f.work e patience place brief) :=
  .of_throughout (Flow.work_throughout (suits_opensNone fun _ => id) f hf hplace brief)

theorem Step.work_never (step : Step) (hstep : step.Every (Executable.Leaf e q) fun _ => True)
    (hplace : Below (· ≠ q) place) : Never ordered q (step.work e patience place) :=
  .of_throughout (Step.work_throughout (suits_opensNone fun _ => id) step hstep hplace)

theorem Flow.otherwiseWork_never (otherwise : Option Step)
    (hotherwise : Flow.EveryOption (Executable.Leaf e q) (fun _ => True) (fun _ => True) otherwise)
    (hplace : Below (· ≠ q) place) (name : String) (r : Report) :
    Never ordered q (Flow.otherwiseWork e patience name r place otherwise) := by
  cases otherwise with
  | none => exact .done
  | some step =>
      exact .of_throughout (.note (fits_opensNone _)
        (Step.work_throughout (suits_opensNone fun _ => id) step hotherwise hplace))

theorem Flow.sequenceWork_never (steps : List Step)
    (hsteps : Flow.EveryStep (Executable.Leaf e q) (fun _ => True) (fun _ => True) steps) {index : Nat}
    (hplace : BelowFrom (· ≠ q) place index) (name : String) (scope : SequenceScope)
    (last : Option Report) :
    Never ordered q (Flow.sequenceWork e patience name scope last place index steps) :=
  .of_throughout (Flow.sequenceWork_throughout (suits_opensNone fun _ => id) steps hsteps hplace name
    scope last)

theorem Flow.branchWorks_never (steps : List Step)
    (hsteps : Flow.EveryStep (Executable.Leaf e q) (fun _ => True) (fun _ => True) steps) {limit index : Nat}
    (hplace : BelowFrom (· ≠ q) place index) :
    ∀ a ∈ Flow.branchWorks e patience limit place index steps, Never ordered q a :=
  fun a ha => .of_throughout (Flow.branchWorks_throughout (suits_opensNone fun _ => id) steps hsteps
    hplace a ha)

theorem Flow.branchWork_never (steps : List Step)
    (hsteps : Flow.EveryStep (Executable.Leaf e q) (fun _ => True) (fun _ => True) steps) {limit i : Nat}
    {a : Activity} (hplace : Below (· ≠ q) (i :: place))
    (ha : (Flow.branchWorks e patience limit place 0 steps)[i]? = some a) : Never ordered q a := by
  obtain ⟨step, hstep, rfl⟩ := Flow.step_of_branchWorks e patience ha
  have hparts : Suits OpensNone (· ≠ q) e (Executable.Leaf e q) (fun _ => True) fun _ => True :=
    suits_opensNone fun _ => id
  exact .of_throughout (.branch hparts.fits (hparts.look trivial)
    (Step.work_throughout hparts step (Flow.everyStep_getElem? hsteps hstep) hplace))

/-- If of two things each has a set of pools, and one of them has every set, they have one in common. -/
private theorem exists_both {A B : (Pool → Prop) → Prop} (hA : ∃ S, A S) (hB : ∃ S, B S)
    (hone : (∀ S, A S) ∨ ∀ S, B S) : ∃ S, A S ∧ B S := by
  obtain ⟨S, hS⟩ := hA
  obtain ⟨T, hT⟩ := hB
  rcases hone with hall | hall
  · exact ⟨T, hall T, hT⟩
  · exact ⟨S, hS, hall S⟩

variable (ordered patience q)

mutual

/-- **Every split of a flow is used once.** -/
theorem Flow.work_uses (f : Flow) (hf : f.Every (Executable.Leaf e q) fun _ => True)
    (place : Pool) (brief : Brief) :
    ∃ S, SingleUse ordered True q S (f.work e patience place brief) := by
  match f with
  | .task x => exact ⟨fun _ => False, (Never.of_throughout (hf brief)).singleUse⟩
  | .sequence name scope steps =>
      obtain ⟨S, hS⟩ := Flow.sequenceWork_uses steps hf name scope place 0
      exact ⟨S, hS none⟩
  | .parallel name threads limit branches =>
      by_cases hself : place = q
      · -- No branch knows the split of the flow itself.
        have hparts : BelowFrom (· ≠ q) place 0 := hself ▸ belowFrom_self place 0
        have hnever : ∀ a ∈ Flow.branchWorks e patience limit place 0 branches,
            Never ordered q a := Flow.branchWorks_never branches hf hparts
        exact ⟨_, .batch (S := fun _ => False)
          ⟨fun a ha => (hnever a ha).singleUse,
            fun ha _ _ => Or.inl (hnever _ (List.mem_of_getElem? ha)), fun _ => ⟨nofun, hnever⟩⟩⟩
      · obtain ⟨S, hS⟩ := Flow.branchWorks_uses branches hf limit place 0
        refine ⟨_, .batch ⟨hS, fun {i j a b} ha hb hij => ?_,
          fun heq => (hself heq).elim⟩⟩
        rcases below_or_below q place hij with hi | hj
        · exact Or.inl (Flow.branchWork_never branches hf hi ha)
        · exact Or.inr (Flow.branchWork_never branches hf hj hb)
  | .repetition name mode (.mk s flow) =>
      obtain ⟨S, hS⟩ := Flow.work_uses flow hf.2.2 (0 :: place) (Step.mk s flow).brief
      refine ⟨S, .check fun b => ?_⟩
      cases b with
      | false => exact .note .done
      | true => exact hS.delayed.rounds _
  | .choice name initial predicate held otherwise =>
      obtain ⟨S, hfirst, hheld, hotherwise⟩ := exists_both
        (Step.work_uses initial hf.2.1 (0 :: place))
        (exists_both (Step.work_uses held hf.2.2.1 (1 :: place))
          (Flow.otherwiseWork_uses otherwise hf.2.2.2 name (2 :: place)) <| by
            rcases below_or_below q place (by decide : 1 ≠ 2) with hi | hj
            · exact Or.inl fun S => (Step.work_never held hf.2.2.1 hi).singleUse
            · exact Or.inr fun S r =>
                (Flow.otherwiseWork_never otherwise hf.2.2.2 hj name r).singleUse) <| by
          rcases below_or_belowFrom q place 0 with hi | hlater
          · exact Or.inl fun S => (Step.work_never initial hf.2.1 hi).singleUse
          · refine Or.inr fun S => ⟨(Step.work_never held hf.2.2.1 hlater.part).singleUse, fun r => ?_⟩
            exact (Flow.otherwiseWork_never otherwise hf.2.2.2 hlater.rest.part name r).singleUse
      refine ⟨S, hfirst.onReport fun r => .act fun w => ?_⟩
      split
      · exact hheld.note
      · exact hotherwise r

theorem Flow.otherwiseWork_uses (otherwise : Option Step)
    (hotherwise : Flow.EveryOption (Executable.Leaf e q) (fun _ => True) (fun _ => True) otherwise) (name : String)
    (place : Pool) :
    ∃ S, ∀ r, SingleUse ordered True q S
      (Flow.otherwiseWork e patience name r place otherwise) := by
  match otherwise with
  | none => exact ⟨fun _ => False, fun r => .done⟩
  | some step =>
      obtain ⟨S, hS⟩ := Step.work_uses step hotherwise place
      exact ⟨S, fun r => hS.note⟩

theorem Flow.sequenceWork_uses (steps : List Step)
    (hsteps : Flow.EveryStep (Executable.Leaf e q) (fun _ => True) (fun _ => True) steps) (name : String)
    (scope : SequenceScope) (place : Pool) (index : Nat) :
    ∃ S, ∀ last, SingleUse ordered True q S
      (Flow.sequenceWork e patience name scope last place index steps) := by
  match steps with
  | [] => exact ⟨fun _ => False, fun _ => .done⟩
  | .mk s flow :: rest =>
      obtain ⟨S, hfirst, hrest⟩ := exists_both
        (Flow.work_uses flow hsteps.1.2 (index :: place) (Step.mk s flow).brief)
        (Flow.sequenceWork_uses rest hsteps.2 name scope place (index + 1)) <| by
          rcases below_or_belowFrom q place index with hi | hlater
          · exact Or.inl fun S => (Flow.work_never flow hsteps.1.2 hi _).singleUse
          · exact Or.inr fun S last =>
              (Flow.sequenceWork_never rest hsteps.2 hlater name scope last).singleUse
      refine ⟨S, fun last => .check fun b => ?_⟩
      cases b with
      | false =>
          cases scope with
          | block => exact .note .done
          | playbook => exact (hrest last).note
      | true =>
          refine hfirst.delayed.onReport fun r => ?_
          split
          · exact .note .done
          · exact (hrest (some r)).note

theorem Flow.branchWorks_uses (steps : List Step)
    (hsteps : Flow.EveryStep (Executable.Leaf e q) (fun _ => True) (fun _ => True) steps) (limit : Nat)
    (place : Pool) (index : Nat) :
    ∃ S, ∀ a ∈ Flow.branchWorks e patience limit place index steps,
      SingleUse ordered False q S a := by
  match steps with
  | [] => exact ⟨fun _ => False, by simp [Flow.branchWorks]⟩
  | .mk s flow :: rest =>
      obtain ⟨S, hfirst, hrest⟩ := exists_both
        (Flow.work_uses flow hsteps.1.2 (index :: place) (Step.mk s flow).brief)
        (Flow.branchWorks_uses rest hsteps.2 limit place (index + 1)) <| by
          rcases below_or_belowFrom q place index with hi | hlater
          · exact Or.inl fun S => (Flow.work_never flow hsteps.1.2 hi _).singleUse
          · exact Or.inr fun S a ha =>
              (Flow.branchWorks_never rest hsteps.2 hlater a ha).singleUse
      refine ⟨S, fun a ha => ?_⟩
      rcases List.mem_cons.mp ha with rfl | hmem
      · exact hfirst.delayed.branch
      · exact hrest a hmem

theorem Step.work_uses (step : Step) (hstep : step.Every (Executable.Leaf e q) fun _ => True)
    (place : Pool) : ∃ S, SingleUse ordered True q S (step.work e patience place) := by
  match step with
  | .mk s flow =>
      obtain ⟨S, hS⟩ := Flow.work_uses flow hstep.2 place (Step.mk s flow).brief
      exact ⟨S, hS.delayed⟩

end

end

section

variable {e : Evaluator} {q : Pool}

/-- **No work outlives its parallel flow.**  In every run of a flow, whatever turns its branches take and
whatever else goes on beside it, what the units below the parallel flow with the pool `q` do is
contained in its split: they act only while it is under way; once it has returned, or is given up
because the time of a flow around it runs out or because a flow around it ends, none of them acts or
begins again; and after the end of the flow nothing happens.  When a branch faults, the split ends before
time passes.  Until the fault is read the others go on, and one that has waited for the permit of that
branch may begin.  What `run` does is such a run, in which no one else has a turn. -/
theorem Flow.work_contained (ordered : Prop) (patience : Nat) (f : Flow) (place : Pool)
    (brief : Brief) (hleaf : f.Every (Executable.Leaf e q) fun _ => True) :
    Contained ordered q (f.work e patience place brief) ∧
      ∀ {fuel w o v}, run fuel (f.work e patience place brief) w = some (o, v) →
        ∃ h, Alone h ∧ Run True (f.work e patience place brief) w h (.done o) v := by
  obtain ⟨S, hS⟩ := Flow.work_uses ordered patience q f hleaf place brief
  have hpools : Throughout OpensNone (fun _ => True) (f.work e patience place brief) :=
    Flow.work_throughout (suits_opensNone fun _ _ => trivial) f hleaf (fun _ _ => trivial) brief
  exact ⟨hS.contained hpools, run_reaches⟩

/-- The executable that makes an entry after a number of milliseconds. -/
private def recording (ms : Nat) : Executable where
  name := "recording"
  behave _ b := .sleep ms fun _ =>
    .instant fun w => (.completed, w.record "log" b.label "done")

/-- The executable that faults after a number of milliseconds. -/
private def faulting (ms : Nat) : Executable where
  name := "faulting"
  behave _ _ := .sleep ms fun _ => fail (.taskFailed "faulting" "no more")

/-- Three branches on two permits: the first one faults, the second one waits for a parallel flow of its
own, and the third one for a permit. -/
private def nested : Flow :=
  .parallel "outer" 2 0 [.mk {} (.task (faulting 3)),
    .mk {} (.parallel "inner" 1 0 [.mk {} (.task (recording 2)), .mk {} (.task (recording 2))]),
    .mk {} (.task (recording 0))]

/-- The fault gives up the parallel flow within the second branch after its first entry.  Before it is
read, the third branch gets the permit of the first one and makes its entry. -/
theorem work_contained_nested :
    Contained False [1] (nested.work (.standard {}) 0 [] ⟨"nested", none, []⟩) ∧
      ∃ v, run 5 (nested.work (.standard {}) 0 [] ⟨"nested", none, []⟩) {} =
          some (.error (.branchFault 0 "Task 'faulting' failed: no more"), v) ∧
        v.now = 3 ∧
        v.entries = [⟨3, "log", "recording", "done"⟩, ⟨2, "log", "recording", "done"⟩] := by
  have hrecording (ms : Nat) : (recording ms).Leaf (.standard {}) [1] := fun b =>
    .sleep (fun _ _ hclosed => hclosed) fun _ => .act (fun _ _ hclosed => hclosed) fun _ => .done
  have hfaulting (ms : Nat) : (faulting ms).Leaf (.standard {}) [1] := fun b =>
    .sleep (fun _ _ hclosed => hclosed) fun _ => .done
  refine ⟨(Flow.work_contained False 0 nested [] _ ?_).1, _, rfl, rfl, rfl⟩
  simp [nested, Flow.Every, Step.Every, Flow.EveryStep, hrecording, hfaulting]

/-- **A branch that waits for a permit begins after the fault of another one.**  The first branch faults
and gives back the only permit.  The second one gets it and makes its entry before the fault is read. -/
theorem waiting_branch_begins_after_fault :
    ∃ v, run 5 (Flow.work (.standard {}) 0 [] ⟨"outer", none, []⟩
        (.parallel "outer" 1 0 [.mk {} (.task (faulting 3)), .mk {} (.task (recording 0))])) {} =
          some (.error (.branchFault 0 "Task 'faulting' failed: no more"), v) ∧
      v.entries = [⟨3, "log", "recording", "done"⟩] :=
  ⟨_, rfl, rfl⟩

end

end Runsheet
