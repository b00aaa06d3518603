import Runsheet.Proofs.Addresses
import Runsheet.Proofs.Attempts
import Runsheet.Proofs.Precedence

/-!
# Guards

Which steps have guards that count.  Sequences, parallel flows and repetitions attend to the guards of their
steps, at every attempt; a choice does not look at the guards of its own steps, and runs them whatever the
guards say.

* `Flow.marked_attends` — a flow attends to all steps whose guards are among its pieces;
* `Flow.choice_guardedBy` — a choice is the same with any guards;
* `guards_are_heeded_except_by_choices` — what comes of both for runs.
-/

namespace Runsheet

open Activity (Way)

namespace Marked

variable {e : Evaluator} {p : Post} {path : Way} {a : Stage} {m : Mark} {place pool : Pool} {i : Nat}
variable {t : Marked} {name label text : String}

/-! ### Attention, put together -/

/-- What has nothing to do with the step attends to it. -/
theorem Attends.apart (hs : Only p.Apart t) : Attends e p path a t :=
  .idle (hs.mono fun _ hm => Or.inl hm)

theorem Attends.outside (hm : ¬ p.place <:+ m.place) {f : World → World} {next : World → Marked}
    (hnext : ∀ b w, (m.place = p.around → path = [] → b = .fresh) → Attends e p path b (next w)) :
    Attends e p path a (.act m f next) := by
  choose b hb hfresh using fun w : World => Post.next_outside hm e path [] w (f w) a
  exact .act hb fun w => hnext (b w) w fun heq hpath => hfresh w heq hpath.symm

theorem Attends.note (hm : ¬ p.place <:+ m.place) {level : Level} (ht : ∀ b, Attends e p path b t) :
    Attends e p path a (note m level text t) :=
  .outside hm fun b _ _ => ht b

/-- The guard of another step. -/
theorem Attends.check (hplace : ¬ p.place <:+ place) {s : Settings} {next : Bool → Marked}
    (hnext : ∀ holds b, Attends e p path b (next holds)) :
    Attends e p path a (check place s e next) := by
  refine .outside hplace fun b w _ => ?_
  cases s.holds e w.context with
  | ok holds => exact hnext holds b
  | error error => exact .done

/-- The guard of the step itself. -/
theorem Attends.look {next : Bool → Marked} (hadmitted : Attends e p path .admitted (next true))
    (hrefused : Attends e p path .refused (next false)) :
    Attends e p path .fresh (Marked.check p.place p.settings e next) := by
  refine .act (fun w => .look rfl rfl) fun w => ?_
  cases p.settings.holds e w.context with
  | error error => exact .done
  | ok holds =>
      cases holds with
      | true => exact hadmitted
      | false => exact hrefused

/-- What follows a piece of work at the end of which the stage may be any. -/
theorem Attends.onReport {s : Marked} {k : Report → Marked} (hs : Attends e p path a s)
    (hk : ∀ b r, Attends e p path b (k r)) : Attends e p path a (s.onReport k) := by
  refine .last hs fun b o => ?_
  cases o with
  | error fault => exact .done
  | ok r => exact hk b r

/-- What follows a piece of work that keeps the stage. -/
theorem Attends.onKept {s : Marked} {k : Report → Marked} (hs : Only (p.Keeps a) s)
    (hk : ∀ r, Attends e p path a (k r)) : Attends e p path a (s.onReport k) := by
  refine .first hs fun o => ?_
  cases o with
  | error fault => exact .done
  | ok r => exact hk r

theorem Attends.skip (ht : Attends e p path .dropped t) :
    Attends e p path .refused (Marked.note ⟨p.place, .upkeep⟩ .warn text t) :=
  .act (fun _ => .skips rfl rfl) fun _ => ht

theorem Attends.delayed (hplace : ¬ p.place <:+ place) {first : Purpose} {ms : Nat}
    (ht : ∀ b, (place = p.around → path = [] → b = .fresh) → Attends e p path b t) :
    Attends e p path a (delayed place first label ms t) := by
  have hstart (b : Stage) : Attends e p path b
      (Marked.note ⟨place, first⟩ .debug ("Executing " ++ label) t) :=
    .outside hplace fun b _ hb => ht b hb
  unfold Marked.delayed
  split
  · exact hstart a
  · refine .note hplace fun b => ?_
    choose c hc _ using fun w : World =>
      Post.next_outside (m := ⟨place, .upkeep⟩) hplace e path [] w w b
    exact .sleep hc fun w => hstart (c w)

theorem Attends.limited (hplace : ¬ p.place <:+ place) {limit index : Nat}
    (ht : Attends e p path a t) : Attends e p path a (limited place limit index label t) := by
  unfold Marked.limited
  split
  · exact ht
  · refine .within hplace ht fun b o => ?_
    cases o with
    | some o => exact .done
    | none => exact .note hplace fun _ => .done

theorem Attends.branch (hplace : ¬ p.place <:+ place) {s : Settings} {limit index : Nat}
    (ht : ∀ b, Attends e p path b t) : Attends e p path a (branch place e limit index label s t) := by
  refine .check hplace fun holds b => ?_
  cases holds with
  | false => exact .note hplace fun _ => .done
  | true => exact (ht b).limited hplace

theorem Attends.conclude (hpool : ¬ p.place <:+ pool) {count : String} (reading : Reading) :
    Attends e p path a (conclude name pool count reading) := by
  rcases reading with ⟨index, fault⟩ | reports
  · exact .note hpool fun _ => .outside hpool fun _ _ _ => .done
  · refine .outside hpool fun _ _ _ => ?_
    cases gatherFrom 0 reports with
    | error fault => exact .done
    | ok rs => exact .note hpool fun _ => .done

theorem Attends.batch (hpool : ¬ p.place <:+ pool) {threads limit : Nat} {branches : List Marked}
    (hbranch : ∀ t b, branches[i]? = some t → (pool = p.around → path = [] → b = .fresh) →
      Attends e p path b t)
    (hothers : ∀ j t, branches[j]? = some t → j ≠ i → Only p.Apart t) :
    Attends e p ((pool, i) :: path) a (batch name pool threads limit branches) := by
  refine .outside hpool fun b w _ => ?_
  split
  · exact .done
  · refine .note hpool fun c => .fork rfl rfl hpool (fun t ht => ?_) (fun t d ht hd => ?_)
      (fun j t ht => hothers j t (ongoing_fresh.mp ht)) fun d r => .conclude hpool r
    · rw [List.getElem?_map, Option.map_eq_some_iff] at ht
      obtain ⟨body, -, heq⟩ := ht
      cases heq
    · have hongoing : Ongoing (branches.map .fresh) i t := by
        rcases ht with ht | ht
        · exact ⟨_, ht, rfl⟩
        · exact ⟨_, ht, rfl⟩
      exact hbranch t d (ongoing_fresh.mp hongoing) hd

/-- A repetition around the step. -/
theorem Attends.rounds (hplace : ¬ p.place <:+ 0 :: place) {mode : Repetition} {count : Nat}
    (ht : ∀ b, Attends e p path b t) (left : Nat) :
    Attends e p path a (rounds place mode label t count left) := by
  induction left generalizing count a with
  | zero => exact .never
  | succ left ih =>
      refine .onReport (ht a) fun b r => .outside hplace fun b w _ => ?_
      split
      · exact ih
      · exact .note (fun h => hplace (h.trans (List.suffix_cons ..))) fun _ => .done

/-- The repetition of the step itself. -/
theorem Attends.loop {s : Settings} {mode : Repetition} {count : Nat}
    (ht : Only (Post.Keeps ⟨place, 0, s⟩ .admitted) t) (left : Nat) :
    Attends e ⟨place, 0, s⟩ path .admitted (Marked.rounds place mode label t count left) := by
  have hown : Post.Keeps ⟨place, 0, s⟩ .admitted ⟨0 :: place, .upkeep⟩ := Post.keeps_own nofun
  induction left generalizing count with
  | zero => exact .never
  | succ left ih =>
      refine .onKept ht fun r => .act (fun _ => hown.next) fun w => ?_
      split
      · exact ih
      · exact .note (Post.not_within (List.suffix_refl _)) fun _ => .done

end Marked

open Marked

/-! ### The step and what it does -/

section

variable {e : Evaluator} {patience : Nat} {place : Pool} {brief : Brief} {name : String}

theorem Flow.first_ne_guard (f : Flow) (s : Settings) : f.first ≠ .guard s := by
  cases f <;> nofun

/-- A flow does not look at a guard of its own: those that it looks at are the guards of its steps. -/
theorem Flow.marked_unlooked (f : Flow) :
    Only (fun m => ∀ s, m ≠ ⟨place, .guard s⟩) (f.marked e patience place brief) := by
  have hparts (i : Nat) : Below (· ≠ place) (i :: place) := by
    rintro _ hq rfl
    have hle := hq.length_le
    simp only [List.length_cons] at hle
    omega
  have hlift {s : Marked} (hs : Only (fun m => m.place ≠ place) s) :
      Only (fun m => ∀ s, m ≠ ⟨place, .guard s⟩) s :=
    hs.mono fun m hm s heq => hm (congrArg Mark.place heq)
  have hupkeep (s : Settings) : (⟨place, .upkeep⟩ : Mark) ≠ ⟨place, .guard s⟩ := by simp
  cases f with
  | task x =>
      have hbehavior (s : Settings) : (⟨place, .behavior⟩ : Mark) ≠ ⟨place, .guard s⟩ := by simp
      exact only_marked hbehavior _
  | sequence name scope steps =>
      exact hlift (Flow.markedSequence_only steps (fun i _ => hparts i) name scope none)
  | parallel name threads limit branches =>
      refine .batch hupkeep fun t ht => hlift ?_
      exact Flow.markedBranches_only branches (fun i _ => hparts i) limit t ht
  | repetition _ mode step =>
      obtain ⟨s, flow⟩ := step
      have hinner := hparts 0
      refine .check (fun s heq => hinner.at (congrArg Mark.place heq)) fun b => ?_
      cases b with
      | false => exact hlift (.note hinner.at .done)
      | true =>
          refine .rounds hupkeep (by simp) (hlift ?_) _
          exact .delayed hinner.at hinner.at (Flow.marked_only flow hinner _)
  | choice name initial predicate held otherwise =>
      refine (hlift (Step.marked_only initial (hparts 0))).onReport fun r => .look hupkeep fun w => ?_
      split
      · exact .note hupkeep (hlift (Step.marked_only held (hparts 1)))
      · exact hlift (Flow.markedOtherwise_only otherwise (hparts 2) name r)

/-- What a step does once its guard has held keeps the attempt admitted. -/
theorem Step.keeps_admitted (e : Evaluator) (patience : Nat) (p : Post) (step : Step) :
    Only (p.Keeps .admitted) (step.marked e patience p.place) := by
  obtain ⟨s, flow⟩ := step
  refine .delayed (p.keeps_own flow.first_ne_guard) (p.keeps_own nofun) ?_
  have hbelow : Only (fun m => p.place <:+ m.place)
      (flow.marked e patience p.place (Step.mk s flow).brief) :=
    Flow.marked_only flow (fun _ hq => hq : Below (p.place <:+ ·) p.place) _
  exact (hbelow.and flow.marked_unlooked).mono fun m hm => Or.inr ⟨rfl, hm⟩

/-- What is below another part of a flow has nothing to do with the step. -/
theorem Post.below_other {p : Post} {i j : Nat} (hpart : (i :: place) <:+ p.place)
    (hij : i ≠ j) :
    Below (fun q => ¬ p.place <:+ q ∧ q ≠ p.around) (j :: place) := by
  refine fun q hq => ⟨fun hp => hij (place_unique (hpart.trans hp) hq), ?_⟩
  rintro rfl
  exact hij (place_unique hpart (hq.trans (List.suffix_cons ..)))

/-- The steps of a sequence before the one with an index keep any stage, since they have nothing to do with a
step at the index or within it. -/
theorem Flow.markedSequence_reaches {p : Post} {path : Way} {a : Stage} {i index : Nat}
    (hothers : ∀ j, i ≠ j → Below (fun q => ¬ p.place <:+ q ∧ q ≠ p.around) (j :: place))
    {steps : List Step} {scope : SequenceScope} (hindex : index ≤ i)
    (hrest : ∀ last, Attends e p path a
      (Flow.markedSequence e patience name scope last place i (steps.drop (i - index))))
    (last : Option Report) : Attends e p path a
      (Flow.markedSequence e patience name scope last place index steps) := by
  induction steps generalizing index last with
  | nil => exact .done
  | cons step rest ih =>
      obtain ⟨s, flow⟩ := step
      rcases Nat.eq_or_lt_of_le hindex with rfl | hlt
      · simpa using hrest last
      · have hother := hothers index (by omega)
        have hkeeps (purpose : Purpose) : p.Keeps a ⟨index :: place, purpose⟩ := Or.inl hother.at
        have hlater (last : Option Report) : Attends e p path a
            (Flow.markedSequence e patience name scope last place (index + 1) rest) := by
          refine ih hlt (fun last => ?_) last
          have hdrop := hrest last
          rwa [show i - index = i - (index + 1) + 1 by omega, List.drop_succ_cons] at hdrop
        have hnote {purpose : Purpose} {level : Level} {text : String} {t : Marked}
            (ht : Attends e p path a t) : Attends e p path a
              (note ⟨index :: place, purpose⟩ level text t) :=
          .act (fun _ => (hkeeps _).next) fun _ => ht
        rw [Flow.markedSequence.eq_def]
        refine .act (fun _ => (hkeeps _).next) fun w => ?_
        cases s.holds e w.context with
        | error error => exact .done
        | ok holds =>
            cases holds with
            | false =>
                cases scope with
                | block => exact hnote .done
                | playbook => exact hnote (hlater last)
            | true =>
                refine .onKept (.delayed (hkeeps _) (hkeeps _) ?_) fun r => ?_
                · exact (Flow.marked_only flow hother _).mono fun m hm => Or.inl hm
                · split
                  · exact hnote .done
                  · exact hnote (hlater (some r))

/-! ### The flows around a step -/

/-- A sequence looks at the guard of each of its steps. -/
theorem Flow.markedSequence_looks {p : Post} {path : Way} {g : Flow} {steps : List Step}
    (hstep : steps[p.number]? = some (.mk p.settings g)) (scope : SequenceScope) :
    Attends e p path .fresh
      (Flow.markedSequence e patience name scope none p.around 0 steps) := by
  have hother (j : Nat) (hj : p.number ≠ j) :
      Below (fun q => ¬ p.place <:+ q ∧ q ≠ p.around) (j :: p.around) :=
    Post.below_other (List.suffix_refl p.place) hj
  refine Flow.markedSequence_reaches hother (Nat.zero_le _) (fun last => ?_) none
  obtain ⟨hlt, heq⟩ := List.getElem?_eq_some_iff.mp hstep
  have hrest (a : Stage) (last : Option Report) : Attends e p path a (Flow.markedSequence e patience name
      scope last p.around (p.number + 1) (steps.drop (p.number + 1))) :=
    .apart (Flow.markedSequence_only _ (fun j hj => hother j (by omega)) name scope last)
  have hstep := Step.keeps_admitted e patience p (.mk p.settings g)
  rw [Step.marked] at hstep
  rw [Nat.sub_zero, List.drop_eq_getElem_cons hlt, heq, Flow.markedSequence.eq_def]
  refine .look (.onKept hstep fun r => ?_) ?_
  · have hreported : p.Inner ⟨p.place, .reported r⟩ := ⟨List.suffix_refl _, nofun⟩
    split
    · exact .act (fun _ => .goes hreported) fun _ => .done
    · exact .act (fun _ => .goes hreported) fun _ => hrest _ _
  · cases scope with
    | block => exact .skip .done
    | playbook => exact .skip (hrest _ _)

/-- A sequence attends to the steps within its own. -/
theorem Flow.markedSequence_attends {p : Post} {path : Way} {i : Nat} {s : Settings} {g : Flow}
    {steps : List Step} (hpart : (i :: place) <:+ p.around) (hstep : steps[i]? = some (.mk s g))
    (hinner : ∀ a, Attends e p path a ((Step.mk s g).marked e patience (i :: place)))
    (scope : SequenceScope) (a : Stage) :
    Attends e p path a (Flow.markedSequence e patience name scope none place 0 steps) := by
  have hplace : ¬ p.place <:+ i :: place := Post.not_within hpart
  have hother (j : Nat) (hj : i ≠ j) : Below (fun q => ¬ p.place <:+ q ∧ q ≠ p.around) (j :: place) :=
    Post.below_other (hpart.trans (List.suffix_cons ..)) hj
  refine Flow.markedSequence_reaches hother (Nat.zero_le _) (fun last => ?_) none
  obtain ⟨hlt, heq⟩ := List.getElem?_eq_some_iff.mp hstep
  have hrest (a : Stage) (last : Option Report) : Attends e p path a (Flow.markedSequence e patience name
      scope last place (i + 1) (steps.drop (i + 1))) :=
    .apart (Flow.markedSequence_only _ (fun j hj => hother j (by omega)) name scope last)
  simp only [Step.marked] at hinner
  rw [Nat.sub_zero, List.drop_eq_getElem_cons hlt, heq, Flow.markedSequence.eq_def]
  refine .check hplace fun holds b => ?_
  cases holds with
  | false =>
      cases scope with
      | block => exact .note hplace fun _ => .done
      | playbook => exact .note hplace fun c => hrest c last
  | true =>
      refine .onReport (hinner b) fun c r => ?_
      split
      · exact .note hplace fun _ => .done
      · exact .note hplace fun d => hrest d (some r)

/-- The branches of a parallel flow, of which one has to do with a step. -/
theorem Flow.markedBranches_attends {p : Post} {path : Way} {i : Nat} {step : Step} {steps : List Step}
    (hpart : (i :: place) <:+ p.place) (hstep : steps[i]? = some step) {threads limit : Nat}
    (hbranch : ∀ b, (place = p.around → path = [] → b = .fresh) → Attends e p path b
      (branch (i :: place) e limit i step.label step.settings (step.marked e patience (i :: place))))
    (a : Stage) : Attends e p ((place, i) :: path) a (batch name place threads limit
      (Flow.markedBranches e patience limit place 0 steps)) := by
  have hplace : ¬ p.place <:+ place := by
    intro h
    have hle := (hpart.trans h).length_le
    simp only [List.length_cons] at hle
    omega
  refine .batch hplace (fun t b ht hb => ?_) fun j t ht hji => ?_
  · rw [Flow.markedBranches_getElem?, Nat.zero_add, hstep] at ht
    cases ht
    exact hbranch b hb
  · rw [Flow.markedBranches_getElem?, Nat.zero_add, Option.map_eq_some_iff] at ht
    obtain ⟨other, -, rfl⟩ := ht
    have hother := Post.below_other hpart (Ne.symm hji)
    exact .branch (fun _ => hother.at) (Step.marked_only other hother)

/-- A parallel flow looks at the guard of each of its branches. -/
theorem Flow.markedBranches_looks {p : Post} {g : Flow} {steps : List Step}
    (hstep : steps[p.number]? = some (.mk p.settings g)) (threads limit : Nat) (a : Stage) :
    Attends e p [(p.around, p.number)] a (batch name p.around threads limit
      (Flow.markedBranches e patience limit p.around 0 steps)) := by
  have hinner := Step.keeps_admitted e patience p (.mk p.settings g)
  refine Flow.markedBranches_attends (List.suffix_refl p.place) hstep (fun b hb => ?_) a
  rw [hb rfl rfl]
  exact .look (.idle (.limited (p.keeps_own nofun) (p.keeps_own nofun) hinner)) (.skip .done)

/-- A repetition looks at the guard of its step, and not again in its rounds. -/
theorem Flow.repetition_looks {path : Way} {mode : Repetition} {s : Settings} {g : Flow} :
    Attends e ⟨place, 0, s⟩ path .fresh
      ((Flow.repetition name mode (.mk s g)).marked e patience place brief) := by
  have hinner := Step.keeps_admitted e patience ⟨place, 0, s⟩ (.mk s g)
  rw [Step.marked] at hinner
  rw [Flow.marked]
  have hloop : Attends e ⟨place, 0, s⟩ path .admitted (rounds place mode (Step.mk s g).label _ 0
      (Activity.roundsOf patience mode)) := .loop hinner _
  exact .look (p := ⟨place, 0, s⟩) hloop (.skip .done)

/-- A choice attends to a step if all of its own do, at every stage. -/
theorem Flow.choice_attends {p : Post} {path : Way} (hplace : ¬ p.place <:+ place) {initial held : Step}
    {otherwise : Option Step} {predicate : Predicate}
    (hinitial : ∀ a, Attends e p path a (initial.marked e patience (0 :: place)))
    (hheld : ∀ a, Attends e p path a (held.marked e patience (1 :: place)))
    (hotherwise : ∀ a r, Attends e p path a
      (Flow.markedOtherwise e patience name r (2 :: place) otherwise)) (a : Stage) :
    Attends e p path a
      ((Flow.choice name initial predicate held otherwise).marked e patience place brief) := by
  rw [Flow.marked]
  refine .onReport (hinitial a) fun b r => .outside hplace fun b w _ => ?_
  split
  · exact .note hplace hheld
  · exact hotherwise b r

/-- A step stands in its flow, at the place of the flow or below. -/
theorem Flow.Has.above {f : Flow} {around : Pool} {k : Nat} {s : Settings} {piece : Piece} {path : Way}
    (hplace : f.Has place brief (k :: around) piece path) (hpiece : piece.settings? = some s) :
    place <:+ around := by
  generalize hq : k :: around = q at hplace
  induction hplace with
  | task | batch | branchLate => cases hpiece
  | stepGuard | branchGuard | entry =>
      cases hq
      exact List.suffix_refl _
  | step _ _ ih | branch _ _ ih => exact (List.suffix_cons ..).trans (ih hpiece hq)
  | repeated _ ih | initial _ ih | held _ ih | otherwise _ ih =>
      exact (List.suffix_cons ..).trans (ih hpiece hq)

/-- A step attends to the steps within it at every stage: with its first turn an attempt may begin. -/
theorem Step.marked_attends {p : Post} {path : Way} {i : Nat} {s : Settings} {g : Flow}
    (hpart : (i :: place) <:+ p.around)
    (hflow : ∀ a, (p.around = i :: place → path = [] → a = .fresh) →
      Attends e p path a (g.marked e patience (i :: place) (Step.mk s g).brief)) (a : Stage) :
    Attends e p path a ((Step.mk s g).marked e patience (i :: place)) := by
  rw [Step.marked]
  refine .delayed (Post.not_within hpart) fun b hb => ?_
  exact hflow b fun heq => hb heq.symm

/-- **A flow attends to a step** whose guard is one of its pieces, from the beginning on; and at every stage, if
the step is not one of its own, or if the start of a branch is on the path to it. -/
theorem Flow.marked_attends {f : Flow} {around : Pool} {k : Nat} {s : Settings} {piece : Piece}
    {path : Way} (hplace : f.Has place brief (k :: around) piece path)
    (hpiece : piece.settings? = some s) (a : Stage)
    (hfresh : around = place → path = [] → a = .fresh) :
    Attends e ⟨around, k, s⟩ path a (f.marked e patience place brief) := by
  generalize hq : k :: around = q at hplace
  -- Along the way to the step.  At its end the flow looks at the guard; before, the first turn of the step
  -- around makes the attempt fresh again, whatever earlier rounds have left.
  induction hplace generalizing a with
  | task | batch | branchLate => cases hpiece
  | stepGuard hstep =>
      cases hq
      cases hpiece
      rw [hfresh rfl rfl, Flow.marked]
      exact Flow.markedSequence_looks (p := ⟨_, _, _⟩) hstep _
  | step hstep hinner ih =>
      subst hq
      rw [Flow.marked]
      exact Flow.markedSequence_attends (hinner.above hpiece) hstep
        (Step.marked_attends (hinner.above hpiece) fun a hb => ih hpiece a hb rfl) _ a
  | branchGuard hstep =>
      cases hq
      cases hpiece
      rw [Flow.marked]
      exact Flow.markedBranches_looks (p := ⟨_, _, _⟩) hstep _ _ a
  | branch hstep hinner ih =>
      subst hq
      have hpart := hinner.above hpiece
      rw [Flow.marked]
      refine Flow.markedBranches_attends (hpart.trans (List.suffix_cons ..)) hstep (fun b _ => ?_) a
      refine .branch (Post.not_within hpart) fun c => ?_
      exact Step.marked_attends hpart (fun a hb => ih hpiece a hb rfl) c
  | entry =>
      cases hq
      cases hpiece
      rw [hfresh rfl rfl]
      exact Flow.repetition_looks
  | @repeated name mode place p brief s' g piece path hinner ih =>
      subst hq
      have hpart := hinner.above hpiece
      have hplace : ¬ (Post.mk around k s).place <:+ 0 :: place := Post.not_within hpart
      have hstep (a : Stage) : Attends e ⟨around, k, s⟩ path a
          ((Step.mk s' g).marked e patience (0 :: place)) :=
        Step.marked_attends hpart (fun a hb => ih hpiece a hb rfl) a
      simp only [Step.marked] at hstep
      rw [Flow.marked]
      refine .check hplace fun holds b => ?_
      cases holds with
      | false => exact .note hplace fun _ => .done
      | true => exact .rounds hplace hstep _
  | @initial name predicate held otherwise place q brief s' g piece path hinner ih =>
      subst hq
      have hpart := hinner.above hpiece
      have hother (j : Nat) (hj : 0 ≠ j) := Post.below_other (p := ⟨around, k, s⟩)
        (hpart.trans (List.suffix_cons ..)) hj
      refine Flow.choice_attends (Post.not_within ((List.suffix_cons ..).trans hpart)) ?_ ?_ ?_ a
      · exact Step.marked_attends hpart fun a hb => ih hpiece a hb rfl
      · exact fun _ => .apart (Step.marked_only held (hother 1 (by decide)))
      · exact fun _ r => .apart (Flow.markedOtherwise_only otherwise (hother 2 (by decide)) name r)
  | @held name predicate first otherwise place q brief s' g piece path hinner ih =>
      subst hq
      have hpart := hinner.above hpiece
      have hother (j : Nat) (hj : 1 ≠ j) := Post.below_other (p := ⟨around, k, s⟩)
        (hpart.trans (List.suffix_cons ..)) hj
      refine Flow.choice_attends (Post.not_within ((List.suffix_cons ..).trans hpart)) ?_ ?_ ?_ a
      · exact fun _ => .apart (Step.marked_only first (hother 0 (by decide)))
      · exact Step.marked_attends hpart fun a hb => ih hpiece a hb rfl
      · exact fun _ r => .apart (Flow.markedOtherwise_only otherwise (hother 2 (by decide)) name r)
  | @otherwise name predicate first held place q brief s' g piece path hinner ih =>
      subst hq
      have hpart := hinner.above hpiece
      have hother (j : Nat) (hj : 2 ≠ j) := Post.below_other (p := ⟨around, k, s⟩)
        (hpart.trans (List.suffix_cons ..)) hj
      refine Flow.choice_attends (Post.not_within ((List.suffix_cons ..).trans hpart)) ?_ ?_ ?_ a
      · exact fun _ => .apart (Step.marked_only first (hother 0 (by decide)))
      · exact fun _ => .apart (Step.marked_only held (hother 1 (by decide)))
      · intro b r
        rw [Flow.markedOtherwise]
        refine .note (Post.not_within hpart) fun c => ?_
        exact Step.marked_attends hpart (fun a hb => ih hpiece a hb rfl) c

end

/-! ### Guards that cannot be evaluated -/

/-- The path to a guard is determined by the place of its step. -/
theorem Flow.Has.path_unique {f : Flow} {place around : Pool} {brief : Brief} {k : Nat} {s s' : Settings}
    {piece piece' : Piece} {path path' : Way} (hplace : f.Has place brief (k :: around) piece path)
    (hplace' : f.Has place brief (k :: around) piece' path') (hpiece : piece.settings? = some s)
    (hpiece' : piece'.settings? = some s') : path = path' := by
  have hself {i : Nat} {p : Pool} (h : (i :: p) <:+ p) : False := by
    have hle := h.length_le
    rw [List.length_cons] at hle
    omega
  generalize hq : k :: around = q at hplace
  induction hplace generalizing path' with
  | task | batch | branchLate => cases hpiece
  | stepGuard =>
      cases hq
      cases hplace' with
      | stepGuard => rfl
      | step _ hinner => exact (hself (hinner.above hpiece')).elim
  | @step _ _ _ _ _ _ _ _ _ _ _ hstep hinner ih =>
      subst hq
      have hpart := hinner.above hpiece
      cases hplace' with
      | stepGuard => exact (hself hpart).elim
      | step hstep' hinner' =>
          obtain rfl := place_unique hpart (hinner'.above hpiece')
          rw [hstep] at hstep'
          cases hstep'
          exact ih hinner' hpiece rfl
  | branchGuard =>
      cases hq
      cases hplace' with
      | branchGuard => rfl
      | branchLate => cases hpiece'
      | branch _ hinner => exact (hself (hinner.above hpiece')).elim
  | branch hstep hinner ih =>
      subst hq
      have hpart := hinner.above hpiece
      cases hplace' with
      | batch => cases hpiece'
      | branchGuard => exact (hself hpart).elim
      | branchLate => cases hpiece'
      | branch hstep' hinner' =>
          obtain rfl := place_unique hpart (hinner'.above hpiece')
          rw [hstep] at hstep'
          cases hstep'
          rw [ih hinner' hpiece rfl]
  | entry =>
      cases hq
      cases hplace' with
      | entry => rfl
      | repeated hinner => exact (hself (hinner.above hpiece')).elim
  | repeated hinner ih =>
      subst hq
      cases hplace' with
      | entry => exact (hself (hinner.above hpiece)).elim
      | repeated hinner' => exact ih hinner' hpiece rfl
  | initial hinner ih | held hinner ih | otherwise hinner ih =>
      subst hq
      have hpart := hinner.above hpiece
      cases hplace' with
      | initial hinner' =>
          have hsame := place_unique hpart (hinner'.above hpiece')
          first | exact ih hinner' hpiece rfl | cases hsame
      | held hinner' =>
          have hsame := place_unique hpart (hinner'.above hpiece')
          first | exact ih hinner' hpiece rfl | cases hsame
      | otherwise hinner' =>
          have hsame := place_unique hpart (hinner'.above hpiece')
          first | exact ih hinner' hpiece rfl | cases hsame

namespace Marked

/-- **A guard of the layout strikes** in a move, and some fault is on its way out after it: that of the guard, or
one that a batch on the path to the guard has had to read already. -/
def Struck (ordered : Prop) (L : Layout) (settings : Settings) (fault : Fault) (m : Mark) (s : Marked)
    (w : World) (t : Marked) (v : World) : Prop :=
  ∃ path inner piece a fault' path', L m.place piece path ∧ piece.settings? = some settings ∧
    Works ordered m inner a w (.done (.error fault)) v path s t ∧ Fated ordered fault' path' t ∧
    Shares path' path

section

variable {ordered : Prop} {e : Evaluator} {T : Terms} {L : Layout} {settings : Settings}
variable {error : ExpressionError} {fault : Fault} {m : Mark} {way : Way} {s t : Marked} {w v : World}

theorem shares_nil : Shares [] path := by
  intro before step after heq
  cases before <;> cases heq

theorem Struck.onReport (hstruck : Struck ordered L settings fault m s w t v) (k : Report → Marked) :
    Struck ordered L settings fault m (s.onReport k) w (t.onReport k) v := by
  obtain ⟨path, inner, piece, a, fault', path', hplace, hpiece, hworks, hfated, hshares⟩ := hstruck
  exact ⟨path, inner, piece, a, fault', path', hplace, hpiece, .onReport hworks, .onReport hfated, hshares⟩

theorem Struck.within (hstruck : Struck ordered L settings fault m s w t v) {n : Mark} {left : Nat}
    {next : Option Outcome → Marked} (hturn : ordered → left = 0 → ¬ Activity.AtRest s.plain)
    (hnext : ∀ o, next (some o) = .done o) :
    Struck ordered L settings fault m (.within n left s next) w (.within n left t next) v := by
  obtain ⟨path, inner, piece, a, fault', path', hplace, hpiece, hworks, hfated, hshares⟩ := hstruck
  refine ⟨path, inner, piece, a, fault', path', hplace, hpiece, .within hturn hnext hworks, ?_, hshares⟩
  exact .within (fun hordered hleft => hworks.awake (hturn hordered hleft)) hnext hfated

/-- If the batch around has a fault to read, that one is on its way out, and else the one of the branch. -/
theorem Struck.branch {i : Nat} {n : Mark} {tally : Tally} {slots : List (Slot Marked)}
    {name count : String} (hstruck : Struck ordered (L.inside tally.pool i) settings fault m s w t v)
    (htracks : tally.Tracks slots) (hturn : ordered → Activity.InTurn tally (plainSlots slots) i)
    (hslot : slots[i]? = some (.running s)) :
    Struck ordered L settings fault m (.fork n tally slots (conclude name tally.pool count)) w
      (.fork n tally (slots.set i (.running t)) (conclude name tally.pool count)) v := by
  obtain ⟨path, inner, piece, a, fault', path', hplace, hpiece, hworks, hfated, hshares⟩ := hstruck
  have hlt := (List.getElem?_eq_some_iff.mp hslot).1
  have hstruck (fault' : Fault) (path' : Way) (hfated : Fated ordered fault' path'
      (.fork n tally (slots.set i (.running t)) (conclude name tally.pool count)))
      (hshares : Shares path' ((tally.pool, i) :: path)) := 
    (⟨(tally.pool, i) :: path, inner, piece, a, fault', path', hplace, hpiece,
      .branch rfl hturn hslot hworks, hfated, hshares⟩ : Struck ordered L settings fault m _ w _ v)
  by_cases hreported : Reported tally.arrivals
  · apply hstruck fault' ((tally.pool, i) :: path') ?_ (hshares.cons _)
    exact .branch rfl (fun hordered => inTurn_set (hturn hordered) hlt) (List.getElem?_set_self hlt)
      hreported hfated
  · obtain ⟨before, j, origin, after, harrivals, hbefore⟩ := first_fault htracks hreported
    apply hstruck origin [(tally.pool, j)] ?_ (shares_rival _ _)
    exact .arrived rfl harrivals hbefore

/-- **A guard that cannot be evaluated strikes** wherever it stands in the layers of an activity. -/
theorem Layered.struck (hs : Layered ordered e T L s) (hmove : Move ordered m way s w t v)
    (hm : m.purpose = .guard settings) (herror : settings.holds e w.context = .error error) :
    Struck ordered L settings (.ofError error) m s w t v := by
  have hno (hnot : ¬ m.purpose.OfPiece) : False := by
    apply hnot
    rw [hm]
    trivial
  induction hs generalizing m way w t v with
  | done => cases hmove
  | guard hpiece hplace =>
      have hhere := Works.here hmove
      cases hmove with
      | act =>
          cases hm
          dsimp only at hhere ⊢
          rw [herror] at hhere ⊢
          exact ⟨[], [], _, _, .ofError error, [], hplace, hpiece, hhere, .out, shares_nil⟩
  | invocation =>
      cases hmove
      cases hm
  | task _ hmarks =>
      obtain ⟨rfl, -⟩ := hmarks.move hmove
      cases hm
  | batch =>
      cases hmove
      cases hm
  | act hpurpose | sleep hpurpose =>
      cases hmove
      exact (hno hpurpose).elim
  | late =>
      cases hmove
      cases hm
  | never => cases hmove
  | @onReport L s k hs hk ihs ihk =>
      rcases Move.of_bind hmove with ⟨t, hfirst, rfl⟩ | ⟨o, rfl, hnext⟩
      · exact (ihs hfirst hm herror hno).onReport k
      · cases o with
        | error fault => cases hnext
        | ok r => exact ihk r (hs.good rfl) hnext hm herror hno
  | within hpurpose hnext hbody hlate ihbody ihlate =>
      cases hmove with
      | inside hturn hmove => exact (ihbody hmove hm herror hno).within hturn hnext
      | inTime => exact (hno hpurpose).elim
      | late => exact (hno hpurpose).elim
  | @fork L n pool tally slots name count hpurpose hpool hplace htracks hparts hended ih =>
      subst hpool
      cases hmove.of_fork with
      | @works _ _ i s t _ _ hturn hslot hmove =>
          exact (ih i s (ongoing_running hslot) hmove hm herror hno).branch htracks hturn hslot
      | passes => exact (hno hpurpose).elim
      | ends => exact (hno hpurpose).elim

/-- Some fault comes out, unless a limit around the guard cuts it off, and no time passes until it does. -/
theorem Struck.run {h : List Turn} {r : Marked} {u : World}
    (hstruck : Struck ordered L settings fault m s w t v) (hrun : Run ordered t v h r u) :
    ∃ path piece, L m.place piece path ∧ piece.settings? = some settings ∧
      ((¬ ordered ∧ CutOff ordered path t v h r u) ∨
        (Turn.tick ∉ h ∧ ∀ o, r = .done o → ∃ fault, o = .error fault)) := by
  obtain ⟨path, inner, piece, a, fault', path', hplace, hpiece, hworks, hfated, hshares⟩ := hstruck
  refine ⟨path, piece, hplace, hpiece, ?_⟩
  rcases hfated.run hrun with ⟨hno, hcut⟩ | ⟨htick, ⟨_, _, hsome⟩, -⟩
  · exact .inl ⟨hno, hcut.mono fun hcut => hcut.shares hshares⟩
  · exact .inr ⟨htick, fun o ho => ⟨_, hsome.outcome ho⟩⟩

end

end Marked

/-! ### Choices -/

/-- The step with another guard, or with none. -/
def Step.guardedBy (guard : Option String) : Step → Step
  | .mk s flow => .mk { s with guard := guard } flow

/-- What a step does does not depend on its guard, which is for the flow around it to look at. -/
theorem Step.work_guardedBy (e : Evaluator) (patience : Nat) (place : Pool) (guard : Option String)
    (step : Step) : (step.guardedBy guard).work e patience place = step.work e patience place := by
  cases step
  rw [Step.guardedBy, Step.work, Step.work]
  rfl

theorem Step.label_guardedBy (guard : Option String) (step : Step) :
    (step.guardedBy guard).label = step.label := by
  cases step
  rfl

/-- **A choice is the same with any guards** of its steps: it does not look at them. -/
theorem Flow.choice_guardedBy (e : Evaluator) (patience : Nat) (place : Pool) (brief : Brief)
    (name : String) (predicate : Predicate) (initial held : Step) (otherwise : Option Step)
    (g₁ g₂ g₃ : Option String) :
    (Flow.choice name (initial.guardedBy g₁) predicate (held.guardedBy g₂)
      (otherwise.map (Step.guardedBy g₃))).work e patience place brief =
    (Flow.choice name initial predicate held otherwise).work e patience place brief := by
  rw [Flow.work, Flow.work, Step.work_guardedBy]
  congr
  funext r
  congr
  funext w
  split
  · rw [Step.work_guardedBy, Step.label_guardedBy]
  · cases otherwise with
    | none => rfl
    | some step =>
        rw [Option.map_some, Flow.otherwiseWork, Flow.otherwiseWork, Step.work_guardedBy,
          Step.label_guardedBy]

/-- **Guards are heeded, except by choices.**  Take a step whose guard is one of the pieces of a flow, be it the
step of a sequence, a branch of a parallel flow or the step of a repetition, however deep, and any run of the
flow, whatever turns parallel branches take and whatever else goes on beside it.  Each turn of the step, or of
something within it, is on the world that the history so far has left, and of one of these kinds.

A look at the guard leaves the world as it is, and is the only one of its attempt: since any earlier look, the
flow around the step has had a turn with which another attempt may begin.  If the guard cannot be evaluated,
this is a fault: no time passes any more and what comes out is an error, unless a limit around one of the
batches on the path to the guard is over and cuts it off, which does not happen in the order in which a flow
runs by itself; and the step has no turn at all in the attempt.

Anything else, a delay too, comes after a look of the same attempt, at which the guard held; or at which it
did not hold, and then there is nothing but the note that the step is skipped.

The steps of a choice are run whatever their guards say. -/
theorem guards_are_heeded_except_by_choices (e : Evaluator) (patience : Nat) (place : Pool)
    (brief : Brief) :
    (∀ {f : Flow} {p : Post} {piece : Piece} {path : Way}, f.Has place brief p.place piece path →
      piece.settings? = some p.settings →
      ∀ {ordered w h m way x y g t v},
        Run ordered (f.marked e patience place brief) w (h ++ .own m way x y :: g) t v →
        p.place <:+ m.place →
        x = Activity.worldAfter w (h.map Turn.plain) ∧
        (∀ s, m = ⟨p.place, .guard s⟩ → s = p.settings ∧ y = x ∧
          (∀ h₁ turn h₂, h = h₁ ++ turn :: h₂ → p.Looks turn → ∃ turn' ∈ h₂, p.Begins path turn') ∧
          ∀ error, s.holds e x.context = .error error →
            ((Turn.tick ∉ g ∧ ∀ o, t = .done o → ∃ fault, o = .error fault) ∨
              (¬ ordered ∧ ∃ r, Run ordered (f.marked e patience place brief) w
                (h ++ [.own m way x y]) r y ∧ CutOff ordered path r y g t v)) ∧
            ∀ g₁ n way' x' y' g₂, g = g₁ ++ .own n way' x' y' :: g₂ →
              (∀ turn ∈ g₁, ¬ p.Begins path turn) → ¬ p.place <:+ n.place) ∧
        ((∀ s, m ≠ ⟨p.place, .guard s⟩) →
          ∃ h₁ way' z h₂, h = h₁ ++ .own ⟨p.place, .guard p.settings⟩ way' z z :: h₂ ∧
            (∀ turn ∈ h₂, ¬ p.Begins path turn ∧ ¬ p.Looks turn) ∧
            (p.settings.holds e z.context = .ok true ∨
              (p.settings.holds e z.context = .ok false ∧ m = ⟨p.place, .upkeep⟩ ∧
                (∃ text, y = x.note .warn text) ∧ ∀ turn ∈ h₂, ¬ p.Owns turn)))) ∧
    ∀ (name : String) (predicate : Predicate) (initial held : Step) (otherwise : Option Step)
      (g₁ g₂ g₃ : Option String),
      (Flow.choice name (initial.guardedBy g₁) predicate (held.guardedBy g₂)
        (otherwise.map (Step.guardedBy g₃))).work e patience place brief =
      (Flow.choice name initial predicate held otherwise).work e patience place brief := by
  refine ⟨?_, Flow.choice_guardedBy e patience place brief⟩
  intro f p piece path hplace hpiece ordered w h m way x y g t v hrun hm
  have hattends : Attends e p path .fresh (f.marked e patience place brief) :=
    Flow.marked_attends hplace hpiece .fresh fun _ _ => rfl
  obtain ⟨a, b, r, hled, hnext, hr, hafter⟩ := hattends.turn hrun
  obtain ⟨q, u, hbefore, hfrom⟩ := hrun.split
  cases hfrom with
  | own hmove hrest =>
      refine ⟨hbefore.plain.worldAfter, ?_, fun hno => ?_⟩
      · rintro s rfl
        rcases hnext.owned hm with ⟨hguard, hy, rfl, rfl⟩ | ⟨-, hinner⟩ | ⟨-, hupkeep, -⟩
        · cases hguard
          refine ⟨rfl, hy, hled, fun error herror => ?_⟩
          refine ⟨?_, ?_⟩
          · have hstruck := (Flow.run_layered hbefore).struck hmove rfl herror
            obtain ⟨path', piece', hplace', hpiece', ⟨hno, hcut⟩ | hout⟩ := hstruck.run hrest
            · rw [hplace.path_unique hplace' hpiece hpiece']
              exact Or.inr ⟨hno, _, hbefore.append (.own hmove .stop), hcut⟩
            · exact Or.inl hout
          · rintro g₁ n way' x' y' g₂ rfl hbegins
            -- The look has dropped the attempt, and no stage but a fresh one comes after that.
            rw [herror] at hr
            exact hr.rests hafter hbegins
        · exact (hinner.2 s rfl).elim
        · cases hupkeep
      · rcases hnext.owned hm with ⟨hguard, -⟩ | ⟨rfl, -⟩ | ⟨rfl, hupkeep, hnote⟩
        · exact (hno _ hguard).elim
        · obtain ⟨h₁, way', z, h₂, heq, hholds, hsince⟩ := hled
          exact ⟨h₁, way', z, h₂, heq, hsince, Or.inl hholds⟩
        · obtain ⟨h₁, way', z, h₂, heq, hholds, hsince⟩ := hled
          refine ⟨h₁, way', z, h₂, heq, fun turn hturn => ?_, Or.inr ⟨hholds, hupkeep, hnote, ?_⟩⟩
          · exact ⟨(hsince turn hturn).1, fun hlook => (hsince turn hturn).2 hlook.owns⟩
          · exact fun turn hturn => (hsince turn hturn).2

/-- A task that stores its label. -/
private def keeping : Executable where
  name := "store"
  behave _ b := .instant fun w => (.completed, w.put "last" (.string b.label))

/-- An evaluator that knows two answers. -/
private def answering : Evaluator where
  evaluate text _ := .error (.malformed text)
  validate text _ :=
    if text = "yes" then .ok true else if text = "no" then .ok false else .error (.malformed text)

/-- A task that is skipped and one that runs, after a delay. -/
private def pair : Flow :=
  .sequence "pair" .playbook [.mk { guard := some "no" } (.task keeping),
    .mk { guard := some "yes", delay := 5 } (.task keeping)]

/-- Before the delay of the second task, its guard is looked at, and it holds. -/
theorem guards_are_heeded_except_by_choices_pair :
    ∃ h x y s, Run False (pair.marked answering 0 [] { label := "" }) {}
        (h ++ [.own ⟨[1], .upkeep⟩ [] x y]) s y ∧
      ∃ h₁ way z h₂,
        h = h₁ ++ .own ⟨[1], .guard { guard := some "yes", delay := 5 }⟩ way z z :: h₂ ∧
        Settings.holds { guard := some "yes", delay := 5 } answering z.context = .ok true := by
  have hbefore : Run False (pair.marked answering 0 [] { label := "" }) {} _ _ _ :=
    .own .act <| .own .act <| .own .act .stop
  have hrun := hbefore.append (.own .act .stop)
  obtain ⟨-, -, hrest⟩ := (guards_are_heeded_except_by_choices answering 0 [] { label := "" }).1
    (p := ⟨[], 1, { guard := some "yes", delay := 5 }⟩) (.stepGuard rfl) rfl hrun ⟨[], rfl⟩
  obtain ⟨h₁, way, z, h₂, heq, -, hholds | ⟨hrefused, -⟩⟩ := hrest nofun
  · exact ⟨_, _, _, _, hrun, h₁, way, z, h₂, heq, hholds⟩
  · cases hrefused

/-- A choice with a second step whose guard cannot be evaluated. -/
private def careless : Flow :=
  .choice "choice" (.mk {} (.task keeping)) .completed
    (.mk { name := "second", guard := some "x ==" } (.task keeping)) none

/-- No context gives this guard a value, and the step runs all the same. -/
theorem choice_runs_despite_guard :
    (∀ c, Settings.holds { name := "second", guard := some "x ==" } (.standard {}) c =
      .error (.malformed "x ==")) ∧
    ∃ w, Activity.run 9 (careless.work (.standard {}) 0 [] { label := "" }) {} =
        some (.ok .completed, w) ∧ w.context.text? "last" = some "second" := by
  have hform : Evaluator.formOf "x ==" = .bare "x ==" := rfl
  have hread : Expression.Expr.read "x ==" = .error .malformed := by with_unfolding_all rfl
  refine ⟨fun c => ?_, _, rfl, rfl⟩
  simp only [Settings.holds, Context.validate, Evaluator.standard, Evaluator.validateIn, hform,
    Evaluator.valueOf, hread]
  rfl

end Runsheet
