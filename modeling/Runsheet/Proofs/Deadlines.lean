import Runsheet.Proofs.Batch
import Runsheet.Proofs.Determinism

/-!
# Work that ends in time

`Bounded n a` says that no run of the activity `a` lasts longer than `n` milliseconds, whatever others
do.  Work under a limit is bounded by the limit.  What is bounded comes to its end, unless a part of it
goes on for ever without waiting: no time passes then, and no limit is ever reached.

* `Run.proceeds` — an activity comes to its end, or time passes for as long as one likes, or it `Spins`;
* `Bounded.run` — what is bounded, `run` carries to its end;
* `Bounded.branch` — a branch holds its permit no longer than its limit.
-/

namespace Runsheet

namespace Activity

variable {ordered : Prop} {way : Way} {a b c : Activity} {w v u : World} {h g : List Turn}
variable {n : Nat}

/-- No run of the activity lasts longer than a number of milliseconds. -/
def Bounded (ordered : Prop) (n : Nat) (a : Activity) : Prop :=
  ∀ w h b v, Run ordered a w h b v → ticks h ≤ n

/-! ### Time passes -/

/-- **Nothing stands still**: on the schedule an activity comes to its end, or as much time passes as
one likes, or some part of it goes on for ever and never waits. -/
theorem Run.proceeds (a : Activity) (w : World) (n : Nat) :
    ∃ h b v, Alone h ∧ Run True a w h b v ∧
      ((∃ o, b = .done o) ∨ ticks h = n ∨ (Still b ∧ spins b = true)) := by
  induction n with
  | zero => exact ⟨[], a, w, alone_nil, .stop, .inr (.inl rfl)⟩
  | succ n ih =>
      obtain ⟨h, b, v, halone, hrun, hdone | hticks | hspins⟩ := ih
      · exact ⟨h, b, v, halone, hrun, .inl hdone⟩
      · obtain ⟨g, hinstant, hrest⟩ : ∃ g, Instant g ∧ Run True b v g _ _ :=
          (settle_reaches b v).run
        have halone' := alone_append.mpr ⟨halone, hinstant.1⟩
        have hwhole := hrun.append hrest
        rcases settle_rests b v with hdone | hstill
        · exact ⟨h ++ g, _, _, halone', hwhole, .inl hdone⟩
        cases hspins : spins (settle b false v).1 with
        | true => exact ⟨h ++ g, _, _, halone', hwhole, .inr (.inr ⟨hstill, hspins⟩)⟩
        | false =>
            have hsettled := settled_of_still hstill hspins
            refine ⟨(h ++ g) ++ [.tick], _, _, ?_, hwhole.append (.tick hsettled .stop),
              .inr (.inl (by simp [hticks, hinstant.2]))⟩
            exact alone_append.mpr ⟨halone', alone_cons.mpr ⟨nofun, alone_nil⟩⟩
      · exact ⟨h, b, v, halone, hrun, .inr (.inr hspins)⟩

/-- An activity that comes to a state in which a part of it goes on for ever and never waits. -/
def Spins (a : Activity) (w : World) : Prop :=
  ∃ h b v, Alone h ∧ Run True a w h b v ∧ spins b = true

/-- **What is bounded, `run` carries to its end**, unless a part of it goes on for ever and never waits. -/
theorem Bounded.run {fuel : Nat} (ha : Bounded True n a) (hfuel : n ≤ fuel) (w : World) :
    (∃ o v, run fuel a w = some (o, v)) ∨ Spins a w := by
  obtain ⟨h, b, v, halone, hrun, ⟨o, rfl⟩ | hticks | ⟨_, hspins⟩⟩ := Run.proceeds a w (n + 1)
  · have hle := ha w h _ v hrun
    exact .inl ⟨o, v, run_of_alone hrun halone (by omega)⟩
  · have hle := ha w h b v hrun
    omega
  · exact .inr ⟨h, b, v, halone, hrun, hspins⟩

/-! ### Bounds of parts -/

theorem Bounded.done {o : Outcome} : Bounded ordered n (.done o) := by
  intro w h b v hrun
  rw [hrun.of_done.2.ticks]
  omega

theorem Bounded.act {f : World → World} {next : World → Activity}
    (hnext : ∀ w, Bounded ordered n (next w)) : Bounded ordered n (.act f next) := by
  intro w h b v hrun
  rcases hrun.of_act with ⟨_, hidle⟩ | ⟨h₁, h₂, x, rfl, hidle, _, hrest⟩
  · rw [hidle.ticks]
    omega
  · have hle := hnext x _ _ _ _ hrest
    simpa [hidle.ticks] using hle

theorem Bounded.within {left : Nat} {next : Option Outcome → Activity}
    (hnext : ∀ o, Bounded ordered 0 (next o)) : Bounded ordered left (.within left a next) := by
  intro w h b v hrun
  rcases hrun.of_within with ⟨_, _, hle, _⟩ | ⟨h₁, h₂, o, x, rfl, _, hle, _, hrest⟩ |
    ⟨h₁, h₂, _, x, rfl, _, _, heq, _, hrest⟩
  · exact hle
  · have hlater := hnext (some o) _ _ _ _ hrest
    simp only [ticks_append, ticks_own]
    omega
  · have hlater := hnext none _ _ _ _ hrest
    simp only [ticks_append, ticks_own]
    omega

/-! ### Parts of a batch -/

section

variable {name label : String} {pool : Pool} {threads limit index : Nat} {branches : List Activity}
variable {e : Evaluator} {s : Settings}

theorem Bounded.note {level : Level} {text : String} (ha : Bounded ordered n a) :
    Bounded ordered n (note level text a) :=
  .act fun _ => ha

/-- A branch holds its permit no longer than its limit. -/
theorem Bounded.branch (hlimit : limit ≠ 0) :
    Bounded ordered limit (branch e limit index label s a) := by
  refine .act fun w => ?_
  cases s.holds e w.context with
  | error error => exact .done
  | ok b =>
      cases b with
      | false => exact .note .done
      | true =>
          simp only [limited, limitOf?, hlimit, if_false]
          refine .within fun o => ?_
          cases o with
          | some o => exact .done
          | none => exact .note .done

theorem Bounded.conclude {count : String} (reading : Reading) :
    Bounded ordered 0 (conclude name pool count reading) := by
  rcases reading with ⟨index, fault⟩ | reports
  · exact .note (.act fun _ => .done)
  · refine .act fun _ => ?_
    cases gatherFrom 0 reports with
    | error fault => exact .done
    | ok reports => exact .note .done

end

end Activity

end Runsheet
