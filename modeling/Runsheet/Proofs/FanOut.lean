import Mathlib.Order.Lattice.Nat
import Runsheet.Proofs.Aggregation
import Runsheet.Proofs.Ledgers

/-!
# Fan-out

How the batch of a parallel flow uses its permits, with branches that may do anything, take any time and
ask for their permits in any order.

* `Run.of_batch_booked` — a batch keeps a ledger until its split ends;
* `bounded_batch_rounds` — it takes no longer than the rounds of its branches;
* `fan_out_bounded` — the result.
-/

namespace Runsheet

namespace Activity

variable {ordered : Prop} {a b c : Activity} {w v u x : World} {h g : List Turn}
variable {pool : Pool} {i : Nat} {o : Outcome}

/-! ### The batch of a parallel flow -/

section

variable {name : String} {threads limit : Nat} {branches : List Activity}

/-- Below the most permits that there can be, a pool has as many as there are threads, and at least one. -/
theorem threadsOf_eq (hthreads : threads < 2 ^ 61) : threadsOf threads = max threads 1 := by
  have hmost : Nat.pow 2 61 = 2 ^ 61 := rfl
  unfold threadsOf
  omega

theorem threadsOf_le (threads : Nat) : threadsOf threads ≤ max threads 1 :=
  Nat.min_le_left _ _

theorem rounds_one {n m : Nat} (hn : 0 < n) (hle : n ≤ m) : n ⌈/⌉ m = 1 := by
  have hm : 0 < m := Nat.lt_of_lt_of_le hn hle
  apply Nat.le_antisymm
  · rw [ceilDiv_le_iff_le_mul hm]
    omega
  · rw [Nat.ceilDiv_eq_add_pred_div]
    exact Nat.div_pos (by omega) hm

/-- The threads that a pool cannot have are of no use to a batch: all its branches get their permits at once. -/
theorem rounds_eq {n : Nat} (hn : n < 2 ^ 61) :
    n ⌈/⌉ threadsOf threads = n ⌈/⌉ max threads 1 := by
  by_cases hthreads : threads < 2 ^ 61
  · rw [threadsOf_eq hthreads]
  rcases Nat.eq_zero_or_pos n with rfl | hsome
  · rw [zero_ceilDiv, zero_ceilDiv]
  have hmost : Nat.pow 2 61 = 2 ^ 61 := rfl
  have hpermits : n ≤ threadsOf threads := by
    unfold threadsOf
    omega
  rw [rounds_one hsome hpermits, rounds_one hsome (by omega)]

/-- No time passes before a batch splits, and no branch has a turn. -/
theorem Run.of_batch_opening (hrun : Run ordered (batch name pool threads limit branches) w h c u) :
    (ticks h = 0 ∧ Unsplit h ∧ ((∃ f next, c = .act f next) ∨ c = fail .poolShutdown)) ∨
    ∃ h₁ x h₂, h = h₁ ++ h₂ ∧ Unsplit h₁ ∧ ticks h₁ = 0 ∧
      Run ordered (splitting name pool threads branches) x h₂ c u := by
  rcases hrun.of_batch with ⟨hact, hticks, hunsplit⟩ | ⟨h₁, v, h₂, rfl, hidle₁, _, _, hend⟩ |
    ⟨h₁, v, h₂, x, h₃, rfl, _, _, _, hticks, hunsplit, _, _, hfork⟩
  · exact Or.inl ⟨hticks, hunsplit, Or.inl hact⟩
  · obtain ⟨rfl, hidle₂⟩ := hend.of_done
    refine Or.inl ⟨?_, ?_, Or.inr rfl⟩
    · simp [hidle₁.ticks, hidle₂.ticks]
    · simp [unsplit_append, unsplit_own, hidle₁.unsplit, hidle₂.unsplit]
  · exact Or.inr ⟨_, x, h₃, rfl, hunsplit, hticks, hfork⟩

/-- **A batch keeps a ledger** from the moment at which it splits until a branch is refused or its split
ends, and no time passes before and after. -/
theorem Run.of_batch_booked (hrun : Run ordered (batch name pool threads limit branches) w h c u) :
    (ticks h = 0 ∧ Unsplit h ∧ ((∃ f next, c = .act f next) ∨ c = fail .poolShutdown)) ∨
    (∃ t slots, c = .fork t slots (conclude name pool (toString branches.length)) ∧ t.pool = pool ∧
      t.Tracks slots ∧ (Booked ordered branches (threadsOf threads) h t slots u ∨
        Refused ordered branches (threadsOf threads) h slots)) ∨
    ∃ h₁ z h₂ t slots reading, h = h₁ ++ .own [] z z :: h₂ ∧ t.pool = pool ∧ t.Tracks slots ∧
      (Booked ordered branches (threadsOf threads) h₁ t slots z ∨
        Refused ordered branches (threadsOf threads) h₁ slots) ∧
      Ending ordered t slots reading ∧
      Run ordered (conclude name pool (toString branches.length) reading) z h₂ c u := by
  rcases hrun.of_batch_opening with hbefore | ⟨h₁, x, h₂, rfl, hunsplit, hticks, hfork⟩
  · exact Or.inl hbefore
  have hopening : Booked ordered branches (threadsOf threads) h₁
      (.opening pool (threadsOf threads) branches.length) (branches.map .fresh) x :=
    ⟨[], fun _ => 0, fun _ => 0, .opening (threadsOf_pos threads) hunsplit hticks⟩
  have htracks := Tally.tracks_opening pool (threadsOf threads) branches
  rcases hfork.of_fork with ⟨t, slots, rfl, hlast⟩ |
    ⟨g₁, g₂, z, reading, t, slots, rfl, hlast, hend, hrest⟩
  · exact Or.inr (Or.inl ⟨t, slots, rfl, hlast.pool, hlast.tracks htracks, hlast.booked hopening⟩)
  · exact Or.inr (Or.inr ⟨h₁ ++ g₁, z, g₂, t, slots, reading, (List.append_assoc ..).symm, hlast.pool,
      hlast.tracks htracks, hlast.booked hopening, hend, hrest⟩)

/-- In the order of the schedule the branches of a batch ask for their permits in the order of their
numbers. -/
theorem Run.batch_submitted
    (hrun : Run True (batch name pool threads limit branches) w h (.done o) u) : Submitted pool h := by
  have hnobody {h : List Turn} (hunsplit : Unsplit h) : asked pool h = [] :=
    asked_unsplit (h := []) hunsplit
  rcases hrun.of_batch_opening with ⟨_, hunsplit, _⟩ | ⟨h₁, x, h₂, rfl, hunsplit, _, hfork⟩
  · exact ⟨0, hnobody hunsplit⟩
  have hopening : AskedFirst 0 h₁ (.opening pool (threadsOf threads) branches.length)
      (branches.map .fresh) := by
    refine ⟨hnobody hunsplit, fun _ => Nat.zero_le _, fun {i s} hslot hnot => ?_⟩
    rw [List.getElem?_map, Option.map_eq_some_iff] at hslot
    obtain ⟨a, _, rfl⟩ := hslot
    exact (hnot a rfl).elim
  rcases hfork.of_fork with ⟨_, _, hc, _⟩ | ⟨g₁, g₂, z, reading, t, slots, rfl, hlast, hend, hrest⟩
  · cases hc
  rcases hrest.of_conclude with ⟨_, _, hc⟩ | ⟨_, _, hunsplit₂, _⟩
  · cases hc
  obtain ⟨n, hfirst⟩ := hlast.asked_first hopening
  have hasked := hfirst.asked
  rw [hlast.pool] at hasked
  refine ⟨n, ?_⟩
  rw [← List.append_assoc, asked_unsplit (unsplit_own.mpr hunsplit₂)]
  exact hasked

/-- When all branches have ended with reports, the ledger has all of them, in the order in which they have
asked. -/
theorem Ledger.complete {start time : Nat → Nat} {total : Nat} {order : List Nat} {t : Tally}
    {rs : List Report} (hledger : Ledger ordered branches total order start time h t
      (rs.map fun r => .ended (.ok r)) u) :
    order.Perm (List.range branches.length) ∧ order = asked t.pool h := by
  constructor
  · rw [List.perm_ext_iff_of_nodup hledger.nodup List.nodup_range]
    refine fun i => ⟨fun hmem => List.mem_range.mpr (hledger.lt_length hmem), fun hmem => ?_⟩
    by_contra hnot
    have hlt : i < (rs.map fun r => (.ended (.ok r) : Slot Activity)).length :=
      hledger.count ▸ List.mem_range.mp hmem
    obtain ⟨_, _, hbody, _⟩ := hledger.waiting (List.getElem?_eq_getElem hlt) hnot
    simp [Slot.body?] at hbody
  · -- Nobody stands in the line any more.
    have hline : t.line = [] := by
      rw [List.eq_nil_iff_forall_not_mem]
      intro i hi
      obtain ⟨b, hb⟩ := hledger.tracks.line.mp hi
      rw [List.getElem?_map, Option.map_eq_some_iff] at hb
      obtain ⟨_, _, heq⟩ := hb
      cases heq
    rw [← hledger.inLine, hline, List.append_nil]

/-- A batch that ends with reports has a ledger of all its branches. -/
theorem Run.batch_ledger {r : Report}
    (hrun : Run ordered (batch name pool threads limit branches) w h (.done (.ok r)) u) :
    ∃ rs h₁ z h₂ t start time, r = .parallel rs ∧ h = h₁ ++ .own [] z z :: h₂ ∧ t.pool = pool ∧
      Ledger ordered branches (threadsOf threads) (asked pool h) start time h₁ t
        (rs.map fun r => .ended (.ok r)) z ∧ (asked pool h).Perm (List.range branches.length) ∧
      ticks h = ticks h₁ ∧ Unsplit h₂ := by
  rcases hrun.of_batch_booked with ⟨_, _, ⟨_, _, hc⟩ | hc⟩ | ⟨_, _, hc, _⟩ |
    ⟨h₁, z, h₂, t, slots, reading, rfl, rfl, htracks, hbooked, hend, hrest⟩
  · cases hc
  · cases hc
  · cases hc
  rcases hrest.of_conclude with ⟨_, _, hc⟩ | ⟨hc, hlate, hunsplit, _⟩
  · cases hc
  cases hend with
  | @abort _ _ fault _ _ _ =>
      obtain ⟨index, fault⟩ := fault
      cases hc
  | leave harrivals hended =>
      obtain ⟨rs, hreports, rfl⟩ := htracks.all_reports harrivals hended
      rw [hreports, concluded_reports] at hc
      cases hc
      obtain ⟨order, start, time, hledger⟩ := hbooked.resolve_right fun hrefused =>
        hrefused.not_reports
      obtain ⟨hperm, hasked⟩ := hledger.complete
      have horder : order = asked t.pool (h₁ ++ .own [] z z :: h₂) := by
        rw [asked_unsplit (unsplit_own.mpr hunsplit)]
        exact hasked
      subst horder
      refine ⟨rs, h₁, z, h₂, t, start, time, rfl, rfl, rfl, hledger, hperm, ?_, hunsplit⟩
      rw [ticks_append, ticks_own, hlate, Nat.add_zero]

/-- If no branch of a ledger has held its permit longer than a bound, no more time has passed than the
rounds of the bound. -/
theorem Ledger.ticks_le {start time : Nat → Nat} {total d : Nat} {order : List Nat} {t : Tally}
    {slots : List (Slot Activity)}
    (hledger : Ledger ordered branches total order start time h t slots u)
    (htimes : ∀ k < order.length, time k ≤ d) : ticks h ≤ (branches.length ⌈/⌉ total) * d := by
  have hnow := hledger.roster.now_le hledger.somePermit htimes
  have hfew : order.length ≤ branches.length := by
    have hsub : order ⊆ List.range branches.length := fun i hi =>
      List.mem_range.mpr (hledger.lt_length hi)
    have hle := (List.subperm_of_subset hledger.nodup hsub).length_le
    rwa [List.length_range] at hle
  have hrounds : order.length ⌈/⌉ total ≤ branches.length ⌈/⌉ total := by
    rw [Nat.ceilDiv_eq_add_pred_div, Nat.ceilDiv_eq_add_pred_div]
    apply Nat.div_le_div_right
    omega
  exact Nat.le_trans hnow (Nat.mul_le_mul_right d hrounds)

/-- Bounded branches hold their permits no longer than their bound. -/
theorem Ledger.time_le {start time : Nat → Nat} {total d : Nat} {order : List Nat} {t : Tally}
    {slots : List (Slot Activity)}
    (hledger : Ledger ordered branches total order start time h t slots u)
    (hbranches : ∀ a ∈ branches, Bounded ordered d a) {k : Nat} (hk : k < order.length) :
    time k ≤ d := by
  obtain ⟨a, _, ha, _, htenure⟩ := hledger.begun (List.getElem?_eq_getElem hk)
  exact htenure.time_le (hbranches a (List.mem_of_getElem? ha))

/-- With a ledger of bounded branches, or with a branch that was refused after it, no more time has passed
than the rounds of the bound. -/
theorem ticks_le_of_booked {total d : Nat} {t : Tally} {slots : List (Slot Activity)}
    (hbooked : Booked ordered branches total h t slots u ∨ Refused ordered branches total h slots)
    (hbranches : ∀ a ∈ branches, Bounded ordered d a) :
    ticks h ≤ (branches.length ⌈/⌉ total) * d := by
  rcases hbooked with ⟨_, _, _, hledger⟩ | ⟨h₁, h₂, _, _, _, rfl, ⟨_, _, _, hledger⟩, hzero, _⟩
  · exact hledger.ticks_le fun _ => hledger.time_le hbranches
  · rw [ticks_append, hzero, Nat.add_zero]
    exact hledger.ticks_le fun _ => hledger.time_le hbranches

/-- Every permit of a batch that is split is free or held by a branch. -/
theorem Run.batch_permits {t : Tally} {slots : List (Slot Activity)} {next : Reading → Activity}
    (hrun : Run ordered (batch name pool threads limit branches) w h (.fork t slots next) u) :
    t.Tracks slots ∧ t.free + Tally.held slots = threadsOf threads := by
  have hheld : Tally.held (branches.map .fresh : List (Slot Activity)) = 0 := by
    simp [Tally.held, Slot.holds]
  rcases hrun.of_batch_opening with ⟨_, _, ⟨_, _, hc⟩ | hc⟩ | ⟨_, _, _, _, _, _, hfork⟩
  · cases hc
  · cases hc
  rcases hfork.of_fork with ⟨_, _, hc, hlast⟩ | ⟨_, _, _, _, _, _, _, _, _, hrest⟩
  · cases hc
    refine ⟨hlast.tracks (Tally.tracks_opening ..), ?_⟩
    rw [hlast.permits, hheld]
    rfl
  · rcases hrest.of_conclude with ⟨_, _, hc⟩ | ⟨hc, _⟩
    · cases hc
    · cases hc

/-- **The bound of a batch** of bounded branches: as many rounds as the permits allow, each of the bound. -/
theorem bounded_batch_rounds {d : Nat} (hbranches : ∀ a ∈ branches, Bounded ordered d a) :
    Bounded ordered ((branches.length ⌈/⌉ threadsOf threads) * d)
      (batch name pool threads limit branches) := by
  intro w h c u hrun
  rcases hrun.of_batch_booked with ⟨hzero, _⟩ | ⟨_, _, _, _, _, hbooked⟩ |
    ⟨h₁, z, h₂, _, _, reading, rfl, _, _, hbooked, _, hrest⟩
  · omega
  · exact ticks_le_of_booked hbooked hbranches
  · have hbefore := ticks_le_of_booked hbooked hbranches
    have hafter := Bounded.conclude reading _ _ _ _ hrest
    rw [ticks_append, ticks_own]
    omega

variable (e : Evaluator) (patience : Nat) (name : String) (place : Pool) (threads limit : Nat)
variable (steps : List Step)

/-- **Bounded, work-conserving fan-out.**  The batch of a parallel flow, whatever turns its branches and
others take, with as many permits as the pool has threads:

* these are the threads asked for, and at least one; a pool cannot have `2 ^ 61` threads or more, which makes
  no difference to a batch of fewer branches;
* for as long as it is split, every permit is free or held by a branch, and none is free when time
  passes while a branch waits;
* if it ends with reports, there is a roster of the whole batch, with a tenure of each branch, in the order
  in which the branches have asked for their permits: no branch takes longer than the batch, the branches
  together hold their permits no longer than all permits are there, and the batch takes no longer than the
  rounds of the longest branch;
* on the schedule of `run` the branches ask in the order of their numbers, and get their permits in it;
* under a limit no more time passes than as many rounds of the limit, and then the batch ends, unless
  a branch goes on for ever and never waits, so that no limit is reached. -/
theorem fan_out_bounded :
    (threadsOf threads ≤ max threads 1 ∧ (threads < 2 ^ 61 → threadsOf threads = max threads 1) ∧
      (steps.length < 2 ^ 61 →
        steps.length ⌈/⌉ threadsOf threads = steps.length ⌈/⌉ max threads 1)) ∧
    (∀ {ordered : Prop} {w u : World} {h : List Turn} {t : Tally} {slots : List (Slot Activity)}
        {next : Reading → Activity},
      Run ordered (batch name place threads limit (Flow.branchWorks e patience limit place 0 steps))
        w h (.fork t slots next) u →
      t.free + Tally.held slots = threadsOf threads ∧
      (Settled (.fork t slots next) → ∀ (i : Nat) (s : Slot Activity), slots[i]? = some s →
        s.holds = false → s.isEnded = false → Tally.held slots = threadsOf threads)) ∧
    (∀ {ordered : Prop} {w u : World} {h : List Turn} {r : Report},
      Run ordered (batch name place threads limit (Flow.branchWorks e patience limit place 0 steps))
        w h (.done (.ok r)) u →
      ∃ reports start time, r = .parallel reports ∧ reports.length = steps.length ∧
        (asked place h).Perm (List.range steps.length) ∧
        (Submitted place h → asked place h = List.range steps.length) ∧
        (∀ k i step, (asked place h)[k]? = some i → steps[i]? = some step →
          ∃ report, reports[i]? = some report ∧
            Tenure ordered place i (branch e limit i step.label step.settings
              (step.work e patience (i :: place))) (start k) (time k) h (.ended (.ok report)) u) ∧
        Roster (threadsOf threads) steps.length (ticks h) start time ∧
        (∀ k < steps.length, time k ≤ ticks h) ∧
        ∑ k ∈ Finset.range steps.length, time k ≤ ticks h * threadsOf threads ∧
        ticks h ≤ (steps.length ⌈/⌉ threadsOf threads) * (Finset.range steps.length).sup time) ∧
    (∀ {w u : World} {h : List Turn} {o : Outcome},
      Run True (batch name place threads limit (Flow.branchWorks e patience limit place 0 steps))
        w h (.done o) u → Submitted place h) ∧
    (limit ≠ 0 →
      (∀ ordered, Bounded ordered ((steps.length ⌈/⌉ threadsOf threads) * limit)
        (batch name place threads limit (Flow.branchWorks e patience limit place 0 steps))) ∧
      ∀ {fuel : Nat}, (steps.length ⌈/⌉ threadsOf threads) * limit ≤ fuel → ∀ w,
        (∃ o u, run fuel (batch name place threads limit
          (Flow.branchWorks e patience limit place 0 steps)) w = some (o, u)) ∨
        Spins (batch name place threads limit
          (Flow.branchWorks e patience limit place 0 steps)) w) := by
  refine ⟨⟨threadsOf_le threads, threadsOf_eq, rounds_eq⟩, ?_, ?_, Run.batch_submitted, ?_⟩
  · intro ordered w u h t slots next hrun
    obtain ⟨htracks, hpermits⟩ := hrun.batch_permits
    refine ⟨hpermits, fun hsettled i s hslot hholds hlasts => ?_⟩
    have hfree : t.free = 0 := by
      cases s with
      | fresh body => exact (hsettled.1.calm hslot).elim
      | queued body => exact hsettled.no_permit htracks hslot
      | running body => cases hholds
      | ended o => cases hlasts
    omega
  · intro ordered w u h r hrun
    obtain ⟨rs, h₁, z, h₂, t, start, time, rfl, rfl, rfl, hledger, hperm, hticks, hunsplit⟩ :=
      hrun.batch_ledger
    have hroster := hledger.roster
    rw [hperm.length_eq, List.length_range, ← hticks, Flow.branchWorks_length] at hroster
    rw [Flow.branchWorks_length] at hperm
    have hlength : rs.length = steps.length := by
      have hcount := hledger.count
      rwa [List.length_map, Flow.branchWorks_length] at hcount
    refine ⟨rs, start, time, rfl, hlength, hperm, ?_, ?_, hroster, ?_, hroster.sum_le, ?_⟩
    · rintro ⟨n, hn⟩
      have hsame := hperm.length_eq
      rw [hn, List.length_range, List.length_range] at hsame
      rw [hn, hsame]
    · intro k i step hk hstep
      obtain ⟨a, s, ha, hs, htenure⟩ := hledger.begun hk
      rw [Flow.branchWorks_of_step e patience hstep] at ha
      cases ha
      rw [List.getElem?_map, Option.map_eq_some_iff] at hs
      obtain ⟨report, hreport, rfl⟩ := hs
      have hquiet : Quiet t.pool i (.own [] z z :: h₂) :=
        quiet_cons.mpr ⟨nofun, hunsplit.quiet t.pool i⟩
      exact ⟨report, hreport, htenure.rest hquiet⟩
    · intro k hk
      have hend := hroster.inTime k hk
      omega
    · apply hroster.now_le (threadsOf_pos threads)
      intro k hk
      exact Finset.le_sup (Finset.mem_range.mpr hk)
  · intro hlimit
    have hbounded : ∀ ordered, Bounded ordered ((steps.length ⌈/⌉ threadsOf threads) * limit)
        (batch name place threads limit (Flow.branchWorks e patience limit place 0 steps)) := by
      intro ordered
      rw [← Flow.branchWorks_length e patience limit place 0 steps]
      apply bounded_batch_rounds
      intro a ha
      obtain ⟨i, hi⟩ := List.mem_iff_getElem?.mp ha
      obtain ⟨step, _, rfl⟩ := Flow.step_of_branchWorks e patience hi
      exact .branch hlimit
    exact ⟨hbounded, fun hfuel w => (hbounded True).run hfuel w⟩

end

/-- Three branches on two threads, of which the second is late: at first two of them hold the permits while
the third waits. -/
theorem fan_out_bounded_three :
    threadsOf 2 = max 2 1 ∧ 3 ⌈/⌉ threadsOf 2 = 3 ⌈/⌉ max 2 1 ∧
    (∃ (h : List Turn) (t : Tally) (slots : List (Slot Activity)) (next : Reading → Activity) (u : World)
        (body : Activity),
      Run True (batch "three" [] 2 5 (Flow.branchWorks (.standard {}) 0 5 [] 0
        [taking "quick" 3, taking "slow" 8, taking "third" 4])) {} h (.fork t slots next) u ∧
      Settled (.fork t slots next) ∧ slots[2]? = some (.queued body) ∧
      Tally.held slots = threadsOf 2) ∧
    (∃ h u start time,
      Run True (batch "three" [] 2 5 (Flow.branchWorks (.standard {}) 0 5 [] 0
        [taking "quick" 3, taking "slow" 8, taking "third" 4])) {} h
        (.done (.ok (.parallel [.completed, lateReport "slow" 5, .completed]))) u ∧
      Submitted [] h ∧ asked [] h = [0, 1, 2] ∧ Roster (threadsOf 2) 3 (ticks h) start time ∧
      ∑ i ∈ Finset.range 3, time i ≤ ticks h * threadsOf 2 ∧ ticks h ≤ 2 * 5) ∧
    ((∃ o u, run 10 (batch "three" [] 2 5 (Flow.branchWorks (.standard {}) 0 5 [] 0
        [taking "quick" 3, taking "slow" 8, taking "third" 4])) {} = some (o, u)) ∨
      Spins (batch "three" [] 2 5 (Flow.branchWorks (.standard {}) 0 5 [] 0
        [taking "quick" 3, taking "slow" 8, taking "third" 4])) {}) := by
  obtain ⟨⟨_, hthreads, hrounds⟩, hsplit, hroster, hsubmitted, hlimit⟩ :=
    fan_out_bounded (.standard {}) 0 "three" [] 2 5
      [taking "quick" 3, taking "slow" 8, taking "third" 4]
  obtain ⟨hbounded, hends⟩ := hlimit (by decide)
  refine ⟨hthreads (by decide), hrounds (by decide), ?_, ?_, hends (by decide) {}⟩
  · obtain ⟨h, _, hrun⟩ : ∃ h, Instant h ∧ Run True (batch "three" [] 2 5
        (Flow.branchWorks (.standard {}) 0 5 [] 0
          [taking "quick" 3, taking "slow" 8, taking "third" 4])) {} h _ _ :=
      (settle_reaches _ _).run
    have hsettled : Settled (settle (batch "three" [] 2 5 (Flow.branchWorks (.standard {}) 0 5 [] 0
        [taking "quick" 3, taking "slow" 8, taking "third" 4])) false {}).1 := by
      have hrests := settle_rests (batch "three" [] 2 5 (Flow.branchWorks (.standard {}) 0 5 [] 0
        [taking "quick" 3, taking "slow" 8, taking "third" 4])) {}
      rcases hrests with ⟨o, ho⟩ | hstill
      · cases ho
      · exact settled_of_still hstill rfl
    exact ⟨h, _, _, _, _, _, hrun, hsettled, rfl, (hsplit hrun).2 hsettled 2 _ rfl rfl rfl⟩
  · obtain ⟨h, _, hrun⟩ := run_reaches
      (rfl : run 3 (batch "three" [] 2 5 (Flow.branchWorks (.standard {}) 0 5 [] 0
        [taking "quick" 3, taking "slow" 8, taking "third" 4])) {} = some (_, _))
    have hordered := hsubmitted hrun
    obtain ⟨_, start, time, _, _, _, hasked, _, hfound, _, hsum, _⟩ := hroster hrun
    exact ⟨h, _, start, time, hrun, hordered, hasked hordered, hfound, hsum,
      hbounded True _ _ _ _ hrun⟩

end Activity

end Runsheet
