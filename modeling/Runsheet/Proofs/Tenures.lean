import Mathlib.Data.List.Nodup
import Mathlib.Data.Nat.Count
import Runsheet.Proofs.Deadlines

/-!
# Tenures

Who got a permit of a split when, and for how long.  Branches ask for permits in any order; the one that
gets one holds it from that turn of its until another turn, in which it gives it back.

* `asked` — the branches of a split in the order in which they asked;
* `Tenure` — what a branch does between getting its permit and giving it back;
* `Tenure.works`, `Tenure.stays`, `Tenure.tick` — a tenure along the turns of a history;
* `held_eq_count` — the permits that are held, counted along a list of branches.
-/

namespace Runsheet

namespace Activity

variable {ordered : Prop} {way : Way} {a b c : Activity} {w v u x : World} {h g : List Turn}
variable {pool : Pool} {i j start time : Nat} {o : Outcome} {s s' : Slot Activity} {step : Turn}

/-! ### Who has asked -/

/-- The branches that have asked after one more turn. -/
def ask (pool : Pool) (seen : List Nat) : Turn → List Nat
  | .own ((p, i) :: _) _ _ => if p = pool ∧ i ∉ seen then seen ++ [i] else seen
  | _ => seen

/-- **The branches of a split in the order in which they asked for their permits.**  A branch asks in its
first turn. -/
def asked (pool : Pool) (h : List Turn) : List Nat :=
  h.foldl (ask pool) []

theorem asked_snoc : asked pool (h ++ [step]) = ask pool (asked pool h) step := by
  simp [asked]

theorem asked_own : asked pool (h ++ [.own ((pool, i) :: way) w v]) =
    if i ∈ asked pool h then asked pool h else asked pool h ++ [i] := by
  rw [asked_snoc, ask]
  by_cases hi : i ∈ asked pool h <;> simp [hi]

theorem nodup_asked : (asked pool h).Nodup := by
  induction h using List.reverseRecOn with
  | nil => exact List.nodup_nil
  | append_singleton h turn ih =>
      rw [asked_snoc]
      unfold ask
      split
      · split
        next hnew =>
          exact List.nodup_append.mpr ⟨ih, List.nodup_singleton _, fun a ha b hb hab => by
            obtain rfl := List.mem_singleton.mp hb
            exact hnew.2 (hab ▸ ha)⟩
        next => exact ih
      · exact ih

/-- Nobody asks in the turns that are no turns of branches. -/
theorem asked_unsplit (hunsplit : Unsplit g) : asked pool (h ++ g) = asked pool h := by
  induction g using List.reverseRecOn with
  | nil => rw [List.append_nil]
  | append_singleton g turn ih =>
      obtain ⟨hg, hturn⟩ := unsplit_append.mp hunsplit
      rw [← List.append_assoc, asked_snoc, ih hg]
      rcases turn with ⟨_ | ⟨step, way⟩, w, v⟩ | ⟨w, v⟩ | _
      · rfl
      · cases hturn _ _ _ (List.mem_singleton.mpr rfl)
      · rfl
      · rfl

/-- What comes before the first turn of a branch does not matter. -/
theorem asked_after (hunsplit : Unsplit g) : asked pool (g ++ h) = asked pool h := by
  have hnobody : asked pool g = [] := asked_unsplit (h := []) hunsplit
  rw [asked, List.foldl_append, ← asked, hnobody]
  rfl

/-! ### The tenure of a branch -/

/-- **The tenure of a branch** along a history of its split: it got its permit after `start` milliseconds,
and in a run of its own it has held it for `time` milliseconds.  It holds it still, or has given it back
at its end. -/
inductive Tenure (ordered : Prop) (pool : Pool) (i : Nat) (a : Activity) (start time : Nat) :
    List Turn → Slot Activity → World → Prop
  | holds {h₁ h₂ : List Turn} {v u : World} {b : Activity} (hpatient : Patient pool i h₁)
      (hstart : ticks h₁ = start) (hrun : Run ordered a v (view pool i h₂) b u)
      (htime : ticks h₂ = time) :
      Tenure ordered pool i a start time (h₁ ++ .own [(pool, i)] v v :: h₂) (.running b) u
  | past {h₁ h₂ h₃ : List Turn} {v x u : World} {o : Outcome} (hpatient : Patient pool i h₁)
      (hstart : ticks h₁ = start) (hrun : Run ordered a v (view pool i h₂) (.done o) x)
      (htime : ticks h₂ = time) (hafter : Quiet pool i h₃) :
      Tenure ordered pool i a start time
        (h₁ ++ .own [(pool, i)] v v :: (h₂ ++ .own [(pool, i)] x x :: h₃)) (.ended o) u

namespace Tenure

/-- A branch that gets its permit. -/
theorem begin (hpatient : Patient pool i h) :
    Tenure ordered pool i a (ticks h) 0 (h ++ [.own [(pool, i)] u u]) (.running a) u :=
  .holds hpatient rfl .stop rfl

/-- A branch that has its permit works. -/
theorem works (htenure : Tenure ordered pool i a start time h (.running b) u)
    (hmove : Move ordered way b u c v) :
    Tenure ordered pool i a start time (h ++ [.own ((pool, i) :: way) u v]) (.running c) v := by
  cases htenure with
  | holds hpatient hstart hrun htime =>
      rw [List.append_assoc, List.cons_append]
      exact .holds hpatient hstart (hrun.append_view (hmove.run_view pool i)) (by simpa using htime)

/-- A branch that is done gives its permit back. -/
theorem finish (htenure : Tenure ordered pool i a start time h (.running (.done o)) u) :
    Tenure ordered pool i a start time (h ++ [.own [(pool, i)] u u]) (.ended o) u := by
  cases htenure with
  | holds hpatient hstart hrun htime =>
      rw [List.append_assoc, List.cons_append]
      exact .past hpatient hstart hrun htime quiet_nil

/-- Nothing that happens without the branch changes its tenure once it is over. -/
theorem rest (htenure : Tenure ordered pool i a start time h (.ended o) u) (hquiet : Quiet pool i g) :
    Tenure ordered pool i a start time (h ++ g) (.ended o) v := by
  cases htenure with
  | past hbefore hstart hrun htime hafter =>
      rw [List.append_assoc, List.cons_append, List.append_assoc, List.cons_append]
      exact .past hbefore hstart hrun htime (quiet_append.mpr ⟨hafter, hquiet⟩)

/-- A turn of others leaves the tenure of a branch as it is. -/
theorem stays (htenure : Tenure ordered pool i a start time h s u)
    (hseen : step.seenBy pool i = .other u v) :
    Tenure ordered pool i a start time (h ++ [step]) s v := by
  have hview : view pool i [step] = [.other u v] := by simp [view, hseen]
  have hticks : ticks [step] = 0 := by
    rw [← ticks_view pool i, hview]
    rfl
  cases s with
  | fresh b => cases htenure
  | queued b => cases htenure
  | running b =>
      cases htenure with
      | holds hpatient hstart hrun htime =>
          have hturn : Run ordered b u (view pool i [step]) b v := by
            rw [hview]
            exact .other .stop
          rw [List.append_assoc, List.cons_append]
          refine .holds hpatient hstart (hrun.append_view hturn) ?_
          rw [ticks_append, htime, hticks]
          rfl
  | ended o => exact htenure.rest (quiet_of_seenBy hseen)

/-- A branch that waits holds its permit for one millisecond more. -/
theorem tick (htenure : Tenure ordered pool i a start time h (.running b) u) (hsettled : Settled b) :
    Tenure ordered pool i a start (time + 1) (h ++ [.tick]) (.running (elapse 1 b)) (u.wait 1) := by
  cases htenure with
  | holds hpatient hstart hrun htime =>
      have hturn : Run ordered b u (view pool i [.tick]) (elapse 1 b) (u.wait 1) :=
        .tick hsettled .stop
      rw [List.append_assoc, List.cons_append]
      refine .holds hpatient hstart (hrun.append_view hturn) ?_
      rw [ticks_append, htime]
      rfl

/-- A branch that holds its permit has held it until now. -/
theorem until_now (htenure : Tenure ordered pool i a start time h (.running b) u) :
    start + time = ticks h := by
  cases htenure with
  | holds hpatient hstart hrun htime =>
      rw [ticks_append, ticks_own]
      omega

/-- A branch that has a tenure does not wait for its permit any more. -/
theorem not_waiting (htenure : Tenure ordered pool i a start time h s u) (hbody : s.body? = some b) :
    s.holds = true := by
  cases htenure with
  | holds => rfl
  | past => cases hbody

/-- A bounded branch holds its permit no longer than its bound. -/
theorem time_le {n : Nat} (htenure : Tenure ordered pool i a start time h s u)
    (hbound : Bounded ordered n a) : time ≤ n := by
  cases htenure with
  | holds hpatient hstart hrun htime =>
      have hle := hbound _ _ _ _ hrun
      rw [ticks_view] at hle
      omega
  | past hpatient hstart hrun htime hafter =>
      have hle := hbound _ _ _ _ hrun
      rw [ticks_view] at hle
      omega

end Tenure

/-! ### The permits that are held -/

/-- Does a branch hold a permit? -/
def holds (slots : List (Slot Activity)) (i : Nat) : Bool :=
  slots[i]?.any Slot.holds

/-- Does the branch at a place of a list hold a permit? -/
def holdsAt (order : List Nat) (slots : List (Slot Activity)) (k : Nat) : Bool :=
  order[k]?.any (holds slots)

theorem holds_iff {slots : List (Slot Activity)} :
    holds slots i = true ↔ ∃ b, slots[i]? = some (.running b) := by
  unfold holds
  cases slots[i]? with
  | none => simp
  | some s => cases s <;> simp [Slot.holds]

theorem holdsAt_iff {order : List Nat} {slots : List (Slot Activity)} {k : Nat} :
    holdsAt order slots k = true ↔ ∃ i b, order[k]? = some i ∧ slots[i]? = some (.running b) := by
  unfold holdsAt
  cases order[k]? with
  | none => simp
  | some i => simp [holds_iff]

private theorem countP_eq_count {α : Type} (p : α → Bool) (l : List α) :
    l.countP p = Nat.count (fun k => l[k]?.any p = true) l.length := by
  induction l using List.reverseRecOn with
  | nil => rfl
  | append_singleton l a ih =>
      have hbefore : Nat.count (fun k => (l ++ [a])[k]?.any p = true) l.length =
          Nat.count (fun k => l[k]?.any p = true) l.length := by
        rw [Nat.count_eq_card_filter_range, Nat.count_eq_card_filter_range]
        congr 1
        apply Finset.filter_congr
        intro k hk
        rw [Finset.mem_range] at hk
        rw [List.getElem?_append_left hk]
      rw [List.length_append, List.length_singleton, Nat.count_succ, hbefore, ← ih,
        List.countP_append]
      simp [List.countP_singleton]

/-- The permits that branches hold, counted along a list in which every branch that holds one has a
place. -/
theorem held_eq_count {order : List Nat} {slots : List (Slot Activity)} (hnodup : order.Nodup)
    (hall : ∀ i b, slots[i]? = some (.running b) → i ∈ order) :
    Tally.held slots = Nat.count (fun k => holdsAt order slots k = true) order.length := by
  have hslots : Tally.held slots = (List.range slots.length).countP (holds slots) := by
    rw [Tally.held, countP_eq_count, countP_eq_count, List.length_range,
      Nat.count_eq_card_filter_range, Nat.count_eq_card_filter_range]
    congr 1
    apply Finset.filter_congr
    intro k hk
    rw [Finset.mem_range] at hk
    rw [List.getElem?_range hk]
    rfl
  have hsame : ((List.range slots.length).filter (holds slots)).Perm
      (order.filter (holds slots)) := by
    rw [List.perm_ext_iff_of_nodup (List.nodup_range.filter _) (hnodup.filter _)]
    intro i
    rw [List.mem_filter, List.mem_filter, List.mem_range, and_congr_left_iff]
    intro hholds
    obtain ⟨b, hb⟩ := holds_iff.mp hholds
    exact ⟨fun _ => hall i b hb, fun _ => (List.getElem?_eq_some_iff.mp hb).1⟩
  rw [hslots, List.countP_eq_length_filter, hsame.length_eq, ← List.countP_eq_length_filter,
    countP_eq_count]
  rfl

end Activity

end Runsheet
