import Mathlib.Algebra.BigOperators.Intervals
import Mathlib.Algebra.Order.BigOperators.Group.Finset
import Mathlib.Algebra.Order.Floor.Div
import Mathlib.Data.Nat.Count

/-!
# Occupancy

How many branches hold a permit at each moment.  A `Roster` gives the moment at which each branch got its
permit and the time for which it has held it, so that permits are handed out in order, never to more
branches than there are permits, and a branch waits only while all of them are held.

* `Roster.sum_le` — the branches together hold permits for as long as there are permits, at most;
* `Roster.start_le` — a branch waits for the rounds of branches before it;
* `Roster.now_le` — all branches together take as many rounds as the permits allow;
* `Roster.now_mono` — with more permits they take no longer.
-/

namespace Runsheet

namespace Activity

/-- How many of the first branches hold a permit at a moment. -/
def busy (start time : Nat → Nat) (n t : Nat) : Nat :=
  Nat.count (fun i => start i ≤ t ∧ t < start i + time i) n

/-- **A roster**: the moments at which the first branches got their permits and the times for which they
have held them until now. -/
structure Roster (permits n now : Nat) (start time : Nat → Nat) : Prop where
  /-- At no moment more branches hold a permit than there are permits. -/
  few : ∀ t, busy start time n t ≤ permits
  /-- Permits are handed out in the order of the branches. -/
  inOrder : ∀ i j, i ≤ j → j < n → start i ≤ start j
  /-- While a branch waits, the branches before it hold all permits. -/
  full : ∀ k < n, ∀ t < start k, busy start time k t = permits
  /-- No branch has held its permit beyond this moment. -/
  inTime : ∀ i < n, start i + time i ≤ now
  /-- Some branch has held its permit up to this moment. -/
  last : now = 0 ∨ ∃ i < n, start i + time i = now

variable {permits n now k t d : Nat} {start time start' time' : Nat → Nat}

/-! ### Counting -/

theorem busy_succ : busy start time (n + 1) t =
    busy start time n t + if start n ≤ t ∧ t < start n + time n then 1 else 0 :=
  Nat.count_succ ..

theorem busy_mono (hk : k ≤ n) : busy start time k t ≤ busy start time n t :=
  Nat.count_monotone _ hk

/-- If each of the first branches is busy in one roster only when it is in the other, no more are. -/
theorem busy_le (hmore : ∀ i < n, (start i ≤ t ∧ t < start i + time i) →
    (start' i ≤ t ∧ t < start' i + time' i)) : busy start time n t ≤ busy start' time' n t := by
  induction n with
  | zero => exact Nat.le_refl _
  | succ n ih =>
      have hbefore := ih fun i hi => hmore i (by omega)
      have hlast := hmore n (by omega)
      rw [busy_succ, busy_succ]
      split
      · rw [if_pos (hlast (by assumption))]
        omega
      · omega

/-- Branches that are busy at the same time count the same. -/
theorem busy_congr (hsame : ∀ i < n, (start i ≤ t ∧ t < start i + time i) ↔
    (start' i ≤ t ∧ t < start' i + time' i)) : busy start time n t = busy start' time' n t :=
  Nat.le_antisymm (busy_le fun i hi => (hsame i hi).mp) (busy_le fun i hi => (hsame i hi).mpr)

theorem busy_eq_zero (hnone : ∀ i < n, ¬ (start i ≤ t ∧ t < start i + time i)) :
    busy start time n t = 0 := by
  induction n with
  | zero => rfl
  | succ n ih =>
      have hbefore := ih fun i hi => hnone i (by omega)
      have hlast := hnone n (by omega)
      rw [busy_succ, hbefore, if_neg hlast]

/-- Where some branch counts, there is one. -/
theorem exists_busy (hbusy : 0 < busy start time n t) :
    ∃ i < n, start i ≤ t ∧ t < start i + time i := by
  by_contra hnone
  push Not at hnone
  have hzero : busy start time n t = 0 := by
    apply busy_eq_zero
    intro i hi hwithin
    have hover := hnone i hi hwithin.1
    omega
  omega

/-- If the first branches are not busy, only those after them can be. -/
theorem busy_le_rest (hnone : ∀ i < n, ¬ (start i ≤ t ∧ t < start i + time i)) (rest : Nat) :
    busy start time (n + rest) t ≤ rest := by
  induction rest with
  | zero => exact Nat.le_of_eq (busy_eq_zero hnone)
  | succ rest ih =>
      rw [← Nat.add_assoc, busy_succ]
      split <;> omega

/-- The branches that hold a permit as the last moment passes. -/
theorem busy_eq_count {holds : Nat → Bool}
    (hholds : ∀ i < n, (start i ≤ t ∧ t < start i + time i) ↔ holds i = true) :
    busy start time n t = Nat.count (fun i => holds i = true) n := by
  induction n with
  | zero => rfl
  | succ n ih =>
      have hbefore := ih fun i hi => hholds i (by omega)
      have hlast := hholds n (by omega)
      rw [busy_succ, Nat.count_succ, hbefore]
      simp only [hlast]

/-- The moments up to now at which a branch holds its permit are the time for which it holds it. -/
theorem sum_moments {s : Nat} (hend : s + d ≤ now) :
    (∑ t ∈ Finset.range now, if s ≤ t ∧ t < s + d then 1 else 0) = d := by
  have hmoments : {t ∈ Finset.range now | s ≤ t ∧ t < s + d} = Finset.Ico s (s + d) := by
    ext t
    simp only [Finset.mem_filter, Finset.mem_range, Finset.mem_Ico]
    omega
  rw [← Finset.card_filter, hmoments, Nat.card_Ico]
  omega

theorem busy_eq_sum : busy start time n t =
    ∑ i ∈ Finset.range n, if start i ≤ t ∧ t < start i + time i then 1 else 0 := by
  induction n with
  | zero => rfl
  | succ n ih => rw [busy_succ, ih, Finset.sum_range_succ]

namespace Roster

/-! ### What a roster bounds -/

/-- **The branches together** hold permits for as long as all permits are there, at most. -/
theorem sum_le (hroster : Roster permits n now start time) :
    ∑ i ∈ Finset.range n, time i ≤ now * permits := by
  have heach : ∀ i ∈ Finset.range n, time i =
      ∑ t ∈ Finset.range now, if start i ≤ t ∧ t < start i + time i then 1 else 0 := by
    intro i hi
    have hend := hroster.inTime i (Finset.mem_range.mp hi)
    exact (sum_moments hend).symm
  calc ∑ i ∈ Finset.range n, time i
      = ∑ i ∈ Finset.range n, ∑ t ∈ Finset.range now,
          (if start i ≤ t ∧ t < start i + time i then 1 else 0) := Finset.sum_congr rfl heach
    _ = ∑ t ∈ Finset.range now, busy start time n t := by
        rw [Finset.sum_comm]
        simp only [busy_eq_sum]
    _ ≤ (Finset.range now).card • permits :=
        Finset.sum_le_card_nsmul _ _ _ fun t _ => hroster.few t
    _ = now * permits := by simp

/-- **A branch waits for the rounds before it**: when a whole round of branches would have had the time to
come to its end, one of the permits is free. -/
theorem start_le (hroster : Roster permits n now start time) (hpermits : 0 < permits)
    (htimes : ∀ i < n, time i ≤ d) (hk : k < n) : start k ≤ k / permits * d := by
  induction k using Nat.strongRecOn with
  | ind k ih =>
      by_contra hlate
      have hfull := hroster.full k hk (k / permits * d) (by omega)
      -- Only the branches of the last, unfinished round are still busy at that moment.
      have hover : ∀ i < k / permits * permits,
          ¬ (start i ≤ k / permits * d ∧ k / permits * d < start i + time i) := by
        intro i hi hbusy
        have hik : i < k := lt_of_lt_of_le hi (Nat.div_mul_le_self k permits)
        have hbegins := ih i hik (by omega)
        have htime := htimes i (by omega)
        have hround : i / permits + 1 ≤ k / permits :=
          Nat.div_lt_of_lt_mul (by rwa [Nat.mul_comm])
        have hrounds : (i / permits + 1) * d ≤ k / permits * d := Nat.mul_le_mul_right d hround
        rw [Nat.add_mul, Nat.one_mul] at hrounds
        omega
      have hrest : k % permits < permits := Nat.mod_lt k hpermits
      have hcount := busy_le_rest hover (k % permits)
      rw [Nat.div_add_mod'] at hcount
      omega

/-- **All branches together** take as many rounds as the permits allow. -/
theorem now_le (hroster : Roster permits n now start time) (hpermits : 0 < permits)
    (htimes : ∀ i < n, time i ≤ d) : now ≤ (n ⌈/⌉ permits) * d := by
  rcases hroster.last with hzero | ⟨i, hi, hend⟩
  · omega
  · have hbegins := hroster.start_le hpermits htimes hi
    have htime := htimes i hi
    have hround : i / permits + 1 ≤ n ⌈/⌉ permits := by
      have hmul : i / permits * permits ≤ i := Nat.div_mul_le_self i permits
      rw [Nat.ceilDiv_eq_add_pred_div, Nat.le_div_iff_mul_le hpermits, Nat.add_mul, Nat.one_mul]
      omega
    have hrounds : (i / permits + 1) * d ≤ (n ⌈/⌉ permits) * d := Nat.mul_le_mul_right d hround
    rw [Nat.add_mul, Nat.one_mul] at hrounds
    omega

/-! ### More permits -/

section

variable {more now' : Nat} (hroster : Roster permits n now start time)
  (hlarger : Roster more n now' start' time') (hle : permits ≤ more)
  (hsame : ∀ i < n, time' i = time i)

include hroster hlarger hle hsame

/-- **With more permits no branch begins later** that holds its permit for some time.  If it did, the
branches before it would hold all the permits at the moment at which it begins with fewer of them, and with
the branch itself they would be too many. -/
theorem start_mono {k : Nat} (hk : k < n) (htime : 0 < time k) : start' k ≤ start k := by
  induction k using Nat.strongRecOn with
  | ind k ih =>
      by_contra hlate
      have hcrowd : more ≤ busy start time k (start k) := by
        rw [← hlarger.full k hk (start k) (by omega)]
        apply busy_le
        intro i hi hbusy
        have hdone := hsame i (by omega)
        have hbegins := ih i hi (by omega) (by omega)
        have hbefore := hroster.inOrder i k (by omega) hk
        omega
      have hfew := hroster.few (start k)
      have hself : busy start time (k + 1) (start k) = busy start time k (start k) + 1 := by
        rw [busy_succ, if_pos ⟨Nat.le_refl _, by omega⟩]
      have hmono : busy start time (k + 1) (start k) ≤ busy start time n (start k) := busy_mono hk
      omega

/-- **With more permits the branches together take no longer.**  The last branch that works for some time
begins no later, and one that takes no time waits for such a branch if it waits at all. -/
theorem now_mono (hpermits : 0 < more) : now' ≤ now := by
  have hworks : ∀ i < n, 0 < time i → start' i + time' i ≤ now := by
    intro i hi htime
    have hbegins := hroster.start_mono hlarger hle hsame hi htime
    have hend := hroster.inTime i hi
    rw [hsame i hi]
    omega
  rcases hlarger.last with hzero | ⟨k, hk, hend⟩
  · omega
  · rcases Nat.eq_zero_or_pos (time k) with hnone | hsome
    · have hinstant := hsame k hk
      by_cases hwaits : start' k = 0
      · omega
      · have hfull := hlarger.full k hk (start' k - 1) (by omega)
        obtain ⟨j, hj, hbusy⟩ : ∃ j < k, start' j ≤ start' k - 1 ∧ start' k - 1 < start' j + time' j :=
          exists_busy (by omega)
        have htime := hsame j (by omega)
        have hbefore := hworks j (by omega) (by omega)
        omega
    · have hbefore := hworks k hk hsome
      omega

end

/-! ### How a roster grows -/

theorem empty : Roster permits 0 0 start time where
  few _ := Nat.zero_le _
  inOrder := by omega
  full := by omega
  inTime := by omega
  last := Or.inl rfl

/-- The next branch gets its permit now: it has waited while all permits were held. -/
theorem next (hroster : Roster permits n now start time)
    (hwaited : ∀ t < now, busy start time n t = permits) :
    Roster permits (n + 1) now (Function.update start n now) (Function.update time n 0) := by
  have hstart : ∀ i < n, Function.update start n now i = start i := fun i hi =>
    Function.update_of_ne (by omega) ..
  have htime : ∀ i < n, Function.update time n 0 i = time i := fun i hi =>
    Function.update_of_ne (by omega) ..
  have hbefore : ∀ k ≤ n, ∀ t, busy (Function.update start n now) (Function.update time n 0) k t =
      busy start time k t := by
    intro k hk t
    apply busy_congr
    intro i hi
    rw [hstart i (by omega), htime i (by omega)]
  constructor
  case few =>
    intro t
    have hfew := hroster.few t
    rw [busy_succ, hbefore n (Nat.le_refl n), Function.update_self, Function.update_self,
      if_neg (by omega)]
    exact hfew
  case inOrder =>
    intro i j hij hj
    by_cases hlast : j = n
    · subst hlast
      by_cases hi : i = j
      · subst hi
        exact Nat.le_refl _
      · have hend := hroster.inTime i (by omega)
        rw [hstart i (by omega), Function.update_self]
        omega
    · rw [hstart i (by omega), hstart j (by omega)]
      exact hroster.inOrder i j hij (by omega)
  case full =>
    intro k hk t ht
    rw [hbefore k (by omega)]
    by_cases hlast : k = n
    · subst hlast
      rw [Function.update_self] at ht
      exact hwaited t ht
    · rw [hstart k (by omega)] at ht
      exact hroster.full k (by omega) t ht
  case inTime =>
    intro i hi
    by_cases hlast : i = n
    · subst hlast
      rw [Function.update_self, Function.update_self]
      omega
    · rw [hstart i (by omega), htime i (by omega)]
      exact hroster.inTime i (by omega)
  case last => exact Or.inr ⟨n, by omega, by rw [Function.update_self, Function.update_self]; omega⟩

/-- The times of the branches when a moment has passed in which some of them held their permits. -/
def later (holds : Nat → Bool) (time : Nat → Nat) (i : Nat) : Nat :=
  if holds i then time i + 1 else time i

section

variable {holds : Nat → Bool}

/-- Before the moment that passes, the same branches were busy. -/
theorem busy_later (hholds : ∀ i < n, holds i = true → start i + time i = now) (ht : t < now) :
    busy start (later holds time) n t = busy start time n t := by
  apply busy_congr
  intro i hi
  have hopen := hholds i hi
  unfold later
  split
  · have hnow := hopen (by assumption)
    omega
  · exact Iff.rfl

/-- In the moment that passes, the branches are busy that hold their permits. -/
theorem busy_now (hroster : Roster permits n now start time)
    (hholds : ∀ i < n, holds i = true → start i + time i = now) :
    busy start (later holds time) n now = Nat.count (fun i => holds i = true) n := by
  apply busy_eq_count
  intro i hi
  have hend := hroster.inTime i hi
  have hopen := hholds i hi
  unfold later
  by_cases hi' : holds i = true
  · have hnow := hopen hi'
    simp only [hi', if_true, iff_true]
    omega
  · rw [if_neg hi']
    refine iff_of_false ?_ hi'
    omega

/-- A moment passes in which some branches hold their permits, and no more than there are permits. -/
theorem tick (hroster : Roster permits n now start time)
    (hholds : ∀ i < n, holds i = true → start i + time i = now)
    (hfew : Nat.count (fun i => holds i = true) n ≤ permits) (hsome : ∃ i < n, holds i = true) :
    Roster permits n (now + 1) start (later holds time) := by
  have hinTime : ∀ i < n, start i + later holds time i ≤ now + 1 := by
    intro i hi
    have hend := hroster.inTime i hi
    unfold later
    split <;> omega
  constructor
  case few =>
    intro t
    rcases Nat.lt_trichotomy t now with hbefore | rfl | hafter
    · rw [busy_later hholds hbefore]
      exact hroster.few t
    · rw [hroster.busy_now hholds]
      exact hfew
    · have hnone : ∀ i < n, ¬ (start i ≤ t ∧ t < start i + later holds time i) := by
        intro i hi
        have hend := hinTime i hi
        omega
      rw [busy_eq_zero hnone]
      exact Nat.zero_le _
  case inOrder => exact hroster.inOrder
  case full =>
    intro k hk t ht
    have hend := hroster.inTime k hk
    rw [busy_later (fun i hi => hholds i (by omega)) (by omega)]
    exact hroster.full k hk t ht
  case inTime => exact hinTime
  case last =>
    obtain ⟨i, hi, hi'⟩ := hsome
    have hnow := hholds i hi hi'
    refine Or.inr ⟨i, hi, ?_⟩
    simp only [later, hi', if_true]
    omega

end

end Roster

end Activity

end Runsheet
