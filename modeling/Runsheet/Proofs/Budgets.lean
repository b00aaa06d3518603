import Mathlib.Algebra.BigOperators.Group.Finset.Piecewise
import Runsheet.Proofs.Marks

/-!
# Budgets

How often certain pieces of work are done, by a budget that each turn draws on.
`Spends clean cost final k s` says of a marked activity with the budget `k` that it never spends more
than it has, and that what is left in the end is right for its outcome, as `final` says.  Nothing is
promised about runs with turns that are not `clean`.  A split shares its budget out among its branches,
and gets back what they leave.

* `Marked.Spends.move`, `Marked.Spends.elapse` — a move draws its cost, and time costs nothing;
* `Marked.Spends.run` — what a whole run spends, and what is left.
-/

namespace Runsheet

namespace Marked

open Finset (range)

/-- The activity keeps to a budget, and leaves of it what is right for its outcome. -/
inductive Spends (clean : Mark → World → Prop) (cost : Mark → Nat) :
    (Nat → Outcome → Prop) → Nat → Marked → Prop
  | done {final : Nat → Outcome → Prop} {k : Nat} {o : Outcome} (hfinal : final k o) :
      Spends clean cost final k (.done o)
  | free {final : Nat → Outcome → Prop} {k : Nat} {s : Marked} (hs : Only (fun m => cost m = 0) s)
      (hfinal : ∀ o, final k o) : Spends clean cost final k s
  | act {final : Nat → Outcome → Prop} {k : Nat} {m : Mark} {f : World → World}
      {next : World → Marked} (hnext : ∀ w, clean m w → Spends clean cost final k (next w)) :
      Spends clean cost final (cost m + k) (.act m f next)
  | sleep {final : Nat → Outcome → Prop} {k : Nat} {m : Mark} {ms : Nat} {next : World → Marked}
      (hm : cost m = 0) (hnext : ∀ w, Spends clean cost final k (next w)) :
      Spends clean cost final k (.sleep m ms next)
  | never {final : Nat → Outcome → Prop} {k : Nat} {m : Mark} :
      Spends clean cost final k (.never m)
  | frame {mid final : Nat → Outcome → Prop} {rest k : Nat} {s : Marked}
      (hs : Spends clean cost mid k s) (hfinal : ∀ k o, mid k o → final (rest + k) o) :
      Spends clean cost final (rest + k) s
  | bind {mid final : Nat → Outcome → Prop} {k : Nat} {s : Marked} {next : Outcome → Marked}
      (hs : Spends clean cost mid k s) (hnext : ∀ k o, mid k o → Spends clean cost final k (next o)) :
      Spends clean cost final k (s.bind next)
  | within {mid final : Nat → Outcome → Prop} {k : Nat} {m : Mark} {left : Nat} {body : Marked}
      {next : Option Outcome → Marked} (hm : cost m = 0) (hbody : Spends clean cost mid k body)
      (hnext : ∀ k o, mid k o → Spends clean cost final k (next (some o)))
      (hlate : ∀ k, Spends clean cost final k (next none)) :
      Spends clean cost final k (.within m left body next)
  | fork {mid final : Nat → Outcome → Prop} {b : Nat → Nat} {m : Mark} {tally : Tally}
      {slots : List (Slot Marked)} {next : Reading → Marked} (hm : cost m = 0)
      (htracks : tally.Tracks slots)
      (hparts : ∀ i s, Ongoing slots i s → Spends clean cost mid (b i) s)
      (hended : ∀ i r, slots[i]? = some (.ended (.ok r)) → mid (b i) (.ok r))
      (hnext : ∀ (b : Nat → Nat) (reports : List Report),
        (∀ i r, reports[i]? = some r → mid (b i) (.ok r)) →
          Spends clean cost final (∑ i ∈ range reports.length, b i)
            (next (.ok (reports.map some))))
      (hfault : ∀ k fault, Spends clean cost final k (next (.error fault))) :
      Spends clean cost final (∑ i ∈ range slots.length, b i) (.fork m tally slots next)

/-- What a history costs. -/
def spent (cost : Mark → Nat) : List Turn → Nat
  | [] => 0
  | .own m _ _ _ :: h => cost m + spent cost h
  | _ :: h => spent cost h

variable {clean : Mark → World → Prop} {cost : Mark → Nat} {final mid : Nat → Outcome → Prop}
variable {ordered : Prop} {m : Mark} {way : Activity.Way} {s t : Marked} {w v : World}
variable {h : List Turn} {k : Nat}

/-- What is left in the end is right for the outcome. -/
theorem Spends.ended {o : Outcome} (hs : Spends clean cost final k (.done o)) : final k o := by
  generalize hdone : Marked.done o = s at hs
  induction hs generalizing o with
  | done hfinal =>
      cases hdone
      exact hfinal
  | free _ hfinal => exact hfinal o
  | frame _ hfinal ih => exact hfinal _ _ (ih hdone)
  | @bind mid final k s next hs hnext ih ihnext =>
      cases s with
      | done o' => exact ihnext k o' (ih rfl) hdone
      | _ => cases hdone
  | _ => cases hdone

/-- To change the budget of one branch changes the sum by as much. -/
theorem sum_update {b : Nat → Nat} {n i c d : Nat} (hi : i < n) (hb : b i = c + d) :
    ∑ j ∈ range n, b j = c + ∑ j ∈ range n, Function.update b i d j := by
  have hmem : i ∈ range n := Finset.mem_range.mpr hi
  rw [Finset.sum_update_of_mem hmem, Finset.sum_eq_add_sum_sdiff_singleton_of_mem hmem b, hb,
    Nat.add_assoc]

/-- **A move draws its cost** on the budget. -/
theorem Spends.move (hs : Spends clean cost final k s) (hmove : Move ordered m way s w t v)
    (hclean : clean m w) : ∃ d, k = cost m + d ∧ Spends clean cost final d t := by
  induction hs generalizing m way w t v with
  | done => cases hmove
  | @free final k s hs hfinal =>
      obtain ⟨hm, ht⟩ := hs.move hmove
      exact ⟨k, by rw [hm, Nat.zero_add], .free ht hfinal⟩
  | act hnext =>
      cases hmove
      exact ⟨_, rfl, hnext _ hclean⟩
  | @sleep final k m ms next hm hnext =>
      cases hmove
      exact ⟨k, by rw [hm, Nat.zero_add], hnext _⟩
  | never => cases hmove
  | @frame mid final rest k s hs hfinal ih =>
      obtain ⟨d, rfl, ht⟩ := ih hmove hclean
      exact ⟨rest + d, by omega, .frame ht hfinal⟩
  | bind hs hnext ih ihnext =>
      rcases hmove.of_bind with ⟨s', hfirst, rfl⟩ | ⟨o, rfl, hsecond⟩
      · obtain ⟨d, rfl, ht⟩ := ih hfirst hclean
        exact ⟨d, rfl, .bind ht hnext⟩
      · exact ihnext _ o hs.ended hsecond hclean
  | @within mid final k n left body next hn hbody hnext hlate ih =>
      cases hmove with
      | inside _ hmove =>
          obtain ⟨d, rfl, ht⟩ := ih hmove hclean
          exact ⟨d, rfl, .within hn ht hnext hlate⟩
      | inTime => exact ⟨k, by rw [hn, Nat.zero_add], hnext k _ hbody.ended⟩
      | late => exact ⟨k, by rw [hn, Nat.zero_add], hlate k⟩
  | @fork mid final b n tally slots next hn htracks hparts hended hnext hfault ih =>
      cases hmove with
      | @deal i _ tally' _ slot slot' _ _ _ hslot hdeal =>
          have hdealt := Tally.dealt_iff.mp hdeal
          have hlt := (List.getElem?_eq_some_iff.mp hslot).1
          have hlength : (slots.set i slot').length = slots.length := List.length_set
          refine ⟨_, by rw [hn, Nat.zero_add], ?_⟩
          rw [← hlength]
          refine .fork hn (htracks.dealt hslot hdealt)
            (fun j t ht => hparts j t (ht.of_dealt hdeal hslot)) (fun j r hr => ?_) hnext hfault
          by_cases hji : j = i
          · subst hji
            rw [List.getElem?_set_self hlt, Option.some.injEq] at hr
            subst hr
            cases hdealt.refused.2
          · rw [List.getElem?_set_ne (Ne.symm hji)] at hr
            exact hended j r hr
      | @branch _ _ i _ _ s t _ _ _ hturn hslot hmove =>
          have hlt := (List.getElem?_eq_some_iff.mp hslot).1
          obtain ⟨d, hd, ht⟩ := ih i s (ongoing_running hslot) hmove hclean
          have hlength : (slots.set i (.running t)).length = slots.length := List.length_set
          refine ⟨_, sum_update hlt hd, ?_⟩
          rw [← hlength]
          refine .fork hn (htracks.works hslot) (fun j r hr => ?_) (fun j r hr => ?_) hnext hfault
          · rcases hr.of_set with ⟨rfl, heq⟩ | ⟨hne, hold⟩
            · cases heq
              rw [Function.update_self]
              exact ht
            · rw [Function.update_of_ne hne]
              exact hparts j r hold
          · by_cases hji : j = i
            · subst hji
              rw [List.getElem?_set_self hlt] at hr
              cases hr
            · rw [List.getElem?_set_ne (Ne.symm hji)] at hr
              rw [Function.update_of_ne hji]
              exact hended j r hr
      | @finish i _ _ o _ _ hturn hslot =>
          have hlt := (List.getElem?_eq_some_iff.mp hslot).1
          have hlength : (slots.set i (.ended o)).length = slots.length := List.length_set
          refine ⟨_, by rw [hn, Nat.zero_add], ?_⟩
          rw [← hlength]
          refine .fork hn (htracks.finish hslot) (fun j t ht => hparts j t ht.of_set_ended.2)
            (fun j r hr => ?_) hnext hfault
          by_cases hji : j = i
          · subst hji
            rw [List.getElem?_set_self hlt] at hr
            cases hr
            exact (hparts j _ (ongoing_running hslot)).ended
          · rw [List.getElem?_set_ne (Ne.symm hji)] at hr
            exact hended j r hr
      | read _ harrivals hverdict =>
          refine ⟨_, by rw [hn, Nat.zero_add], ?_⟩
          exact .fork hn (htracks.read harrivals hverdict) hparts hended hnext hfault
      | abort => exact ⟨_, by rw [hn, Nat.zero_add], hfault _ _⟩
      | leave harrivals hall =>
          obtain ⟨reports, hreports, rfl⟩ := htracks.all_reports harrivals hall
          refine ⟨_, by rw [hn, Nat.zero_add], ?_⟩
          rw [hreports, List.length_map]
          exact hnext b reports fun i r hr => hended i r (by simp [hr])

theorem Spends.elapse (hs : Spends clean cost final k s) (ms : Nat) :
    Spends clean cost final k (s.elapse ms) := by
  induction hs with
  | done hfinal => exact .done hfinal
  | free hs hfinal => exact .free (hs.elapse ms) hfinal
  | act hnext => exact .act hnext
  | sleep hm hnext => exact .sleep hm hnext
  | never => exact .never
  | frame _ hfinal ih => exact .frame ih hfinal
  | @bind mid final k s next hs hnext ih ihnext =>
      rcases elapse_bind s next ms with heq | ⟨o, rfl⟩
      · exact heq ▸ .bind ih hnext
      · exact ihnext k o hs.ended
  | within hm _ hnext hlate ih => exact .within hm ih hnext hlate
  | @fork mid final b n tally slots next hn htracks hparts hended hnext hfault ih =>
      have hlength : (elapseSlots ms slots).length = slots.length := by simp [elapseSlots_eq_map]
      rw [← hlength]
      refine .fork hn (tracks_elapse htracks ms) (fun i t ht => ?_)
        (fun i r hr => hended i r (elapse_eq_ended.mp hr)) hnext hfault
      obtain ⟨s, hs, rfl | ⟨-, rfl⟩⟩ := of_ongoing_elapse ht
      · exact hparts i _ hs
      · exact ih i s hs

/-- **What a run spends** and what is left are the budget. -/
theorem Spends.run (hs : Spends clean cost final k s) (hrun : Run ordered s w h t v)
    (hclean : ∀ m way x y, .own m way x y ∈ h → clean m x) :
    ∃ d, k = spent cost h + d ∧ Spends clean cost final d t := by
  induction hrun generalizing k with
  | stop => exact ⟨k, by rw [spent, Nat.zero_add], hs⟩
  | own hmove _ ih =>
      obtain ⟨d, rfl, ht⟩ := hs.move hmove (hclean _ _ _ _ (List.mem_cons_self ..))
      obtain ⟨c, rfl, hr⟩ := ih ht fun m way x y hmem =>
        hclean m way x y (List.mem_cons_of_mem _ hmem)
      exact ⟨c, by rw [spent, Nat.add_assoc], hr⟩
  | other _ ih => exact ih hs fun m way x y hmem => hclean m way x y (List.mem_cons_of_mem _ hmem)
  | tick _ _ ih =>
      exact ih (hs.elapse 1) fun m way x y hmem => hclean m way x y (List.mem_cons_of_mem _ hmem)

end Marked

end Runsheet
