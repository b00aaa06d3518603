import Runsheet.Proofs.Layers

/-!
# The addresses of faults

A piece of work that faults ends everything around it.  Sequences, repetitions, choices and limits hand the
fault on as it is.  A branch that ends with a fault gives its permit back; then the batch reads the fault, as
the first one that there is, and puts the number of the branch before it.  So a fault comes out of a flow
with the numbers of all branches on the way to it, the outermost first.

Two things can come before it.  Until the batch has a fault to read another branch may end with one, and a
limit around the batch may be over while the batch has nothing to read.  Neither happens in the order in
which a flow runs by itself.

* `Marked.Fated` — an activity in which a fault is on its way out;
* `Marked.Works.fated` — that is what a fault leaves, wherever it happens;
* `Marked.Fated.move`, `Marked.Fated.run` — it stays so until the fault is out, unless a rival comes before it
  or a limit cuts it off;
* `Marked.Fated.comes_out` — and it can come out at once;
* `fault_keeps_address` — what this says about the runs of a flow.
-/

namespace Runsheet

open Activity (Way)

namespace Fault

/-- The text of a fault with the numbers of the branches that it came through. -/
def trail (text : String) : List Nat → String
  | [] => text
  | i :: rest => "Parallel branch " ++ toString i ++ " faulted: " ++ trail text rest

/-- A fault as it comes out of branches of batches, the outermost first. -/
def under (fault : Fault) : List Nat → Fault
  | [] => fault
  | i :: rest => .branchFault i (trail fault.message rest)

theorem message_under (fault : Fault) (is : List Nat) :
    (fault.under is).message = trail fault.message is := by
  cases is with
  | nil => rfl
  | cons i rest => rfl

end Fault

namespace Marked

/-- Nothing but reports is to be read. -/
def Reported (arrivals : List Arrival) : Prop :=
  ∀ arrival ∈ arrivals, ∃ j r, arrival = .ok (j, .ok r)

/-- **A fault is on its way out** of the branches on a path: it is what is left, or only the end of the batch
around it; or a branch on the path is fated and no fault of another one is to be read; or the branch has ended
with the fault, and nothing but reports is to be read before it. -/
inductive Fated (ordered : Prop) (fault : Fault) : Way → Marked → Prop
  | out {path : Way} : Fated ordered fault path (.done (.error (fault.under (path.map Prod.snd))))
  | act {path : Way} {m : Mark} {f : World → World} {next : World → Marked}
      (hnext : ∀ w, Fated ordered fault path (next w)) (hawake : ∀ w, ¬ Activity.AtRest (next w).plain) :
      Fated ordered fault path (.act m f next)
  | onReport {path : Way} {s : Marked} {k : Report → Marked} (hs : Fated ordered fault path s) :
      Fated ordered fault path (s.onReport k)
  | within {path : Way} {m : Mark} {left : Nat} {s : Marked} {next : Option Outcome → Marked}
      (hturn : ordered → left = 0 → ¬ Activity.AtRest s.plain) (hnext : ∀ o, next (some o) = .done o)
      (hs : Fated ordered fault path s) : Fated ordered fault path (.within m left s next)
  | branch {path : Way} {m : Mark} {pool : Pool} {i : Nat} {tally : Tally} {slots : List (Slot Marked)}
      {s : Marked} {name count : String} (hpool : tally.pool = pool)
      (hturn : ordered → Activity.InTurn tally (plainSlots slots) i)
      (hslot : slots[i]? = some (.running s)) (hclear : Reported tally.arrivals)
      (hs : Fated ordered fault path s) :
      Fated ordered fault ((pool, i) :: path) (.fork m tally slots (conclude name pool count))
  | arrived {path : Way} {m : Mark} {pool : Pool} {i : Nat} {tally : Tally} {slots : List (Slot Marked)}
      {before after : List Arrival} {name count : String} (hpool : tally.pool = pool)
      (harrivals : tally.arrivals =
        before ++ .ok (i, .error (fault.under (path.map Prod.snd))) :: after)
      (hbefore : Reported before) :
      Fated ordered fault ((pool, i) :: path) (.fork m tally slots (conclude name pool count))

/-- If anything but reports is to be read, there is a fault that will be read first. -/
theorem first_fault {α : Type} {tally : Tally} {slots : List (Slot α)} (htracks : tally.Tracks slots)
    (hno : ¬ Reported tally.arrivals) : ∃ before j fault after,
      tally.arrivals = before ++ .ok (j, .error fault) :: after ∧ Reported before := by
  have hsound (arrival : Arrival) (hmem : arrival ∈ tally.arrivals) : ∃ j o, arrival = .ok (j, o) := by
    obtain ⟨j, o, heq, -⟩ := htracks.arrived hmem
    exact ⟨j, o, heq⟩
  generalize tally.arrivals = arrivals at hno hsound
  induction arrivals with
  | nil => exact (hno nofun).elim
  | cons first rest ih =>
      obtain ⟨j, o, rfl⟩ := hsound first List.mem_cons_self
      cases o with
      | error fault => exact ⟨[], j, fault, rest, rfl, nofun⟩
      | ok r =>
          have hrest : ¬ Reported rest := by
            intro hreported
            apply hno
            intro arrival hmem
            rcases List.mem_cons.mp hmem with rfl | hmem
            · exact ⟨j, r, rfl⟩
            · exact hreported arrival hmem
          obtain ⟨before, k, fault, after, rfl, hbefore⟩ :=
            ih hrest fun arrival hmem => hsound arrival (List.mem_cons_of_mem _ hmem)
          refine ⟨.ok (j, .ok r) :: before, k, fault, after, rfl, ?_⟩
          intro arrival hmem
          rcases List.mem_cons.mp hmem with rfl | hmem
          · exact ⟨j, r, rfl⟩
          · exact hbefore arrival hmem

/-- **A fault strikes** in a move: something that the branches on a path lead to ends with the fault. -/
def Strikes (ordered : Prop) (fault : Fault) (path : Way) (m : Mark) (s : Marked) (w : World)
    (t : Marked) (v : World) : Prop :=
  ∃ inner a, Works ordered m inner a w (.done (.error fault)) v path s t

/-- **No fault has come before**: of the batches on a path, none has a fault to read. -/
inductive Clear : Way → Marked → Prop
  | here {s : Marked} : Clear [] s
  | within {path : Way} {m : Mark} {left : Nat} {s : Marked} {next : Option Outcome → Marked}
      (hs : Clear path s) : Clear path (.within m left s next)
  | branch {path : Way} {m : Mark} {pool : Pool} {i : Nat} {tally : Tally} {slots : List (Slot Marked)}
      {s : Marked} {next : Reading → Marked} (hpool : tally.pool = pool)
      (hslot : slots[i]? = some (.running s)) (hclear : Reported tally.arrivals) (hs : Clear path s) :
      Clear ((pool, i) :: path) (.fork m tally slots next)

/-- A branch of a batch ends with a fault. -/
inductive Faults (pool : Pool) (j : Nat) : Marked → Marked → Prop
  | fault {n : Mark} {tally tally' : Tally} {slots : List (Slot Marked)} {slot : Slot Marked}
      {next : Reading → Marked} {fault : Fault} (hpool : tally.pool = pool)
      (hslot : slots[j]? = some slot) (hwas : slot.isEnded = false)
      (harrivals : tally'.arrivals = tally.arrivals ++ [.ok (j, .error fault)]) :
      Faults pool j (.fork n tally slots next)
        (.fork n tally' (slots.set j (.ended (.error fault))) next)

/-- **A rival**: in the move another branch of one of the batches on a path ends with a fault. -/
def Rival (ordered : Prop) (path : Way) (m : Mark) (s : Marked) (w : World) (t : Marked)
    (v : World) : Prop :=
  ∃ pool i j before after inner a b, path = before ++ (pool, i) :: after ∧ j ≠ i ∧ Faults pool j a b ∧
    Works ordered m inner a w b v before s t

/-- **A cut**: in the move a limit is over that is around one of the batches on a path. -/
def Cut (ordered : Prop) (path : Way) (m : Mark) (s : Marked) (w : World) (t : Marked)
    (v : World) : Prop :=
  ∃ step before after n body next, path = before ++ step :: after ∧ Activity.AtRest body.plain ∧
    Works ordered m [] (.within n 0 body next) w (next none) v before s t

/-- In the course of a run there is such a move. -/
def Meets (P : Mark → Marked → World → Marked → World → Prop) (ordered : Prop) (s : Marked) (w : World)
    (h : List Turn) (t : Marked) (v : World) : Prop :=
  ∃ h₁ m way x y h₂ p q, h = h₁ ++ .own m way x y :: h₂ ∧ Run ordered s w h₁ p x ∧
    P m p x q y ∧ Run ordered q y h₂ t v

/-- In the course of a run another branch of one of the batches on a path ends with a fault. -/
def Rivalled (ordered : Prop) (path : Way) : Marked → World → List Turn → Marked → World → Prop :=
  Meets (Rival ordered path) ordered

/-- In the course of a run a limit is over that is around one of the batches on a path. -/
def CutOff (ordered : Prop) (path : Way) : Marked → World → List Turn → Marked → World → Prop :=
  Meets (Cut ordered path) ordered

variable {ordered : Prop} {fault : Fault} {path path' : Way} {m : Mark} {way : Way} {s t : Marked}
variable {w v : World} {h : List Turn} {o : Outcome}

/-! ### A fault that is on its way out -/

/-- A fated activity ends with the fault and its address. -/
theorem Fated.outcome (hs : Fated ordered fault path s) (hdone : s = .done o) :
    o = .error (fault.under (path.map Prod.snd)) := by
  induction hs generalizing o with
  | out =>
      cases hdone
      rfl
  | @onReport path s k hs ih =>
      cases s with
      | done o' =>
          obtain rfl := ih rfl
          cases hdone
          rfl
      | _ => cases hdone
  | _ => cases hdone

/-- While a fault is on its way out, something goes on. -/
theorem Fated.not_still (hs : Fated ordered fault path s) : ¬ Activity.Still s.plain := by
  induction hs with
  | out => exact Activity.not_resting_done
  | act => exact id
  | @onReport path s k hs ih =>
      intro hstill
      rw [plain_onReport] at hstill
      rcases Activity.resting_bind hstill with hfirst | ⟨o, ho, hnext⟩
      · exact ih hfirst
      · have herror := hs.outcome (plain_eq_done.mp ho)
        subst herror
        exact Activity.not_resting_done hnext
  | within _ _ _ ih => exact fun hstill => ih hstill.1
  | branch _ _ hslot _ _ ih =>
      intro hstill
      have hplain := plainSlots_getElem?_running.mpr ⟨_, hslot, rfl⟩
      exact ih (hstill.1.of_getElem? hplain)
  | arrived _ harrivals =>
      intro hstill
      rw [hstill.2.1] at harrivals
      simp at harrivals

/-- No time passes while a fault is on its way out. -/
theorem Fated.not_settled (hs : Fated ordered fault path s) : ¬ Activity.Settled s.plain :=
  fun hsettled => hs.not_still hsettled.still

/-- A limit can be over only around a batch on the path. -/
theorem Fated.path_of_atRest (hs : Fated ordered fault path s) (hrest : Activity.AtRest s.plain) :
    path ≠ [] := by
  induction hs with
  | out | act => exact hrest.elim
  | @onReport path s k hs ih =>
      rw [plain_onReport] at hrest
      rcases Activity.atRest_bind hrest with hfirst | ⟨o, ho, hnext⟩
      · exact ih hfirst
      · have herror := hs.outcome (plain_eq_done.mp ho)
        subst herror
        exact hnext.elim
  | within _ _ _ ih => exact ih hrest.2
  | branch | arrived => exact List.cons_ne_nil _ _

/-- When a fault is read, its batch is fated with the number of the branch. -/
theorem fated_conclude {name count : String} {pool : Pool} {i : Nat} :
    Fated ordered fault ((pool, i) :: path) (conclude name pool count
      (.error (i, fault.under (path.map Prod.snd)))) := by
  have hout : Fated ordered fault ((pool, i) :: path)
      (.done (.error (.branchFault i (fault.under (path.map Prod.snd)).message))) := by
    rw [Fault.message_under]
    exact .out
  exact .act (fun _ => .act (fun _ => hout) fun _ => id) fun _ => id

/-! ### A fault that strikes -/

/-- Where nothing but the fault is left, it struck right there. -/
theorem Works.of_done {inner : Way} {a : Marked}
    (hworks : Works ordered m inner a w (.done (.error fault)) v path s t) (hdone : t = .done o) :
    path = [] ∧ o = .error fault := by
  induction hworks generalizing o with
  | here =>
      cases hdone
      exact ⟨rfl, rfl⟩
  | @onReport path s t k _ ih =>
      cases t with
      | done o' =>
          obtain ⟨hpath, rfl⟩ := ih rfl
          cases hdone
          exact ⟨hpath, rfl⟩
      | _ => cases hdone
  | within | branch => cases hdone

/-- Where a fault strikes nothing waits that did not wait before. -/
theorem Works.awake {inner : Way} {a : Marked}
    (hworks : Works ordered m inner a w (.done (.error fault)) v path s t)
    (hs : ¬ Activity.AtRest s.plain) : ¬ Activity.AtRest t.plain := by
  induction hworks with
  | here => exact id
  | onReport hworks ih =>
      rw [plain_onReport] at hs ⊢
      intro hrest
      rcases Activity.atRest_bind hrest with hfirst | ⟨o, ho, hnext⟩
      · exact ih (fun hbefore => hs hbefore.bind) hfirst
      · obtain ⟨-, rfl⟩ := hworks.of_done (plain_eq_done.mp ho)
        exact hnext
  | within _ _ _ ih =>
      intro hrest
      exact ih (fun hbefore => hs ⟨hrest.1, hbefore⟩) hrest.2
  | branch _ _ hslot _ ih =>
      intro hrest
      have hplain := plainSlots_getElem?_running.mpr ⟨_, hslot, rfl⟩
      exact hs ⟨hrest.1, _, List.mem_of_getElem? hplain, rfl⟩

theorem Clear.of_onReport {k : Report → Marked} (hclear : Clear path (s.onReport k)) :
    Clear path s ∨ ∃ o, s = .done o := by
  cases s with
  | done o => exact .inr ⟨o, rfl⟩
  | within m left body next =>
      cases hclear with
      | here => exact .inl .here
      | within hs => exact .inl (.within hs)
  | fork m tally slots next =>
      cases hclear with
      | here => exact .inl .here
      | branch hpool hslot hreported hs => exact .inl (.branch hpool hslot hreported hs)
  | _ =>
      cases hclear
      exact .inl .here

/-- A branch that works keeps its turn. -/
theorem inTurn_set {i : Nat} {tally : Tally} {slots : List (Slot Marked)} {r : Marked}
    (hturn : Activity.InTurn tally (plainSlots slots) i) (hlt : i < slots.length) :
    Activity.InTurn tally (plainSlots (slots.set i (.running r))) i := by
  rw [plainSlots_set]
  refine Activity.inTurn_running ?_ (List.getElem?_set_self (by rwa [plainSlots_length]))
  rw [Activity.take_set_self]
  exact hturn.1

/-- **A fault that strikes is on its way out**, along the path on which it struck, if none has come before. -/
theorem Works.fated {inner : Way} {a : Marked}
    (hworks : Works ordered m inner a w (.done (.error fault)) v path s t) (hclear : Clear path t) :
    Fated ordered fault path t := by
  induction hworks with
  | here => exact .out
  | onReport hworks ih =>
      rcases hclear.of_onReport with hclear | ⟨o, ho⟩
      · exact .onReport (ih hclear)
      · obtain ⟨rfl, -⟩ := hworks.of_done ho
        exact .onReport (ih .here)
  | @within path n left s t next hturn hnext hworks ih =>
      have hawake (hordered : ordered) (hleft : left = 0) : ¬ Activity.AtRest t.plain :=
        hworks.awake (hturn hordered hleft)
      cases hclear with
      | here => exact .within hawake hnext (ih .here)
      | within hs => exact .within hawake hnext (ih hs)
  | @branch path n pool i tally slots s t name count hpool hturn hslot hworks ih =>
      have hlt := (List.getElem?_eq_some_iff.mp hslot).1
      cases hclear with
      | branch _ hslot' hreported hs =>
          rw [List.getElem?_set_self hlt] at hslot'
          cases hslot'
          exact .branch hpool (fun hordered => inTurn_set (hturn hordered) hlt) (List.getElem?_set_self hlt)
            hreported (ih hs)

theorem Strikes.fated (hstrikes : Strikes ordered fault path m s w t v) (hclear : Clear path t) :
    Fated ordered fault path t := by
  obtain ⟨_, _, hworks⟩ := hstrikes
  exact hworks.fated hclear

/-! ### A fault on its way -/

/-- The batches around the end of the one path are batches around that of the other. -/
def Shares (path' path : Way) : Prop :=
  ∀ before step after, path' = before ++ step :: after →
    ∃ step' after', path = before ++ step' :: after'

theorem Shares.cons (hshares : Shares path' path) (step : Pool × Nat) :
    Shares (step :: path') (step :: path) := by
  intro before last after heq
  cases before with
  | nil => exact ⟨step, path, rfl⟩
  | cons first before =>
      rw [List.cons_append, List.cons.injEq] at heq
      obtain ⟨rfl, heq⟩ := heq
      obtain ⟨step', after', rfl⟩ := hshares before last after heq
      exact ⟨step', after', rfl⟩

theorem shares_rival (step step' : Pool × Nat) : Shares [step'] (step :: path) := by
  intro before last after heq
  cases before with
  | nil => exact ⟨step, path, rfl⟩
  | cons first before => simp at heq

/-- **What a move makes of a fault** on its way: it stays on its way; or a rival is on its way in its place; or
a limit cuts it off.  In turn there are neither rivals nor cuts. -/
inductive Onward (ordered : Prop) (fault : Fault) (path : Way) (m : Mark) (s : Marked) (w : World)
    (t : Marked) (v : World) : Prop
  | stays (hfated : Fated ordered fault path t)
      (hawake : ordered → ¬ Activity.AtRest s.plain → ¬ Activity.AtRest t.plain)
  | rival {fault' : Fault} {path' : Way} (hno : ¬ ordered) (hrival : Rival ordered path m s w t v)
      (hshares : Shares path' path) (hfated : Fated ordered fault' path' t)
  | cut (hno : ¬ ordered) (hcut : Cut ordered path m s w t v)

/-- A rival within layers is a rival in the whole. -/
theorem Rival.lift {s' t' : Marked} (step : Way) (hrival : Rival ordered path m s w t v)
    (hlift : ∀ {path inner a b}, Works ordered m inner a w b v path s t →
      Works ordered m inner a w b v (step ++ path) s' t') :
    Rival ordered (step ++ path) m s' w t' v := by
  obtain ⟨pool, i, j, before, after, inner, a, b, rfl, hne, hfaults, hworks⟩ := hrival
  exact ⟨pool, i, j, step ++ before, after, inner, a, b, by simp, hne, hfaults, hlift hworks⟩

/-- A cut within layers is a cut in the whole. -/
theorem Cut.lift {s' t' : Marked} (step : Way) (hcut : Cut ordered path m s w t v)
    (hlift : ∀ {path inner a b}, Works ordered m inner a w b v path s t →
      Works ordered m inner a w b v (step ++ path) s' t') :
    Cut ordered (step ++ path) m s' w t' v := by
  obtain ⟨last, before, after, n, body, next, rfl, hrest, hworks⟩ := hcut
  exact ⟨last, step ++ before, after, n, body, next, by simp, hrest, hlift hworks⟩

theorem Cut.shares (hcut : Cut ordered path' m s w t v) (hshares : Shares path' path) :
    Cut ordered path m s w t v := by
  obtain ⟨step, before, after, n, body, next, hpath, hrest, hworks⟩ := hcut
  obtain ⟨step', after', rfl⟩ := hshares before step after hpath
  exact ⟨step', before, after', n, body, next, rfl, hrest, hworks⟩

section

variable {pool : Pool} {i j : Nat} {tally tally' : Tally} {slots : List (Slot Marked)}
variable {slot slot' : Slot Marked} {n : Mark} {name count : String}

/-- In turn no branch has a turn but the fated one. -/
theorem Fated.no_turn (hs : Fated ordered fault path s) (hslot : slots[i]? = some (.running s))
    (hturn : Activity.InTurn tally (plainSlots slots) i)
    (hturn' : Activity.InTurn tally (plainSlots slots) j) (hother : slots[j]? = some slot)
    (hji : j ≠ i) (hbusy : ∀ r, slot = .running r → ¬ Activity.Still r.plain)
    (hends : slot.isEnded = false) : False := by
  have hplain := plainSlots_getElem?_running.mpr ⟨_, hslot, rfl⟩
  have hplain' : (plainSlots slots)[j]? = some (slot.map Marked.plain) := by
    rw [plainSlots_getElem?, hother, Option.map_some]
  rcases Nat.lt_or_gt_of_ne hji with hlt | hlt
  · have hcalm := hturn.1.calm (by rwa [List.getElem?_take_of_lt hlt])
    cases slot with
    | fresh body => exact hcalm
    | queued body => exact hs.not_still ((hturn'.2 _ hplain').1.of_getElem? hplain)
    | running r => exact hbusy r rfl hcalm
    | ended o => cases hends
  · exact hs.not_still (hturn'.1.of_getElem? (by rwa [List.getElem?_take_of_lt hlt]))

/-- A batch with a fated branch stays fated when another branch changes, or a report is read. -/
theorem Fated.beside (hs : Fated ordered fault path s) (hno : ¬ ordered) (hpool : tally'.pool = pool)
    (hslot : slots[i]? = some (.running s)) (hreported : Reported tally'.arrivals) :
    Fated ordered fault ((pool, i) :: path) (.fork n tally' slots (conclude name pool count)) :=
  .branch hpool (fun hordered => (hno hordered).elim) hslot hreported hs

/-- **A branch beside the fated one** has come to something: if that is a fault, it is a rival. -/
theorem Fated.beside_turn (hs : Fated ordered fault path s) (hno : ¬ ordered)
    (hpool : tally'.pool = tally.pool) (hslot : slots[i]? = some (.running s)) (hji : j ≠ i)
    (hother : slots[j]? = some slot) (hwas : slot.isEnded = false) (hreported : Reported tally.arrivals)
    (harrivals : tally'.arrivals = tally.arrivals ++ Tally.arrivalOf j slot')
    (hmove : Move ordered m way (.fork n tally slots (conclude name tally.pool count)) w
      (.fork n tally' (slots.set j slot') (conclude name tally.pool count)) v) :
    Onward ordered fault ((tally.pool, i) :: path) m
      (.fork n tally slots (conclude name tally.pool count)) w
      (.fork n tally' (slots.set j slot') (conclude name tally.pool count)) v := by
  have hslot' : (slots.set j slot')[i]? = some (.running s) := by rwa [List.getElem?_set_ne hji]
  have hstays (hnew : Reported (Tally.arrivalOf j slot')) : Onward ordered fault
      ((tally.pool, i) :: path) m (.fork n tally slots (conclude name tally.pool count)) w
      (.fork n tally' (slots.set j slot') (conclude name tally.pool count)) v := by
    refine .stays (hs.beside hno hpool hslot' fun arrival hmem => ?_) fun hordered => (hno hordered).elim
    rw [harrivals] at hmem
    exact (List.mem_append.mp hmem).elim (hreported arrival) (hnew arrival)
  cases slot' with
  | fresh | queued | running => exact hstays nofun
  | ended o =>
      cases o with
      | ok r =>
          refine hstays fun arrival hmem => ?_
          obtain rfl := List.mem_singleton.mp hmem
          exact ⟨j, r, rfl⟩
      | error fault' =>
          have hfaults : Faults tally.pool j (.fork n tally slots (conclude name tally.pool count))
              (.fork n tally' (slots.set j (.ended (.error fault'))) (conclude name tally.pool count)) :=
            .fault rfl hother hwas harrivals
          have hfated : Fated ordered fault' [(tally.pool, j)]
              (.fork n tally' (slots.set j (.ended (.error fault')))
                (conclude name tally.pool count)) := .arrived hpool harrivals hreported
          exact .rival hno
            ⟨tally.pool, i, j, [], path, _, _, _, rfl, hji, hfaults, .here hmove⟩ (shares_rival _ _) hfated

/-- **A batch with a fated branch moves.** -/
theorem Fated.move_branch (hs : Fated ordered fault path s)
    (hturn : ordered → Activity.InTurn tally (plainSlots slots) i)
    (hslot : slots[i]? = some (.running s)) (hreported : Reported tally.arrivals)
    (ih : ∀ {m way t v}, Move ordered m way s w t v → Onward ordered fault path m s w t v)
    (hmove : Move ordered m way (.fork n tally slots (conclude name tally.pool count)) w t v) :
    Onward ordered fault ((tally.pool, i) :: path) m
      (.fork n tally slots (conclude name tally.pool count)) w t v := by
  have hlt := (List.getElem?_eq_some_iff.mp hslot).1
  cases id hmove with
  | @deal j _ _ _ slot _ _ _ hturn' hother hdeal =>
      have hdealt := Tally.dealt_iff.mp hdeal
      obtain ⟨body, hwaits⟩ := hdealt.waits
      have hwas : slot.isEnded = false := by rcases hwaits with rfl | rfl <;> rfl
      have hbusy (r : Marked) (hr : slot = .running r) : ¬ Activity.Still r.plain := by
        subst hr
        rcases hwaits with heq | heq <;> cases heq
      have hji : j ≠ i := by
        rintro rfl
        rw [hslot] at hother
        cases hother
        rcases hwaits with heq | heq <;> cases heq
      have hno : ¬ ordered := fun hordered =>
        hs.no_turn hslot (hturn hordered) (hturn' hordered) hother hji hbusy hwas
      exact hs.beside_turn hno hdealt.pool hslot hji hother hwas hreported hdealt.arrivals_eq hmove
  | @branch _ _ j _ _ r r' _ _ _ hturn' hother hinner =>
      by_cases hji : j = i
      · subst hji
        rw [hslot] at hother
        cases hother
        have hset := List.getElem?_set_self (a := Slot.running r') hlt
        have hlift {path inner a b} (hworks : Works ordered m inner a w b v path s r') :
            Works ordered m inner a w b v ((tally.pool, j) :: path)
              (.fork n tally slots (conclude name tally.pool count))
              (.fork n tally (slots.set j (.running r')) (conclude name tally.pool count)) :=
          .branch rfl hturn' hslot hworks
        have hfated {fault' path'} (ht : Fated ordered fault' path' r') :
            Fated ordered fault' ((tally.pool, j) :: path')
              (.fork n tally (slots.set j (.running r')) (conclude name tally.pool count)) :=
          .branch rfl (fun hordered => inTurn_set (hturn' hordered) hlt) hset hreported ht
        cases ih hinner with
        | stays ht hawake =>
            refine .stays (hfated ht) fun _ hawake hrest => hawake ⟨hrest.1, ?_⟩
            exact ⟨_, List.mem_of_getElem? (plainSlots_getElem?_running.mpr ⟨_, hslot, rfl⟩), rfl⟩
        | rival hno hrival hshares ht =>
            exact .rival hno (hrival.lift [_] hlift) (hshares.cons _) (hfated ht)
        | cut hno hcut => exact .cut hno (hcut.lift [_] hlift)
      · have hbusy (q : Marked) (hq : Slot.running r = .running q) (hordered : ordered) :
            ¬ Activity.Still q.plain := by
          cases hq
          have hplain := hinner.plain
          rw [eq_true hordered] at hplain
          exact fun hstill => hstill.not_move hplain
        have hno : ¬ ordered := fun hordered => hs.no_turn hslot (hturn hordered) (hturn' hordered) hother
          hji (fun q hq => hbusy q hq hordered) rfl
        exact hs.beside_turn hno rfl hslot hji hother rfl hreported (List.append_nil _).symm hmove
  | @finish j _ _ o _ _ hturn' hother =>
      by_cases hji : j = i
      · subst hji
        rw [hslot] at hother
        cases hother
        obtain rfl := hs.outcome rfl
        have hlast : (tally.finish j (.error (fault.under (path.map Prod.snd)))).arrivals =
            tally.arrivals ++ .ok (j, .error (fault.under (path.map Prod.snd))) :: [] := rfl
        refine .stays (.arrived rfl hlast hreported) fun _ _ hrest => ?_
        have harrivals := hrest.1
        simp [hlast] at harrivals
      · have hbusy (q : Marked) (hq : Slot.running (.done o) = .running q) : ¬ Activity.Still q.plain := by
          cases hq
          exact Activity.not_resting_done
        have hno : ¬ ordered := fun hordered =>
          hs.no_turn hslot (hturn hordered) (hturn' hordered) hother hji hbusy rfl
        exact hs.beside_turn hno rfl hslot hji hother rfl hreported rfl hmove
  | @read _ _ arrival rest reports _ _ hturn' harrivals hverdict =>
      have hplain := plainSlots_getElem?_running.mpr ⟨_, hslot, rfl⟩
      have hno : ¬ ordered := fun hordered => hs.not_still ((hturn' hordered).1.of_getElem? hplain)
      refine .stays (hs.beside hno rfl hslot fun arrival hmem => ?_) fun hordered => (hno hordered).elim
      exact hreported arrival (harrivals ▸ List.mem_cons_of_mem _ hmem)
  | abort _ harrivals hverdict =>
      obtain ⟨j, r, rfl⟩ := hreported _ (harrivals ▸ List.mem_cons_self)
      cases hverdict
  | leave _ hended => cases hended _ (List.mem_of_getElem? hslot)

/-- **A batch with a fault to read moves**: it reads what is before the fault, and then the fault. -/
theorem Fated.move_arrived {before after : List Arrival}
    (harrivals : tally.arrivals =
      before ++ .ok (i, .error (fault.under (path.map Prod.snd))) :: after)
    (hbefore : Reported before)
    (hmove : Move ordered m way (.fork n tally slots (conclude name tally.pool count)) w t v) :
    Onward ordered fault ((tally.pool, i) :: path) m
      (.fork n tally slots (conclude name tally.pool count)) w t v := by
  have hstays {tally' : Tally} {slots' : List (Slot Marked)} (more : List Arrival)
      (hpool : tally'.pool = tally.pool) (hmore : tally'.arrivals = tally.arrivals ++ more) :
      Onward ordered fault ((tally.pool, i) :: path) m
        (.fork n tally slots (conclude name tally.pool count)) w
        (.fork n tally' slots' (conclude name tally.pool count)) v := by
    have hfated : tally'.arrivals =
        before ++ .ok (i, .error (fault.under (path.map Prod.snd))) :: (after ++ more) := by
      rw [hmore, harrivals, List.append_assoc, List.cons_append]
    refine .stays (.arrived hpool hfated hbefore) fun _ _ hrest => ?_
    have hnone : tally'.arrivals = [] := hrest.1
    simp [hfated] at hnone
  cases hmove with
  | deal _ _ hdeal =>
      have hdealt := Tally.dealt_iff.mp hdeal
      exact hstays _ hdealt.pool hdealt.arrivals_eq
  | branch => exact hstays [] rfl (List.append_nil _).symm
  | finish => exact hstays [_] rfl rfl
  | read _ hfirst hverdict =>
      rw [harrivals] at hfirst
      cases before with
      | nil =>
          cases hfirst
          cases hverdict
      | cons first before =>
          cases hfirst
          refine .stays (.arrived rfl rfl fun arrival hmem =>
            hbefore arrival (List.mem_cons_of_mem _ hmem)) fun _ _ hrest => ?_
          have hnone := hrest.1
          simp at hnone
  | abort _ hfirst hverdict =>
      rw [harrivals] at hfirst
      cases before with
      | nil =>
          cases hfirst
          cases hverdict
          exact .stays fated_conclude fun _ _ => id
      | cons first before =>
          cases hfirst
          obtain ⟨j, r, rfl⟩ := hbefore _ List.mem_cons_self
          cases hverdict
  | leave hnone =>
      rw [harrivals] at hnone
      simp at hnone

end

/-- **A move while a fault is on its way out.** -/
theorem Fated.move (hs : Fated ordered fault path s) (hmove : Move ordered m way s w t v) :
    Onward ordered fault path m s w t v := by
  induction hs generalizing m way w t v with
  | out => cases hmove
  | act hnext hawake =>
      cases hmove
      exact .stays (hnext _) fun _ _ => hawake _
  | @onReport path s k hs ih =>
      rcases Move.of_bind hmove with ⟨t, hfirst, rfl⟩ | ⟨o, rfl, hnext⟩
      · cases ih hfirst with
        | stays ht hawake =>
            refine .stays (.onReport ht) fun hordered hbefore hrest => ?_
            rw [plain_bind] at hrest
            rcases Activity.atRest_bind hrest with hfirst | ⟨o, ho, hnext⟩
            · refine hawake hordered (fun hbefore' => hbefore ?_) hfirst
              rw [plain_onReport]
              exact hbefore'.bind
            · obtain rfl := ht.outcome (plain_eq_done.mp ho)
              exact hnext
        | rival hno hrival hshares ht =>
            exact .rival hno (hrival.lift [] .onReport) hshares (.onReport ht)
        | cut hno hcut => exact .cut hno (hcut.lift [] .onReport)
      · obtain rfl := hs.outcome rfl
        cases hnext
  | @within path n left s next hturn hnext hs ih =>
      cases hmove with
      | inside hturn' hmove =>
          cases ih hmove with
          | stays ht hawake =>
              refine .stays (.within (fun hordered hleft =>
                hawake hordered (hturn hordered hleft)) hnext ht) fun hordered hbefore hrest => ?_
              exact hawake hordered (fun hbefore' => hbefore ⟨hrest.1, hbefore'⟩) hrest.2
          | rival hno hrival hshares ht =>
              exact .rival hno (hrival.lift [] (.within hturn' hnext)) hshares
                (.within (fun hordered => (hno hordered).elim) hnext ht)
          | cut hno hcut => exact .cut hno (hcut.lift [] (.within hturn' hnext))
      | inTime =>
          obtain rfl := hs.outcome rfl
          rw [hnext]
          exact .stays .out fun _ _ => id
      | late hrest =>
          obtain ⟨step, after, rfl⟩ := List.exists_cons_of_ne_nil (hs.path_of_atRest hrest)
          exact .cut (fun hordered => hturn hordered rfl hrest)
            ⟨step, [], after, n, s, next, rfl, hrest, .here (.late hrest)⟩
  | branch hpool hturn hslot hreported hs ih =>
      subst hpool
      exact hs.move_branch hturn hslot hreported ih hmove
  | arrived hpool harrivals hbefore =>
      subst hpool
      exact Fated.move_arrived harrivals hbefore hmove

section

variable {P Q : Mark → Marked → World → Marked → World → Prop} {r : Marked} {u : World}

theorem Meets.own (hmove : Move ordered m way s w t v) (hmeets : Meets P ordered t v h r u) :
    Meets P ordered s w (.own m way w v :: h) r u := by
  obtain ⟨h₁, m', way', x, y, h₂, p, q, rfl, hbefore, hP, hafter⟩ := hmeets
  exact ⟨_, m', way', x, y, h₂, p, q, rfl, .own hmove hbefore, hP, hafter⟩

theorem Meets.other (hmeets : Meets P ordered s v h r u) :
    Meets P ordered s w (.other w v :: h) r u := by
  obtain ⟨h₁, m', way', x, y, h₂, p, q, rfl, hbefore, hP, hafter⟩ := hmeets
  exact ⟨_, m', way', x, y, h₂, p, q, rfl, .other hbefore, hP, hafter⟩

theorem Meets.here (hP : P m s w t v) (hrun : Run ordered t v h r u) :
    Meets P ordered s w (.own m way w v :: h) r u :=
  ⟨[], m, way, w, v, h, s, t, rfl, .stop, hP, hrun⟩

theorem Meets.mono (hmeets : Meets P ordered s w h r u)
    (hPQ : ∀ {m p x q y}, P m p x q y → Q m p x q y) : Meets Q ordered s w h r u := by
  obtain ⟨h₁, m, way, x, y, h₂, p, q, heq, hbefore, hP, hafter⟩ := hmeets
  exact ⟨h₁, m, way, x, y, h₂, p, q, heq, hbefore, hPQ hP, hafter⟩

end

/-- **A run while a fault is on its way out**, if no limit cuts it off: no time passes, some fault stays on its
way, and it is this one unless there is a rival. -/
theorem Fated.run (hs : Fated ordered fault path s) (hrun : Run ordered s w h t v) :
    (¬ ordered ∧ CutOff ordered path s w h t v) ∨
      (Turn.tick ∉ h ∧ (∃ fault' path', Fated ordered fault' path' t) ∧
        (Fated ordered fault path t ∨ (¬ ordered ∧ Rivalled ordered path s w h t v))) := by
  induction hrun generalizing fault path with
  | stop => exact .inr ⟨nofun, ⟨fault, path, hs⟩, .inl hs⟩
  | own hmove hrun ih =>
      cases hs.move hmove with
      | stays ht =>
          rcases ih ht with ⟨hno, hcut⟩ | ⟨htick, hsome, hrest⟩
          · exact .inl ⟨hno, hcut.own hmove⟩
          · refine .inr ⟨by simpa using htick, hsome, hrest.imp_right ?_⟩
            exact fun hrivalled => ⟨hrivalled.1, hrivalled.2.own hmove⟩
      | rival hno hrival hshares ht =>
          rcases ih ht with ⟨_, hcut⟩ | ⟨htick, hsome, -⟩
          · exact .inl ⟨hno, (hcut.mono fun hcut => hcut.shares hshares).own hmove⟩
          · exact .inr ⟨by simpa using htick, hsome, .inr ⟨hno, .here hrival hrun⟩⟩
      | cut hno hcut => exact .inl ⟨hno, .here hcut hrun⟩
  | other hrun ih =>
      rcases ih hs with ⟨hno, hcut⟩ | ⟨htick, hsome, hrest⟩
      · exact .inl ⟨hno, hcut.other⟩
      · refine .inr ⟨by simpa using htick, hsome, hrest.imp_right ?_⟩
        exact fun hrivalled => ⟨hrivalled.1, hrivalled.2.other⟩
  | tick hsettled => exact (hs.not_settled hsettled).elim

/-! ### The way out -/

/-- What an activity can come to by moves of its own. -/
inductive Steps (ordered : Prop) : Marked → World → Marked → World → Prop
  | stop {s : Marked} {w : World} : Steps ordered s w s w
  | move {m : Mark} {way : Way} {s t r : Marked} {w v u : World} (hmove : Move ordered m way s w t v)
      (hsteps : Steps ordered t v r u) : Steps ordered s w r u

theorem Steps.run (hsteps : Steps ordered s w t v) : ∃ h, Run ordered s w h t v := by
  induction hsteps with
  | stop => exact ⟨[], .stop⟩
  | move hmove _ ih =>
      obtain ⟨h, hrun⟩ := ih
      exact ⟨_, .own hmove hrun⟩

theorem Steps.trans {r : Marked} {u : World} (hl : Steps ordered s w t v)
    (hr : Steps ordered t v r u) : Steps ordered s w r u := by
  induction hl with
  | stop => exact hr
  | move hmove _ ih => exact .move hmove (ih hr)

/-- What an activity can come to it can come to where its moves are moves of the whole. -/
theorem Steps.lift {f : Marked → Marked} (hsteps : Steps ordered s w t v)
    (hf : ∀ {m way s w t v}, Move ordered m way s w t v →
      ∃ m' way', Move ordered m' way' (f s) w (f t) v) : Steps ordered (f s) w (f t) v := by
  induction hsteps with
  | stop => exact .stop
  | move hmove _ ih =>
      obtain ⟨m', way', hmove'⟩ := hf hmove
      exact .move hmove' ih

theorem Move.bind {k : Outcome → Marked} (hmove : Move ordered m way s w t v) :
    Move ordered m way (s.bind k) w (t.bind k) v := by
  cases hmove with
  | act => exact .act
  | wake => exact .wake
  | inside hturn hmove => exact .inside hturn hmove
  | inTime => exact .inTime
  | late hrest => exact .late hrest
  | deal hturn hslot hdeal => exact .deal hturn hslot hdeal
  | branch hturn hslot hmove => exact .branch hturn hslot hmove
  | finish hturn hslot => exact .finish hturn hslot
  | read hturn harrivals hverdict => exact .read hturn harrivals hverdict
  | abort hturn harrivals hverdict => exact .abort hturn harrivals hverdict
  | leave harrivals hended => exact .leave harrivals hended

/-- A batch with a fault to read can read it at once, where branches take turns as they like. -/
theorem steps_of_arrived (hno : ¬ ordered) {n : Mark} {i : Nat} {tally : Tally}
    {slots : List (Slot Marked)} {before after : List Arrival} {name count : String}
    (harrivals : tally.arrivals =
      before ++ .ok (i, .error (fault.under (path.map Prod.snd))) :: after)
    (hbefore : Reported before) (w : World) :
    ∃ v, Steps ordered (.fork n tally slots (conclude name tally.pool count)) w
      (.done (.error (fault.under (i :: path.map Prod.snd)))) v := by
  induction before generalizing tally with
  | nil =>
      have hread : Move ordered n [] (.fork n tally slots (conclude name tally.pool count)) w
          (conclude name tally.pool count (.error (i, fault.under (path.map Prod.snd)))) w :=
        .abort (fun hordered => (hno hordered).elim) harrivals rfl
      have hout : fault.under (i :: path.map Prod.snd) =
          .branchFault i (fault.under (path.map Prod.snd)).message := by
        rw [Fault.message_under, Fault.under]
      rw [hout]
      exact ⟨_, .move hread (.move .act (.move .act .stop))⟩
  | cons first before ih =>
      obtain ⟨j, r, rfl⟩ := hbefore first List.mem_cons_self
      obtain ⟨v, hsteps⟩ : ∃ v, Steps ordered (.fork n { tally with
          arrivals := before ++ .ok (i, .error (fault.under (path.map Prod.snd))) :: after
          reports := tally.reports.set j (some r) } slots (conclude name tally.pool count)) w _ v :=
        ih rfl fun arrival hmem => hbefore arrival (List.mem_cons_of_mem _ hmem)
      exact ⟨v, .move (.read (fun hordered => (hno hordered).elim) harrivals rfl) hsteps⟩

/-- Where branches take turns as they like, a fault on its way out can come out at once. -/
theorem Fated.steps (hs : Fated ordered fault path s) (hno : ¬ ordered) (w : World) :
    ∃ v, Steps ordered s w (.done (.error (fault.under (path.map Prod.snd)))) v := by
  induction hs generalizing w with
  | out => exact ⟨w, .stop⟩
  | act hnext _ ih =>
      obtain ⟨v, hsteps⟩ := ih w _
      exact ⟨v, .move .act hsteps⟩
  | @onReport path s k hs ih =>
      obtain ⟨v, hsteps⟩ := ih w
      exact ⟨v, hsteps.lift (f := fun s => s.onReport k) fun hmove => ⟨_, _, hmove.bind⟩⟩
  | @within path n left s next hturn hnext hs ih =>
      obtain ⟨v, hsteps⟩ := ih w
      have hinner := hsteps.lift (f := fun s => .within n left s next) fun hmove =>
        ⟨_, _, .inside (fun hordered => (hno hordered).elim) hmove⟩
      refine ⟨v, hinner.trans (.move .inTime ?_)⟩
      rw [hnext]
      exact .stop
  | @branch path n pool i tally slots s name count hpool hturn hslot hreported hs ih =>
      subst hpool
      obtain ⟨v, hsteps⟩ := ih w
      obtain ⟨hlt, hget⟩ := List.getElem?_eq_some_iff.mp hslot
      have hself : slots.set i (.running s) = slots := by rw [← hget, List.set_getElem_self]
      let whole (r : Marked) : Marked :=
        .fork n tally (slots.set i (.running r)) (conclude name tally.pool count)
      have hwhole {m way r w t v} (hmove : Move ordered m way r w t v) :
          ∃ m' way', Move ordered m' way' (whole r) w (whole t) v := by
        have hbranch : Move ordered m _ (whole r) w (.fork n tally
            ((slots.set i (.running r)).set i (.running t)) (conclude name tally.pool count)) v :=
          .branch (fun hordered => (hno hordered).elim) (List.getElem?_set_self hlt) hmove
        rw [List.set_set] at hbranch
        exact ⟨_, _, hbranch⟩
      have hinner : Steps ordered (whole s) w (whole _) v := hsteps.lift hwhole
      let out : Outcome := .error (fault.under (path.map Prod.snd))
      have hfinish : Move ordered n _ (whole (.done out)) v (.fork n (tally.finish i out)
          ((slots.set i (.running (.done out))).set i (.ended out)) (conclude name tally.pool count)) v :=
        .finish (fun hordered => (hno hordered).elim) (List.getElem?_set_self hlt)
      rw [List.set_set] at hfinish
      obtain ⟨u, hread⟩ : ∃ u, Steps ordered (.fork n (tally.finish i out) (slots.set i (.ended out))
          (conclude name tally.pool count)) v _ u :=
        steps_of_arrived hno (rfl : (tally.finish i out).arrivals = tally.arrivals ++ .ok (i, out) :: [])
          hreported v
      rw [← hself]
      exact ⟨u, hinner.trans (.move hfinish hread)⟩
  | arrived hpool harrivals hbefore =>
      subst hpool
      exact steps_of_arrived hno harrivals hbefore w

/-- **A fault comes out at once.** -/
theorem Fated.comes_out (hs : Fated ordered fault path s) (w : World) :
    ∃ h v, Run ordered s w h (.done (.error (fault.under (path.map Prod.snd)))) v := by
  by_cases hordered : ordered
  · -- In turn, it is out as soon as nothing goes on.
    obtain ⟨k, -, hplain⟩ : ∃ k, Activity.Instant k ∧ Activity.Run ordered s.plain w k _ _ :=
      (Activity.settle_reaches s.plain w).run
    obtain ⟨h, t, hrun, -, ht⟩ := Run.marked hplain
    have hfated : Fated ordered fault path t := by
      rcases hs.run hrun with ⟨hno, _⟩ | ⟨_, _, hfated | ⟨hno, _⟩⟩
      · exact (hno hordered).elim
      · exact hfated
      · exact (hno hordered).elim
    rcases Activity.settle_rests s.plain w with ⟨o, ho⟩ | hstill
    · rw [ho] at ht
      have hdone := plain_eq_done.mp ht
      obtain rfl := hfated.outcome hdone
      subst hdone
      exact ⟨h, _, hrun⟩
    · rw [← ht] at hstill
      exact (hfated.not_still hstill).elim
  · obtain ⟨v, hsteps⟩ := hs.steps hordered w
    obtain ⟨h, hrun⟩ := hsteps.run
    exact ⟨h, v, hrun⟩

end Marked

open Marked

/-- Terms that allow everything. -/
def Terms.any : Terms where
  good _ := True
  lets _ _ := True
  late := True
  completed := trivial
  parallel _ := trivial
  address _ := trivial
  refused _ := trivial
  overdue _ := trivial

/-- Terms that allow everything but faults. -/
def Terms.faultless : Terms where
  good o := ∃ r, o = .ok r
  lets _ _ := True
  late := True
  completed := ⟨_, rfl⟩
  parallel _ := ⟨_, rfl⟩
  address h := nomatch h
  refused _ := ⟨_, rfl⟩
  overdue _ := ⟨_, rfl⟩

section

variable {ordered : Prop} {e : Evaluator} {patience : Nat} {f : Flow} {place : Pool} {brief : Brief}
variable {m : Mark} {way : Way} {s t : Marked} {w x y : World} {h : List Turn}

/-- All that is left of a flow is layered. -/
theorem Flow.run_layered (hrun : Run ordered (f.marked e patience place brief) w h s x) :
    Layered ordered e .any (f.Has place brief) s := by
  have hflow : Layered ordered e .any (f.Has place brief) (f.marked e patience place brief) :=
    Flow.marked_layered f place brief _ (fun _ _ _ hpiece => hpiece) fun _ _ _ => trivial
  rcases hflow.run hrun with hkept | ⟨_, m, _, y, z, _, p, q, _, _, _, _, hno, _⟩
  · exact hkept
  · refine (hno ⟨fun _ _ _ => ?_, fun _ _ => trivial⟩).elim
    exact ⟨fun _ => trivial, fun _ _ => trivial, fun _ _ => trivial, fun _ => trivial⟩

/-- A guard that cannot be evaluated strikes. -/
theorem Flow.guard_strikes {settings : Settings} {error : ExpressionError}
    (hrun : Run ordered (f.marked e patience place brief) w h s x)
    (hmove : Move ordered m way s x t y) (hm : m.purpose = .guard settings)
    (herror : settings.holds e x.context = .error error) :
    ∃ piece path, piece.settings? = some settings ∧ f.Has place brief m.place piece path ∧
      Strikes ordered (.ofError error) path m s x t y := by
  have hpurpose : m.purpose.OfPiece := by
    rw [hm]
    trivial
  obtain ⟨path, inner, piece, a, b, hplace, hleft, hworks⟩ :=
    ((Flow.run_layered hrun).move hmove).1 hpurpose
  rcases hleft.move hworks.base with
    ⟨s', hpiece, hm', hfault⟩ | ⟨_, _, _, hm' | hm'⟩ | ⟨_, hm'⟩ | ⟨_, hm'⟩
  · rw [hm] at hm'
    cases hm'
    obtain rfl := hfault error herror
    exact ⟨piece, path, hpiece, hplace, inner, a, hworks⟩
  · cases hm.symm.trans hm'
  · cases hm.symm.trans hm'
  · cases hm.symm.trans hm'
  · cases hm.symm.trans hm'

/-- A task that has a turn does so within its layers. -/
theorem Flow.task_works (hrun : Run ordered (f.marked e patience place brief) w h s x)
    (hmove : Move ordered m way s x t y) (hm : m.purpose = .invocation ∨ m.purpose = .behavior) :
    ∃ executable brief' path inner a b, f.Has place brief m.place (.task executable brief') path ∧
      Left ordered e m.place (.task executable brief') a ∧
      Works ordered m inner a x b y path s t := by
  have hpurpose : m.purpose.OfPiece := by
    rcases hm with hm | hm
    · rw [hm]
      trivial
    · rw [hm]
      trivial
  obtain ⟨path, inner, piece, a, b, hplace, hleft, hworks⟩ :=
    ((Flow.run_layered hrun).move hmove).1 hpurpose
  rcases hleft.move hworks.base with
    ⟨_, _, hm', _⟩ | ⟨executable, brief', rfl, _⟩ | ⟨_, hm'⟩ | ⟨_, hm'⟩
  · rcases hm with hm | hm
    · cases hm.symm.trans hm'
    · cases hm.symm.trans hm'
  · exact ⟨executable, brief', path, inner, a, b, hplace, hleft, hworks⟩
  · rcases hm with hm | hm
    · cases hm.symm.trans hm'
    · cases hm.symm.trans hm'
  · rcases hm with hm | hm
    · cases hm.symm.trans hm'
    · cases hm.symm.trans hm'

/-- **Where a fault comes from**: a flow that ends with a fault has a piece of work that has faulted, or a batch
that has refused a permit. -/
theorem Flow.fault_origin {fault : Fault}
    (hrun : Run ordered (f.marked e patience place brief) w h (.done (.error fault)) x)
    (hf : ∀ executable, f ≠ .task executable) :
    ∃ h₁ m way y z h₂ p q, h = h₁ ++ .own m way y z :: h₂ ∧
      Run ordered (f.marked e patience place brief) w h₁ p y ∧
      ((∃ piece path inner a origin, f.Has place brief m.place piece path ∧
        Left ordered e m.place piece a ∧ Works ordered m inner a y (.done (.error origin)) z path p q) ∨
        ∃ path pool, f.Has place brief pool .batch path ∧ Refuses ordered m pool path p y q z) ∧
      Run ordered q z h₂ (.done (.error fault)) x := by
  have hflow : Layered ordered e .faultless (f.Has place brief) (f.marked e patience place brief) :=
    Flow.marked_layered f place brief _ (fun _ _ _ hpiece => hpiece) fun executable htask =>
      (hf executable htask).elim
  rcases hflow.run hrun with hkept | ⟨h₁, m, way, y, z, h₂, p, q, rfl, hbefore, _, _, hno, hafter⟩
  · obtain ⟨r, hr⟩ := hkept.good rfl
    cases hr
  refine ⟨h₁, m, way, y, z, h₂, p, q, rfl, hbefore, ?_, hafter⟩
  rcases offence hno with ⟨path, inner, piece, a, b, hplace, hleft, hworks, hnot⟩ |
    ⟨path, pool, hplace, hrefuses, -⟩
  · obtain ⟨origin, rfl⟩ : ∃ origin, b = .done (.error origin) := by
      refine Classical.byContradiction fun hnone => hnot ⟨fun {origin} horigin => ?_, fun _ _ => ⟨_, rfl⟩,
        fun _ _ => trivial, fun _ => trivial⟩
      exact (hnone ⟨origin, horigin⟩).elim
    exact .inl ⟨piece, path, inner, a, origin, hplace, hleft, hworks⟩
  · exact .inr ⟨path, pool, hplace, hrefuses⟩

end

/-- **Faults keep their address.**  Whatever turns the branches of a flow take, and whatever goes on beside it:

* a guard that cannot be evaluated strikes, and so does a task that ends with a fault, each under the
  branches of all the batches around it;
* a fault that strikes when none of these batches has another one to read comes out with the numbers of all
  branches that it was under, and with nothing but that fault to follow.  It can come out at once, and no time
  passes until it does.  Only another branch of one of these batches that ends with a fault can come before
  it, and only a limit around one of them that is over can cut it off; neither happens in the order in which a
  flow runs by itself;
* a flow that ends with a fault has a piece of work that has faulted, or a batch that has refused a permit.

What `run` computes is the end of such a run, in that order. -/
theorem fault_keeps_address (e : Evaluator) (patience : Nat) (f : Flow) (place : Pool)
    (brief : Brief) :
    (∀ {fuel : Nat} {w u : World} {o : Outcome},
      Activity.run fuel (f.work e patience place brief) w = some (o, u) →
      ∃ h, (∀ x y, Turn.other x y ∉ h) ∧
        Run True (f.marked e patience place brief) w h (.done o) u) ∧
    ∀ {ordered : Prop} {w x : World} {h : List Turn} {s : Marked},
      Run ordered (f.marked e patience place brief) w h s x →
      (∀ {m way t y settings error}, Move ordered m way s x t y → m.purpose = .guard settings →
        settings.holds e x.context = .error error →
        ∃ piece path, piece.settings? = some settings ∧ f.Has place brief m.place piece path ∧
          Strikes ordered (.ofError error) path m s x t y) ∧
      (∀ {m way t y}, Move ordered m way s x t y →
        m.purpose = .invocation ∨ m.purpose = .behavior →
        ∃ executable brief' path inner a b,
          f.Has place brief m.place (.task executable brief') path ∧
          Left ordered e m.place (.task executable brief') a ∧
          Works ordered m inner a x b y path s t ∧
          ∀ fault, b = .done (.error fault) → Strikes ordered fault path m s x t y) ∧
      (∀ {fault path m t y}, Strikes ordered fault path m s x t y → Clear path t →
        (∀ {g r u}, Run ordered t y g r u →
          (¬ ordered ∧ CutOff ordered path t y g r u) ∨
            (Turn.tick ∉ g ∧ ∀ o, r = .done o → (∃ fault', o = .error fault') ∧
              (o = .error (fault.under (path.map Prod.snd)) ∨
                (¬ ordered ∧ Rivalled ordered path t y g r u)))) ∧
        ∃ g u, Run ordered t y g (.done (.error (fault.under (path.map Prod.snd)))) u) ∧
      ∀ {fault}, s = .done (.error fault) → (∀ executable, f ≠ .task executable) →
        ∃ h₁ m way y z h₂ p q, h = h₁ ++ .own m way y z :: h₂ ∧
          Run ordered (f.marked e patience place brief) w h₁ p y ∧
          ((∃ piece path inner a origin, f.Has place brief m.place piece path ∧
            Left ordered e m.place piece a ∧
            Works ordered m inner a y (.done (.error origin)) z path p q) ∨
            ∃ path pool, f.Has place brief pool .batch path ∧ Refuses ordered m pool path p y q z) ∧
          Run ordered q z h₂ (.done (.error fault)) x := by
  refine ⟨fun hrun => ?_, fun hrun => ⟨?_, ?_, ?_, ?_⟩⟩
  · rw [← Flow.plain_marked] at hrun
    exact Run.of_run hrun
  · intro m way t y settings error hmove hm herror
    exact Flow.guard_strikes hrun hmove hm herror
  · intro m way t y hmove hm
    obtain ⟨executable, brief', path, inner, a, b, hplace, hleft, hworks⟩ :=
      Flow.task_works hrun hmove hm
    refine ⟨executable, brief', path, inner, a, b, hplace, hleft, hworks, ?_⟩
    rintro fault rfl
    exact ⟨inner, a, hworks⟩
  · intro fault path m t y hstrikes hclear
    have hfated := hstrikes.fated hclear
    refine ⟨fun hafter => ?_, hfated.comes_out y⟩
    rcases hfated.run hafter with hcut | ⟨htick, ⟨fault', path', hsome⟩, hrest⟩
    · exact Or.inl hcut
    refine Or.inr ⟨htick, ?_⟩
    rintro o rfl
    refine ⟨⟨_, hsome.outcome rfl⟩, ?_⟩
    rcases hrest with hfated | hrivalled
    · exact Or.inl (hfated.outcome rfl)
    · exact Or.inr hrivalled
  · rintro fault rfl hf
    exact Flow.fault_origin hrun hf

/-- A task that faults. -/
private def faulty : Step :=
  .mk {} (.task { name := "faulty", behave := fun _ _ => .fail (.taskFailed "faulty" "no") })

/-- The task within a block. -/
private def block : Flow :=
  .sequence "block" .block [faulty]

/-- The task within a batch that is a branch of another batch. -/
private def batches : Flow :=
  .parallel "outer" 2 0 [.mk {} (.sequence "first" .block []), .mk {} (.parallel "inner" 1 0 [faulty])]

/-- An evaluator that knows no expression. -/
private def ignorant : Evaluator where
  evaluate text _ := .error (.malformed text)
  validate text _ := .error (.malformed text)

/-- A guard that cannot be evaluated strikes, a task has its turn within its layers, and a task that faults in
the first branch of a batch in the second branch of another one strikes there.  The fault comes out with the
numbers of both, and so `run` computes it; it has an origin. -/
theorem fault_keeps_address_nested :
    (∃ path s, Strikes False (.expression (.malformed "x")) path
      ⟨[0], .guard { guard := some "x" }⟩
      (Flow.marked ignorant 0 [] { label := "" }
        (.sequence "block" .block [.mk { guard := some "x" } block])) {} s {}) ∧
    (∃ h s x executable brief path inner a b t y,
      Run False (block.marked (.standard {}) 0 [] { label := "" }) {} h s x ∧
      block.Has [] { label := "" } [0] (.task executable brief) path ∧
      Works False ⟨[0], .invocation⟩ inner a x b y path s t) ∧
    (∃ h s x m t y, Run False (batches.marked (.standard {}) 0 [] { label := "" }) {} h s x ∧
      Strikes False (.taskFailed "faulty" "no") [([], 1), ([1], 0)] m s x t y ∧
      Clear [([], 1), ([1], 0)] t ∧
      ∃ g u, Run False t y g (.done (.error ((Fault.taskFailed "faulty" "no").under [1, 0]))) u) ∧
    ∃ h u h₁ m way y z h₂ p q,
      Run True (batches.marked (.standard {}) 0 [] { label := "" }) {} h
        (.done (.error ((Fault.taskFailed "faulty" "no").under [1, 0]))) u ∧
      h = h₁ ++ .own m way y z :: h₂ ∧
      ((∃ piece path inner a origin, batches.Has [] { label := "" } m.place piece path ∧
        Left True (.standard {}) m.place piece a ∧
        Works True m inner a y (.done (.error origin)) z path p q) ∨
        ∃ path pool, batches.Has [] { label := "" } pool .batch path ∧
          Refuses True m pool path p y q z) := by
  refine ⟨?_, ?_, ?_, ?_⟩
  · obtain ⟨_, path, _, _, hstrikes⟩ := ((fault_keeps_address ignorant 0
      (.sequence "block" .block [.mk { guard := some "x" } block]) [] { label := "" }).2
        (.stop : Run False _ {} [] _ {})).1 .act rfl rfl
    exact ⟨path, _, hstrikes⟩
  · have hrun : Run False (block.marked (.standard {}) 0 [] { label := "" }) {} _ _ _ :=
      .own .act .stop
    obtain ⟨executable, brief, path, inner, a, b, hplace, -, hworks, -⟩ :=
      ((fault_keeps_address (.standard {}) 0 block [] { label := "" }).2 hrun).2.1 .act (Or.inl rfl)
    exact ⟨_, _, _, executable, brief, path, inner, a, b, _, _, hrun, hplace, hworks⟩
  · obtain ⟨h, s, x, hrun, m, t, y, hstrikes, hclear⟩ : ∃ h s x,
        Run False (batches.marked (.standard {}) 0 [] { label := "" }) {} h s x ∧ ∃ m t y,
          Strikes False (.taskFailed "faulty" "no") [([], 1), ([1], 0)] m s x t y ∧
          Clear [([], 1), ([1], 0)] t :=
      ⟨_, _, _, .own .act <| .own .act <| .own (.deal (i := 1) False.elim rfl rfl) <|
        .own (.branch (i := 1) False.elim rfl .act) <| .own (.branch (i := 1) False.elim rfl .act) <|
        .own (.branch (i := 1) False.elim rfl .act) <| .own (.branch (i := 1) False.elim rfl .act) <|
        .own (.branch (i := 1) False.elim rfl (.deal (i := 0) False.elim rfl rfl)) <|
        .own (.branch (i := 1) False.elim rfl (.branch (i := 0) False.elim rfl .act)) .stop,
        _, _, _, ⟨_, _, .branch (by rfl) False.elim (by rfl)
          (.branch (by rfl) False.elim (by rfl) (.here .act))⟩,
        .branch (by rfl) (by rfl) (by exact List.forall_mem_nil _)
          (.branch (by rfl) (by rfl) (by exact List.forall_mem_nil _) .here)⟩
    obtain ⟨-, hout⟩ :=
      ((fault_keeps_address (.standard {}) 0 batches [] { label := "" }).2 hrun).2.2.1 hstrikes hclear
    exact ⟨h, s, x, m, t, y, hrun, hstrikes, hclear, hout⟩
  · obtain ⟨hends, hflow⟩ := fault_keeps_address (.standard {}) 0 batches [] { label := "" }
    obtain ⟨h, -, hrun⟩ := hends (rfl : Activity.run 9
      (batches.work (.standard {}) 0 [] { label := "" }) {} =
        some (.error ((Fault.taskFailed "faulty" "no").under [1, 0]), _))
    obtain ⟨h₁, m, way, y, z, h₂, p, q, heq, -, horigin, -⟩ := (hflow hrun).2.2.2 rfl nofun
    exact ⟨h, _, h₁, m, way, y, z, h₂, p, q, hrun, heq, horigin⟩

end Runsheet
