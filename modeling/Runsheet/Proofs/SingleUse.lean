import Runsheet.Proofs.Batch
import Runsheet.Proofs.Throughout

/-!
# Splits are used once

Where a split is under way in an activity, and why it is so at most once.  `Live q a` says that a
split on the pool `q` is under way somewhere in `a`.  An activity has a `SingleUse` of `q` if the
split is under way during one stretch of every run at most: never when one of certain pools is closed
from the beginning, and with one of them closed when the activity comes to its end after the
stretch.  The property goes from the parts to the whole:

* `SingleUse.bind` — one activity after the other;
* `SingleUse.within` — work under a limit;
* `SingleUse.batch` — a batch with at most one branch that knows the split.
-/

namespace Runsheet

namespace Activity

variable {ordered sealed : Prop} {way : Way} {a b c d : Activity} {w v u x : World}
variable {h g h₁ h₂ h₃ : List Turn} {q p : Pool} {S : Pool → Prop} {i : Nat}

/-! ### Splits that are under way -/

/-- A split of which the tally and the branches have a given property is under way somewhere in the
activity. -/
inductive Somewhere (split : Tally → List (Slot Activity) → Prop) : Activity → Prop
  | here {t : Tally} {slots : List (Slot Activity)} {next : Reading → Activity}
      (hsplit : split t slots) : Somewhere split (.fork t slots next)
  | inside {left : Nat} {a : Activity} {next : Option Outcome → Activity}
      (ha : Somewhere split a) : Somewhere split (.within left a next)
  | branch {i : Nat} {t : Tally} {slots : List (Slot Activity)} {a : Activity}
      {next : Reading → Activity} (hslot : slots[i]? = some (.running a)) (ha : Somewhere split a) :
      Somewhere split (.fork t slots next)

/-- A split on the pool is under way. -/
def Live (q : Pool) : Activity → Prop :=
  Somewhere fun t _ => t.pool = q

/-- A split on the pool is under way although one of its branches has faulted. -/
def Outlasting (q : Pool) : Activity → Prop :=
  Somewhere fun t slots => t.pool = q ∧
    ∃ (i : Nat) (fault : Fault), slots[i]? = some (.ended (.error fault))

theorem Outlasting.live (ha : Outlasting q a) : Live q a := by
  induction ha with
  | here hsplit => exact .here hsplit.1
  | inside _ ih => exact .inside ih
  | branch hslot _ ih => exact .branch hslot ih

/-- **A split on the pool begins** in a move. -/
inductive Splits (ordered : Prop) (q : Pool) : Way → Activity → World → Activity → World → Prop
  | here {f : World → World} {next : World → Activity} {w : World} {t : Tally}
      {slots : List (Slot Activity)} {k : Reading → Activity} (hnext : next w = .fork t slots k)
      (hpool : t.pool = q) : Splits ordered q [] (.act f next) w (next w) (f w)
  | inside {way : Way} {left : Nat} {a b : Activity} {next : Option Outcome → Activity}
      {w v : World} (hturn : ordered → left = 0 → ¬ AtRest a) (hsplits : Splits ordered q way a w b v) :
      Splits ordered q way (.within left a next) w (.within left b next) v
  | branch {way : Way} {i : Nat} {t : Tally} {slots : List (Slot Activity)} {a b : Activity}
      {next : Reading → Activity} {w v : World} (hturn : ordered → InTurn t slots i)
      (hslot : slots[i]? = some (.running a)) (hsplits : Splits ordered q way a w b v) :
      Splits ordered q ((t.pool, i) :: way) (.fork t slots next) w
        (.fork t (slots.set i (.running b)) next) v

theorem Splits.live (hsplits : Splits ordered q way a w b v) : Live q b := by
  induction hsplits with
  | here hnext hpool =>
      rw [hnext]
      exact .here hpool
  | inside _ _ ih => exact .inside ih
  | branch _ hslot _ ih =>
      have hi := (List.getElem?_eq_some_iff.mp hslot).1
      exact .branch (List.getElem?_set_self hi) ih

theorem Splits.move (hsplits : Splits ordered q way a w b v) : Move ordered way a w b v := by
  induction hsplits with
  | here => exact .act
  | inside hturn _ ih => exact .inside hturn ih
  | branch hturn hslot _ ih => exact .branch hturn hslot ih

/-- A split that begins while another one is under way begins in the first of two activities, if that has not
ended. -/
theorem Splits.of_bind {k : Outcome → Activity} (hsplits : Splits ordered q way (a.bind k) w c v)
    (hlive : Live q a) : ∃ b, Splits ordered q way a w b v ∧ c = b.bind k := by
  cases hlive with
  | here =>
      cases hsplits with
      | branch hturn hslot hsplits => exact ⟨_, .branch hturn hslot hsplits, rfl⟩
  | inside =>
      cases hsplits with
      | inside hturn hsplits => exact ⟨_, .inside hturn hsplits, rfl⟩
  | branch =>
      cases hsplits with
      | branch hturn hslot hsplits => exact ⟨_, .branch hturn hslot hsplits, rfl⟩

theorem Somewhere.of_bind {split : Tally → List (Slot Activity) → Prop} {k : Outcome → Activity}
    (hbind : Somewhere split (a.bind k)) :
    Somewhere split a ∨ ∃ o, a = .done o ∧ Somewhere split (k o) := by
  cases a with
  | done o => exact Or.inr ⟨o, rfl, hbind⟩
  | act f next => cases hbind
  | sleep ms next => cases hbind
  | never => cases hbind
  | within left body next =>
      cases hbind with
      | inside ha => exact Or.inl (.inside ha)
  | fork t slots next =>
      cases hbind with
      | here hsplit => exact Or.inl (.here hsplit)
      | branch hslot ha => exact Or.inl (.branch hslot ha)

theorem Somewhere.bind {split : Tally → List (Slot Activity) → Prop} (ha : Somewhere split a)
    (k : Outcome → Activity) : Somewhere split (a.bind k) := by
  cases ha with
  | here hsplit => exact .here hsplit
  | inside ha => exact .inside ha
  | branch hslot ha => exact .branch hslot ha

/-- **A unit acts only while its split is under way.** -/
theorem Move.live (hmove : Move ordered way a w b v) (hway : (q, i) ∈ way) : Live q a := by
  induction hmove with
  | inside _ _ ih => exact .inside (ih hway)
  | deal =>
      obtain ⟨rfl, rfl⟩ := Prod.mk.inj (List.mem_singleton.mp hway)
      exact .here rfl
  | branch _ hslot _ ih =>
      rcases List.mem_cons.mp hway with heq | hmem
      · obtain ⟨rfl, rfl⟩ := Prod.mk.inj heq
        exact .here rfl
      · exact .branch hslot (ih hmem)
  | finish =>
      obtain ⟨rfl, rfl⟩ := Prod.mk.inj (List.mem_singleton.mp hway)
      exact .here rfl
  | _ => cases hway

/-! ### Closed pools stay closed -/

/-- The turn opens no pool that is closed. -/
def Turn.Grows : Turn → Prop
  | .own _ w v | .other w v => ∀ p, w.isClosed p = true → v.isClosed p = true
  | .tick => True

/-- No turn of the history opens a pool that is closed. -/
def Grows (h : List Turn) : Prop :=
  ∀ t ∈ h, t.Grows

theorem grows_append : Grows (h ++ g) ↔ Grows h ∧ Grows g := by
  simp only [Grows, List.mem_append]
  exact ⟨fun hall => ⟨fun t ht => hall t (Or.inl ht), fun t ht => hall t (Or.inr ht)⟩,
    fun hall t ht => ht.elim (hall.1 t) (hall.2 t)⟩

theorem grows_cons {t : Turn} : Grows (t :: h) ↔ t.Grows ∧ Grows h := by
  simp [Grows]

theorem Turn.Grows.seenBy {t : Turn} (ht : t.Grows) (pool : Pool) (i : Nat) :
    (t.seenBy pool i).Grows := by
  rcases t with ⟨_ | ⟨step, way⟩, w, v⟩ | ⟨w, v⟩ | _
  · exact ht
  · by_cases hstep : step = (pool, i)
    · rw [Turn.seenBy, if_pos hstep]
      exact ht
    · rw [Turn.seenBy, if_neg hstep]
      exact ht
  · exact ht
  · exact ht

/-- What a branch sees opens no pool either. -/
theorem Grows.view (hgrows : Grows h) (pool : Pool) (i : Nat) : Grows (view pool i h) := by
  intro t ht
  obtain ⟨t', ht', rfl⟩ := List.mem_map.mp ht
  exact (hgrows t' ht').seenBy pool i

/-- One of the pools is closed. -/
def Barred (S : Pool → Prop) (w : World) : Prop :=
  ∃ p, S p ∧ w.isClosed p = true

theorem Run.barred (hrun : Run ordered a w h b v) (hgrows : Grows h) (hbarred : Barred S w) :
    Barred S v := by
  induction hrun with
  | stop => exact hbarred
  | own hmove _ ih =>
      obtain ⟨p, hp, hclosed⟩ := hbarred
      obtain ⟨hturn, hrest⟩ := grows_cons.mp hgrows
      exact ih hrest ⟨p, hp, hturn p hclosed⟩
  | other _ ih =>
      obtain ⟨p, hp, hclosed⟩ := hbarred
      obtain ⟨hturn, hrest⟩ := grows_cons.mp hgrows
      exact ih hrest ⟨p, hp, hturn p hclosed⟩
  | tick _ _ ih => exact ih (grows_cons.mp hgrows).2 hbarred

/-! ### The property -/

/-- **A single use** of the split on a pool `q`, along runs in which no pool is opened: it is under
way during one stretch at most, and not at all if one of the pools `S` is closed from the beginning;
if the activity is `sealed`, it ends after such a stretch with one of these pools closed; no time passes
while the split outlasts the fault of a branch; and it does not begin while it is under way. -/
structure SingleUse (ordered sealed : Prop) (q : Pool) (S : Pool → Prop) (a : Activity) : Prop where
  barred {w : World} {h : List Turn} {b : Activity} {v : World} : Run ordered a w h b v → Grows h →
    Barred S w → ¬ Live q b
  once {w : World} {h₁ : List Turn} {b : Activity} {v : World} {h₂ : List Turn} {c : Activity}
    {u : World} {h₃ : List Turn} {d : Activity} {x : World} : Run ordered a w h₁ b v →
    Run ordered b v h₂ c u → Run ordered c u h₃ d x → Grows h₁ → Grows h₂ → Grows h₃ →
    Live q b → ¬ Live q c → ¬ Live q d
  seals {w : World} {h₁ : List Turn} {b : Activity} {v : World} {h₂ : List Turn} {o : Outcome}
    {u : World} : sealed → Run ordered a w h₁ b v → Run ordered b v h₂ (.done o) u → Grows h₁ →
    Grows h₂ → Live q b → Barred S u
  prompt {w : World} {h₁ : List Turn} {b : Activity} {v : World} {h₂ : List Turn} {c : Activity}
    {u : World} : Run ordered a w h₁ b v → Run ordered b v h₂ c u → Grows h₁ → Grows h₂ →
    Outlasting q b → Live q c → ticks h₂ = 0
  alone {w : World} {h : List Turn} {b : Activity} {v : World} {way : Way} {c : Activity} {u : World} :
    Run ordered a w h b v → Grows h → Splits ordered q way b v c u → ¬ Live q b

/-- The split is never under way. -/
structure Never (ordered : Prop) (q : Pool) (a : Activity) : Prop where
  not_live {w : World} {h : List Turn} {b : Activity} {v : World} : Run ordered a w h b v →
    ¬ Live q b

theorem Never.singleUse (ha : Never ordered q a) : SingleUse ordered sealed q S a where
  barred hrun _ _ := ha.not_live hrun
  once hrun₁ hrun₂ hrun₃ _ _ _ _ _ := ha.not_live ((hrun₁.append hrun₂).append hrun₃)
  seals _ hrun _ _ _ hlive := (ha.not_live hrun hlive).elim
  prompt hrun _ _ _ hout _ := (ha.not_live hrun hout.live).elim
  alone hrun _ _ := ha.not_live hrun

theorem SingleUse.unsealed (ha : SingleUse ordered sealed q S a) :
    SingleUse ordered False q S a :=
  ⟨ha.barred, ha.once, False.elim, ha.prompt, ha.alone⟩

/-- An activity that is not under way on the pool, or goes on with one that has a single use of it, has
a single use of it. -/
theorem SingleUse.of_rest
    (hrest : ∀ {w h b v}, Run ordered a w h b v → Grows h → ¬ Live q b ∨
      ∃ a' w' h', SingleUse ordered sealed q S a' ∧ Run ordered a' w' h' b v ∧ Grows h' ∧
        (Barred S w → Barred S w')) : SingleUse ordered sealed q S a where
  barred hrun hgrows hbarred := by
    rcases hrest hrun hgrows with hnot | ⟨a', w', h', ha', hrun', hgrows', hstill⟩
    · exact hnot
    · exact ha'.barred hrun' hgrows' (hstill hbarred)
  once hrun₁ hrun₂ hrun₃ hgrows₁ hgrows₂ hgrows₃ hlive := by
    rcases hrest hrun₁ hgrows₁ with hnot | ⟨a', w', h', ha', hrun', hgrows', _⟩
    · exact (hnot hlive).elim
    · exact ha'.once hrun' hrun₂ hrun₃ hgrows' hgrows₂ hgrows₃ hlive
  seals hsealed hrun₁ hrun₂ hgrows₁ hgrows₂ hlive := by
    rcases hrest hrun₁ hgrows₁ with hnot | ⟨a', w', h', ha', hrun', hgrows', _⟩
    · exact (hnot hlive).elim
    · exact ha'.seals hsealed hrun' hrun₂ hgrows' hgrows₂ hlive
  prompt hrun₁ hrun₂ hgrows₁ hgrows₂ hout hlive := by
    rcases hrest hrun₁ hgrows₁ with hnot | ⟨a', w', h', ha', hrun', hgrows', _⟩
    · exact (hnot hout.live).elim
    · exact ha'.prompt hrun' hrun₂ hgrows' hgrows₂ hout hlive
  alone hrun hgrows hsplits := by
    rcases hrest hrun hgrows with hnot | ⟨a', w', h', ha', hrun', hgrows', _⟩
    · exact hnot
    · exact ha'.alone hrun' hgrows' hsplits

/-! ### From the parts to the whole -/

theorem SingleUse.act {f : World → World} {next : World → Activity}
    (hnext : ∀ w, SingleUse ordered sealed q S (next w)) :
    SingleUse ordered sealed q S (.act f next) := by
  refine .of_rest fun {w h b v} hrun hgrows => ?_
  rcases hrun.of_act with ⟨rfl, _⟩ | ⟨h₁, h₂, x, rfl, _, hbefore, hafter⟩
  · exact Or.inl nofun
  · obtain ⟨hgrows₁, hgrows₂⟩ := grows_append.mp hgrows
    obtain ⟨hturn, hgrows₂⟩ := grows_cons.mp hgrows₂
    refine Or.inr ⟨next x, f x, h₂, hnext x, hafter, hgrows₂, fun hbarred => ?_⟩
    obtain ⟨p, hp, hclosed⟩ := hbefore.barred hgrows₁ hbarred
    exact ⟨p, hp, hturn p hclosed⟩

theorem SingleUse.sleep {ms : Nat} {next : World → Activity}
    (hnext : ∀ w, SingleUse ordered sealed q S (next w)) :
    SingleUse ordered sealed q S (.sleep ms next) := by
  refine .of_rest fun {w h b v} hrun hgrows => ?_
  rcases hrun.of_sleep with ⟨rest, rfl⟩ | ⟨h₁, h₂, x, rfl, hbefore, hafter⟩
  · exact Or.inl nofun
  · obtain ⟨hgrows₁, hgrows₂⟩ := grows_append.mp hgrows
    exact Or.inr ⟨next x, x, h₂, hnext x, hafter, (grows_cons.mp hgrows₂).2,
      hbefore.barred hgrows₁⟩

theorem bind_not_done {k : Outcome → Activity} {o : Outcome} (ha : ∀ o, a ≠ .done o) :
    a.bind k ≠ .done o := by
  cases a with
  | done o => exact (ha o rfl).elim
  | _ => exact nofun

/-- **One after the other**: if the first activity is sealed, what follows it does not use the split
again. -/
theorem SingleUse.bind {k : Outcome → Activity} (ha : SingleUse ordered True q S a)
    (hk : ∀ o, SingleUse ordered sealed q S (k o)) : SingleUse ordered sealed q S (a.bind k) := by
  -- A live split is one of the first activity for as long as that is not done.
  have hfirst {split : Tally → List (Slot Activity) → Prop} {b : Activity} (hb : ∀ o, b ≠ .done o)
      (hlive : Somewhere split (b.bind k)) : Somewhere split b := by
    rcases hlive.of_bind with hfirst | ⟨o, ho, _⟩
    · exact hfirst
    · exact (hb o ho).elim
  constructor
  case barred =>
    intro w h b v hrun hgrows hbarred hlive
    rcases hrun.of_bind with ⟨b', hrun', hlasts, rfl⟩ | ⟨g₁, g₂, o, y, rfl, hrun₁, hrun₂⟩
    · exact ha.barred hrun' hgrows hbarred (hfirst hlasts hlive)
    · obtain ⟨hgrows₁, hgrows₂⟩ := grows_append.mp hgrows
      exact (hk o).barred hrun₂ hgrows₂ (hrun₁.barred hgrows₁ hbarred) hlive
  case once =>
    intro w h₁ b v h₂ c u h₃ d x hrun₁ hrun₂ hrun₃ hgrows₁ hgrows₂ hgrows₃ hlive hnot hagain
    rcases hrun₁.of_bind with ⟨b', hrun₁', hb, rfl⟩ | ⟨g₁, g₂, o, y, rfl, _, hrun₁'⟩
    · have hlive' := hfirst hb hlive
      rcases hrun₂.of_bind with ⟨c', hrun₂', hc, rfl⟩ | ⟨g₁, g₂, o, y, rfl, hend, hrun₂'⟩
      · have hnot' : ¬ Live q c' := fun hlive => hnot (hlive.bind k)
        rcases hrun₃.of_bind with ⟨d', hrun₃', hd, rfl⟩ | ⟨g₁, g₂, o, y, rfl, hend, hrun₃'⟩
        · exact ha.once hrun₁' hrun₂' hrun₃' hgrows₁ hgrows₂ hgrows₃ hlive' hnot' (hfirst hd hagain)
        · obtain ⟨hgrows₄, hgrows₅⟩ := grows_append.mp hgrows₃
          have hbarred := ha.seals trivial hrun₁' (hrun₂'.append hend) hgrows₁
            (grows_append.mpr ⟨hgrows₂, hgrows₄⟩) hlive'
          exact (hk o).barred hrun₃' hgrows₅ hbarred hagain
      · obtain ⟨hgrows₄, hgrows₅⟩ := grows_append.mp hgrows₂
        have hbarred := ha.seals trivial hrun₁' hend hgrows₁ hgrows₄ hlive'
        exact (hk o).barred (hrun₂'.append hrun₃) (grows_append.mpr ⟨hgrows₅, hgrows₃⟩) hbarred
          hagain
    · exact (hk o).once hrun₁' hrun₂ hrun₃ (grows_append.mp hgrows₁).2 hgrows₂ hgrows₃ hlive hnot
        hagain
  case seals =>
    intro w h₁ b v h₂ o u hsealed hrun₁ hrun₂ hgrows₁ hgrows₂ hlive
    rcases hrun₁.of_bind with ⟨b', hrun₁', hb, rfl⟩ | ⟨g₁, g₂, o', y, rfl, _, hrun₁'⟩
    · rcases hrun₂.of_bind with ⟨c', _, hc, hdone⟩ | ⟨g₁, g₂, o', y, rfl, hend, hrun₂'⟩
      · exact (bind_not_done hc hdone.symm).elim
      · obtain ⟨hgrows₄, hgrows₅⟩ := grows_append.mp hgrows₂
        have hbarred := ha.seals trivial hrun₁' hend hgrows₁ hgrows₄ (hfirst hb hlive)
        exact hrun₂'.barred hgrows₅ hbarred
    · exact (hk o').seals hsealed hrun₁' hrun₂ (grows_append.mp hgrows₁).2 hgrows₂ hlive
  case prompt =>
    intro w h₁ b v h₂ c u hrun₁ hrun₂ hgrows₁ hgrows₂ hout hlive
    rcases hrun₁.of_bind with ⟨b', hrun₁', hb, rfl⟩ | ⟨g₁, g₂, o, y, rfl, _, hrun₁'⟩
    · have hout' := hfirst hb hout
      rcases hrun₂.of_bind with ⟨c', hrun₂', hc, rfl⟩ | ⟨g₁, g₂, o, y, rfl, hend, hrun₂'⟩
      · exact ha.prompt hrun₁' hrun₂' hgrows₁ hgrows₂ hout' (hfirst hc hlive)
      · obtain ⟨hgrows₄, hgrows₅⟩ := grows_append.mp hgrows₂
        have hbarred := ha.seals trivial hrun₁' hend hgrows₁ hgrows₄ (Outlasting.live hout')
        exact ((hk o).barred hrun₂' hgrows₅ hbarred hlive).elim
    · exact (hk o).prompt hrun₁' hrun₂ (grows_append.mp hgrows₁).2 hgrows₂ hout hlive
  case alone =>
    intro w h b v way c u hrun hgrows hsplits hlive
    rcases hrun.of_bind with ⟨b', hrun', hb, rfl⟩ | ⟨g₁, g₂, o, y, rfl, _, hrun₂⟩
    · have hlive' := hfirst hb hlive
      obtain ⟨c', hsplits', rfl⟩ := hsplits.of_bind hlive'
      exact ha.alone hrun' hgrows hsplits' hlive'
    · exact (hk o).alone hrun₂ (grows_append.mp hgrows).2 hsplits hlive

theorem SingleUse.note {level : Level} {text : String} (ha : SingleUse ordered sealed q S a) :
    SingleUse ordered sealed q S (note level text a) :=
  .act fun _ => ha

theorem Never.done {o : Outcome} : Never ordered q (.done o) := by
  refine ⟨fun hrun hlive => ?_⟩
  rw [hrun.of_done.1] at hlive
  cases hlive

theorem SingleUse.done {o : Outcome} : SingleUse ordered sealed q S (.done o) :=
  Never.singleUse .done

theorem SingleUse.check {e : Evaluator} {s : Settings} {next : Bool → Activity}
    (hnext : ∀ b, SingleUse ordered sealed q S (next b)) :
    SingleUse ordered sealed q S (s.check e next) := by
  refine .act fun w => ?_
  cases s.holds e w.context with
  | ok b => exact hnext b
  | error error => exact .done

theorem SingleUse.delayed {label : String} {ms : Nat} (ha : SingleUse ordered sealed q S a) :
    SingleUse ordered sealed q S (delayed label ms a) := by
  unfold Activity.delayed
  split
  · exact ha.note
  · exact .note (.sleep fun _ => ha.note)

theorem SingleUse.onReport {k : Report → Activity} (ha : SingleUse ordered True q S a)
    (hk : ∀ r, SingleUse ordered sealed q S (k r)) :
    SingleUse ordered sealed q S (a.onReport k) := by
  refine ha.bind fun o => ?_
  cases o with
  | ok r => exact hk r
  | error fault => exact .done

/-- What never splits on the pool is never under way on it. -/
theorem Never.of_throughout {P : (World → World) → (World → Activity) → Prop}
    (ha : Throughout P (fun p => p ≠ q) a) : Never ordered q a := by
  have hnot {b : Activity} (hb : Throughout P (fun p => p ≠ q) b) : ¬ Live q b := by
    intro hlive
    induction hlive with
    | here hsplit =>
        cases hb with
        | fork hpool => exact hpool hsplit
    | inside _ ih =>
        cases hb with
        | within hbody => exact ih hbody
    | branch hslot _ ih =>
        cases hb with
        | fork _ hslots => exact ih (hslots _ (List.mem_of_getElem? hslot) _ rfl)
  exact ⟨fun hrun => hnot (ha.run hrun)⟩

theorem Never.never : Never ordered q .never :=
  .of_throughout (P := fun _ _ => True) .never

theorem Never.note {level : Level} {text : String} {r : Report} :
    Never ordered q (note level text (report r)) :=
  .of_throughout (P := fun _ _ => True) (.act trivial fun _ => .done)

theorem SingleUse.rounds {mode : Repetition} {label : String} {count : Nat}
    (ha : SingleUse ordered True q S a) (left : Nat) :
    SingleUse ordered True q S (rounds mode label a count left) := by
  induction left generalizing count with
  | zero => exact Never.singleUse .never
  | succ left ih =>
      refine ha.onReport fun r => .act fun w => ?_
      split
      · exact ih
      · exact .note .done

/-- The phases of work under a limit, for splits that what follows does not use. -/
private theorem Run.of_within_live {split : Tally → List (Slot Activity) → Prop} {left : Nat}
    {next : Option Outcome → Activity} (hnext : ∀ o {w h b v}, Run ordered (next o) w h b v →
      ¬ Somewhere split b)
    (hrun : Run ordered (.within left a next) w h c u) (hlive : Somewhere split c) :
    ∃ b rest, c = .within rest b next ∧ Run ordered a w h b u ∧ Somewhere split b := by
  rcases hrun.of_within with ⟨b, hbody, _, rfl⟩ | ⟨_, _, o, _, _, _, _, _, hrest⟩ |
    ⟨_, _, _, _, _, _, _, _, _, hrest⟩
  · cases hlive with
    | inside hlive => exact ⟨b, _, rfl, hbody, hlive⟩
  · exact (hnext _ hrest hlive).elim
  · exact (hnext _ hrest hlive).elim

/-- Work under a limit uses the split once if what follows does not use it.  It is not sealed, since
the time may run out while the split is under way. -/
theorem SingleUse.within {left : Nat} {next : Option Outcome → Activity}
    (ha : SingleUse ordered sealed q S a) (hnext : ∀ o, Never ordered q (next o)) :
    SingleUse ordered False q S (.within left a next) := by
  have hlater : ∀ o {w h b v}, Run ordered (next o) w h b v → ¬ Live q b :=
    fun o => (hnext o).not_live
  constructor
  case barred =>
    intro w h b v hrun hgrows hbarred hlive
    obtain ⟨b', _, _, hbody, hlive'⟩ := hrun.of_within_live hlater hlive
    exact ha.barred hbody hgrows hbarred hlive'
  case once =>
    intro w h₁ b v h₂ c u h₃ d x hrun₁ hrun₂ hrun₃ hgrows₁ hgrows₂ hgrows₃ hlive hnot hagain
    obtain ⟨b', _, rfl, hbody₁, hlive'⟩ := hrun₁.of_within_live hlater hlive
    rcases hrun₂.of_within with ⟨c', hbody₂, _, rfl⟩ | ⟨_, _, o, _, _, _, _, _, hrest⟩ |
      ⟨_, _, _, _, _, _, _, _, _, hrest⟩
    · obtain ⟨d', _, _, hbody₃, hagain'⟩ := hrun₃.of_within_live hlater hagain
      exact ha.once hbody₁ hbody₂ hbody₃ hgrows₁ hgrows₂ hgrows₃ hlive'
        (fun hc => hnot (.inside hc)) hagain'
    · exact (hnext _).not_live (hrest.append hrun₃) hagain
    · exact (hnext _).not_live (hrest.append hrun₃) hagain
  case seals => exact False.elim
  case prompt =>
    intro w h₁ b v h₂ c u hrun₁ hrun₂ hgrows₁ hgrows₂ hout hlive
    have hlater' : ∀ o {w h b v}, Run ordered (next o) w h b v → ¬ Outlasting q b :=
      fun o _ _ _ _ hrun hout => hlater o hrun hout.live
    obtain ⟨b', _, rfl, hbody₁, hout'⟩ := hrun₁.of_within_live hlater' hout
    obtain ⟨c', _, rfl, hbody₂, hlive'⟩ := hrun₂.of_within_live hlater hlive
    exact ha.prompt hbody₁ hbody₂ hgrows₁ hgrows₂ hout' hlive'
  case alone =>
    intro w h b v way c u hrun hgrows hsplits hlive
    obtain ⟨b', _, rfl, hbody, hlive'⟩ := hrun.of_within_live hlater hlive
    cases hsplits with
    | inside _ hsplits => exact ha.alone hbody hgrows hsplits hlive'

theorem SingleUse.limited {limit index : Nat} {label : String}
    (ha : SingleUse ordered True q S a) :
    SingleUse ordered False q S (limited limit index label a) := by
  unfold Activity.limited
  split
  · exact ha.unsealed
  · refine ha.within fun o => ?_
    cases o with
    | some o => exact .done
    | none => exact .note

theorem SingleUse.branch {e : Evaluator} {s : Settings} {limit index : Nat} {label : String}
    (ha : SingleUse ordered True q S a) :
    SingleUse ordered False q S (branch e limit index label s a) := by
  refine .check fun b => ?_
  cases b with
  | false => exact .note .done
  | true => exact ha.limited

/-! ### Batches -/

section

variable {name : String} {pool : Pool} {threads limit : Nat} {branches : List Activity}
variable {split : Tally → List (Slot Activity) → Prop}

theorem Run.of_conclude_live {count : String} {reading : Reading}
    (hrun : Run ordered (conclude name pool count reading) w h c u) : ¬ Somewhere split c := by
  rcases hrun.of_conclude with ⟨f, next, rfl⟩ | ⟨rfl, _⟩ <;> exact nofun

variable {t t' t'' : Tally} {slots slots' slots'' : List (Slot Activity)} {count : String}

/-- If a split is under way later on, the split of the batch lasts until then. -/
theorem Run.lasts (hrun : Run ordered (.fork t slots (conclude name pool count)) w h c u)
    (hlater : Run ordered c u g d x) (hlive : Somewhere split d) :
    ∃ t' slots', c = .fork t' slots' (conclude name pool count) ∧
      Lasting ordered t slots w h t' slots' u := by
  rcases hrun.of_fork with hlast | ⟨_, _, _, _, _, _, rfl, _, _, hend⟩
  · exact hlast
  · exact ((hend.append hlater).of_conclude_live hlive).elim

/-- Where a split is under way in a batch, the batch has found its pool open and lasts. -/
theorem Run.of_batch_live (hrun : Run ordered (batch name pool threads limit branches) w h b v)
    (hgrows : Grows h) (hlive : Somewhere split b) :
    w.isClosed pool = false ∧ ∃ x g t slots,
      b = .fork t slots (conclude name pool (toString branches.length)) ∧
      Lasting ordered (.opening pool (threadsOf threads) branches.length) (branches.map .fresh) x g
        t slots v ∧
      Grows g ∧ ∀ S, Barred S w → Barred S x := by
  rcases hrun.of_batch with ⟨⟨f, next, rfl⟩, _⟩ | ⟨_, _, _, _, _, _, _, hend⟩ |
    ⟨h₁, y, h₂, x, g, rfl, _, hbefore, hopen, _, _, _, hsplit, hfork⟩
  · cases hlive
  · rw [hend.of_done.1] at hlive
    cases hlive
  · obtain ⟨hgrows₁, hgrows₂⟩ := grows_append.mp hgrows
    have hopen' : w.isClosed pool = false := by
      cases hclosed : w.isClosed pool with
      | false => rfl
      | true =>
          obtain ⟨p, rfl, hstill⟩ := hbefore.barred (S := fun p => p = pool)
            (grows_append.mp hgrows₁).1 ⟨pool, rfl, hclosed⟩
          rw [hopen] at hstill
          cases hstill
    obtain ⟨t, slots, rfl, hlast⟩ := Run.lasts hfork .stop hlive
    exact ⟨hopen', x, g, t, slots, rfl, hlast, hgrows₂, fun S hbarred => hsplit.barred hgrows₁ hbarred⟩

/-- A branch that runs is one of those that the split began with, and has come there on a run of its own. -/
theorem Lasting.own_run
    (hlast : Lasting ordered t (branches.map .fresh) w h t' slots v) (hgrows : Grows h)
    (hslot : slots[i]? = some (.running a)) :
    ∃ branch x g, branches[i]? = some branch ∧ Run ordered branch x g a v ∧ Grows g ∧
      ∀ S, Barred S w → Barred S x := by
  have hi : i < branches.length := by
    have hlt := (List.getElem?_eq_some_iff.mp hslot).1
    rwa [hlast.length, List.length_map] at hlt
  have hbranch : branches[i]? = some branches[i] := List.getElem?_eq_getElem hi
  obtain ⟨s, hs, hcourse⟩ := hlast.course (i := i) (s := .fresh branches[i]) (by simp [hbranch])
  rw [hslot] at hs
  cases hs
  obtain ⟨before, x, own, rfl, _, _, hown⟩ := hcourse.of_running
  obtain ⟨hgrows₁, hgrows₂⟩ := grows_append.mp hgrows
  refine ⟨branches[i], x, _, hbranch, hown, (grows_cons.mp hgrows₂).2.view t.pool i,
    fun S hbarred => ?_⟩
  have hrun : Run ordered (.fork t (branches.map .fresh) fun _ => .never) w _ _ v := hlast.run
  obtain ⟨_, _, hbefore, _, _⟩ := hrun.split_own
  exact hbefore.barred hgrows₁ hbarred

/-- A branch that runs before and after has run all the time between. -/
theorem Lasting.still_running (hl : Lasting ordered t slots w h t' slots' v)
    (hr : Lasting ordered t' slots' v g t'' slots'' u) (hslot : slots[i]? = some (.running a))
    (hslot'' : slots''[i]? = some (.running c)) :
    ∃ b, slots'[i]? = some (.running b) ∧ Run ordered a w (view t.pool i h) b v ∧
      Run ordered b v (view t.pool i g) c u := by
  obtain ⟨s, hs, hcourse⟩ := hl.course hslot
  obtain ⟨s', hs', hcourse'⟩ := hr.course hs
  rw [hslot''] at hs'
  cases hs'
  rcases hcourse.of_permit with ⟨b, rfl, hrun⟩ | ⟨o, _, _, _, rfl, _⟩
  · rcases hcourse'.of_permit with ⟨c', hc, hrun'⟩ | ⟨_, _, _, _, hc, _⟩
    · cases hc
      exact ⟨b, hs, hrun, hl.pool ▸ hrun'⟩
    · cases hc
  · cases hcourse'.over.1

/-- The branches of a batch use the split on `q` once: each one uses it once, of two branches one does
not know it, and no branch knows the split of the batch itself. -/
structure Hosts (ordered : Prop) (q pool : Pool) (S : Pool → Prop) (branches : List Activity) :
    Prop where
  uses : ∀ branch ∈ branches, SingleUse ordered False q S branch
  one {i j : Nat} {a b : Activity} : branches[i]? = some a → branches[j]? = some b → i ≠ j →
    Never ordered q a ∨ Never ordered q b
  self : pool = q → (∀ p, ¬ S p) ∧ ∀ branch ∈ branches, Never ordered q branch

/-- Two branches in which the split is under way are one. -/
theorem Hosts.same {j : Nat} {w' v' : World} {h' : List Turn}
    (hosts : Hosts ordered q pool S branches) (hi : branches[i]? = some a)
    (hj : branches[j]? = some b) (hrun : Run ordered a w h c v) (hlive : Live q c)
    (hrun' : Run ordered b w' h' d v') (hlive' : Live q d) : i = j := by
  by_cases hij : i = j
  · exact hij
  · rcases hosts.one hi hj hij with hnever | hnever
    · exact (hnever.not_live hrun hlive).elim
    · exact (hnever.not_live hrun' hlive').elim

/-- If the split is under way in a branch, it is not that of the batch itself. -/
theorem Hosts.not_self (hosts : Hosts ordered q pool S branches) (hi : branches[i]? = some a)
    (hrun : Run ordered a w h c v) (hlive : Live q c) : pool ≠ q :=
  fun hself => ((hosts.self hself).2 a (List.mem_of_getElem? hi)).not_live hrun hlive

/-- **A batch** uses a split once if one of its branches does, or if it is its own, and closes its pool
before it ends. -/
theorem SingleUse.batch (hosts : Hosts ordered q pool S branches) :
    SingleUse ordered True q (fun p => p = pool ∨ S p) (batch name pool threads limit branches) := by
  constructor
  case barred =>
    rintro w h b v hrun hgrows ⟨p, hp, hclosed⟩ hlive
    obtain ⟨hopen, x, g, t, slots, rfl, hlast, hgrows', hstill⟩ := hrun.of_batch_live hgrows hlive
    rcases hp with rfl | hp
    · rw [hopen] at hclosed
      cases hclosed
    · cases hlive with
      | here hself => exact (hosts.self (hlast.pool.symm.trans hself)).1 p hp
      | branch hslot hlive =>
          obtain ⟨branch, y, g', hi, hown, hgrows'', hstill'⟩ := hlast.own_run hgrows' hslot
          have hbarred := hstill' S (hstill S ⟨p, hp, hclosed⟩)
          exact (hosts.uses branch (List.mem_of_getElem? hi)).barred hown hgrows'' hbarred hlive
  case once =>
    intro w h₁ b v h₂ c u h₃ d x hrun₁ hrun₂ hrun₃ hgrows₁ hgrows₂ hgrows₃ hlive hnot hagain
    obtain ⟨_, y, g, t, slots, rfl, hlast, hgrows, _⟩ := hrun₁.of_batch_live hgrows₁ hlive
    -- A batch that has come to an end does not split again, so that it lasts all the time.
    obtain ⟨t', slots', rfl, hlast₂⟩ := hrun₂.lasts hrun₃ hagain
    obtain ⟨t'', slots'', rfl, hlast₃⟩ := hrun₃.lasts .stop hagain
    have hpool : t''.pool = t'.pool := hlast₃.pool
    cases hagain with
    | here hself => exact hnot (.here (hpool ▸ hself))
    | branch hslot₃ hagain =>
        obtain ⟨branch, _, _, hi, hown, _⟩ := ((hlast.append hlast₂).append hlast₃).own_run
          (grows_append.mpr ⟨grows_append.mpr ⟨hgrows, hgrows₂⟩, hgrows₃⟩) hslot₃
        cases hlive with
        | here hself => exact hosts.not_self hi hown hagain (hlast.pool.symm.trans hself)
        | branch hslot₁ hlive =>
            obtain ⟨branch', z, g', hj, hown₁, hgrows', _⟩ := hlast.own_run hgrows hslot₁
            obtain rfl := hosts.same hi hj hown hagain hown₁ hlive
            obtain ⟨a₂, hslot₂, hown₂, hown₃⟩ := hlast₂.still_running hlast₃ hslot₁ hslot₃
            exact (hosts.uses branch' (List.mem_of_getElem? hj)).once hown₁ hown₂ hown₃ hgrows'
              (hgrows₂.view _ _) (hgrows₃.view _ _) hlive
              (fun hlive₂ => hnot (.branch hslot₂ hlive₂)) hagain
  case seals =>
    intro w h₁ b v h₂ o u _ hrun₁ hrun₂ hgrows₁ hgrows₂ hlive
    obtain ⟨_, y, g, t, slots, rfl, hlast, hgrows, _⟩ := hrun₁.of_batch_live hgrows₁ hlive
    rcases hrun₂.of_fork with ⟨_, _, hc, _⟩ | ⟨g₁, g₂, _, _, _, _, rfl, _, _, hend⟩
    · cases hc
    · rcases hend.of_conclude with ⟨_, _, hc⟩ | ⟨_, _, _, hcloses⟩
      · cases hc
      · have hgrows₃ := (grows_cons.mp (grows_append.mp hgrows₂).2).2
        exact ⟨pool, Or.inl rfl, hcloses fun w v hmem hclosed => hgrows₃ _ hmem pool hclosed⟩
  case prompt =>
    intro w h₁ b v h₂ c u hrun₁ hrun₂ hgrows₁ hgrows₂ hout hlive
    obtain ⟨_, y, g, t, slots, rfl, hlast, hgrows, _⟩ := hrun₁.of_batch_live hgrows₁ hout
    obtain ⟨t', slots', rfl, hlast₂⟩ := hrun₂.lasts .stop hlive
    cases hout with
    | here hsplit =>
        obtain ⟨_, i, fault, hslot⟩ := hsplit
        rcases (hlast.tracks (Tally.tracks_opening ..)).ended hslot with hmem | ⟨r, hr, _⟩
        · exact hlast₂.ticks_of_fault hmem
        · cases hr
    | branch hslot hout =>
        obtain ⟨branch, _, _, hi, hown, hgrows', _⟩ := hlast.own_run hgrows hslot
        have hself := hosts.not_self hi hown (Outlasting.live hout)
        cases hlive with
        | here hpool => exact (hself (hlast.pool.symm.trans (hlast₂.pool.symm.trans hpool))).elim
        | branch hslot' hlive =>
            obtain ⟨branch', _, _, hj, hown', _⟩ := (hlast.append hlast₂).own_run
              (grows_append.mpr ⟨hgrows, hgrows₂⟩) hslot'
            obtain rfl := hosts.same hi hj hown (Outlasting.live hout) hown' hlive
            obtain ⟨c, hc, hown₂, _⟩ := hlast₂.still_running .stop hslot hslot'
            rw [hslot'] at hc
            cases hc
            have hzero := (hosts.uses branch (List.mem_of_getElem? hi)).prompt hown hown₂ hgrows'
              (hgrows₂.view _ _) hout hlive
            rwa [ticks_view] at hzero
  case alone =>
    intro w h b v way c u hrun hgrows hsplits hlive
    obtain ⟨_, y, g, t, slots, rfl, hlast, hgrows', _⟩ := hrun.of_batch_live hgrows hlive
    cases hsplits with
    | branch _ hslot hsplits =>
        obtain ⟨branch, _, _, hi, hown, hgrows'', _⟩ := hlast.own_run hgrows' hslot
        have hbegun := hown.append (.own hsplits.move .stop)
        cases hlive with
        | here hself => exact hosts.not_self hi hbegun hsplits.live (hlast.pool.symm.trans hself)
        | branch hslot' hlive =>
            obtain ⟨branch', _, _, hj, hown', _⟩ := hlast.own_run hgrows' hslot'
            obtain rfl := hosts.same hi hj hbegun hsplits.live hown' hlive
            rw [hslot] at hslot'
            cases hslot'
            exact (hosts.uses branch (List.mem_of_getElem? hi)).alone hown hgrows'' hsplits hlive

end

end Activity

end Runsheet
