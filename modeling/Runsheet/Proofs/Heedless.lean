import Runsheet.Proofs.Acceptance
import Runsheet.Proofs.Mirroring

/-!
# Tasks that know nothing of the log

A kind of task is heedless if it looks neither at the log nor at which of the pools of a plan are closed,
and closes none of them.  It does the same whatever is written to the log around it, and so do its
invocations if they are put into the journal.

* `Mirrors.heedless` — a heedless activity mirrors itself;
* `Registry.standard_heedless` — the tasks that are there from the beginning are heedless.
-/

namespace Runsheet

namespace Activity

variable {pools fresh region : Pool → Prop} {a : Activity}

/-- A change that looks neither at the log nor at which of the pools are closed, and closes none of
them. -/
def Heedless (pools : Pool → Prop) (f : World → World) (next : World → Activity) : Prop :=
  (∀ w v, Like pools w v → next v = next w ∧ Like pools (f w) (f v)) ∧
    ∀ w, Keeps pools (fun _ => False) w (f w)

/-- A heedless activity mirrors itself. -/
theorem Mirrors.heedless (ha : Throughout (Heedless pools) (fun p => ¬ pools p) a) :
    Mirrors pools fresh region a a := by
  induction ha generalizing fresh region with
  | done => exact .done
  | act hact _ ih =>
      refine .act (fun w v hlike => (hact.1 w v hlike).2) hact.2 hact.2 fun w v hlike => ?_
      rw [(hact.1 w v hlike).1]
      exact ih w
  | sleep hwake _ ih =>
      refine .sleep fun w v hlike => ?_
      rw [(hwake.1 w v hlike).1]
      exact ih w
  | never => exact .never
  | within _ _ ihbody ih =>
      exact .within (fun p (hp : fresh p) => hp) (fun _ (hp : False) => hp.elim)
        (fun p (hp : fresh p) => ⟨hp, id⟩) ihbody fun o => ih o
  | fork hpool _ _ ihslots ih =>
      -- the branches have no pools among the given ones
      refine .fork (fun hp => (hpool hp).elim) (fun _ _ (hp : False) => hp.elim)
        (fun _ _ (hp : False) => hp.elim) (fun _ _ _ hp => hp.elim)
        (fun p (hp : fresh p) => ⟨hp, fun _ => id⟩) rfl (fun i s s' a b hs hs' ha hb => ?_) fun r => ih r
      rw [hs, Option.some.injEq] at hs'
      subst hs'
      rw [ha, Option.some.injEq] at hb
      subst hb
      exact ihslots s (List.mem_of_getElem? hs) a ha

end Activity

open Activity

variable {pools : Pool → Prop} {w v : World} {e : Evaluator}

/-- The kind of task knows nothing of the log, nor which of the pools are closed, and what it splits works
on other pools. -/
def Executable.Heedless (x : Executable) (e : Evaluator) (pools : Pool → Prop) : Prop :=
  ∀ brief, Throughout (Activity.Heedless pools) (fun p => ¬ pools p) (x.behave e brief)

/-- An entry in the journal is made without a look at the log. -/
theorem Executable.Heedless.traced {x : Executable} (hx : x.Heedless e pools) :
    x.traced.Heedless e pools := by
  intro brief
  refine .act ⟨fun w v hlike => ⟨rfl, hlike.context, hlike.now, ?_, hlike.closed⟩,
    fun w => .refl w⟩ fun _ => hx brief
  simp [World.record, hlike.now, hlike.entries]

/-! ### The tasks that are there from the beginning -/

/-- What is done at once looks at the context, the clock and the journal alone, and closes no pool. -/
structure Plain (pools : Pool → Prop) (f : World → Outcome × World) : Prop where
  alike {w v : World} : Like pools w v → (f v).1 = (f w).1 ∧ Like pools (f w).2 (f v).2
  keeps (w : World) : (f w).2.closed = w.closed

theorem Plain.throughout {f : World → Outcome × World} (hf : Plain pools f) (any : Pool → Prop) :
    Throughout (Heedless pools) any (.attempt f) := by
  refine .act ⟨fun w v hlike => ?_, fun w p _ _ => ?_⟩ fun _ => .done
  · obtain ⟨houtcome, hworld⟩ := hf.alike hlike
    exact ⟨congrArg Activity.done houtcome, hworld⟩
  · rw [World.isClosed, World.isClosed, hf.keeps w]

theorem Like.put (h : Like pools w v) (key : String) (value : Json) :
    Like pools (w.put key value) (v.put key value) :=
  ⟨by simp [World.put, h.context], h.now, h.entries, h.closed⟩

theorem Like.record (h : Like pools w v) (kind label text : String) :
    Like pools (w.record kind label text) (v.record kind label text) :=
  ⟨h.context, h.now, by simp [World.record, h.now, h.entries], h.closed⟩

/-- Events make no difference. -/
theorem Like.notes (h : Like pools w v) (level : Level) (text : String) :
    Like pools (w.note level text) (v.note level text) :=
  ((Like.note w level text).symm.trans h).trans (.note v level text)

namespace Builtin

theorem warned_plain (warning error : String) : Plain pools fun w => warned w warning error :=
  ⟨fun hlike => ⟨rfl, hlike.notes _ _⟩, fun _ => rfl⟩

@[simp] theorem refused_context (w : World) (warning : String) (error : ExpressionError) :
    (refused w warning error).2.context = w.context := by
  unfold refused
  cases error.crash? <;> rfl

@[simp] theorem refused_closed (w : World) (warning : String) (error : ExpressionError) :
    (refused w warning error).2.closed = w.closed := by
  unfold refused
  cases error.crash? <;> rfl

theorem refused_plain (warning : String) (error : ExpressionError) :
    Plain pools fun w => refused w warning error := by
  unfold refused
  cases error.crash? with
  | none => exact warned_plain _ _
  | some text => exact ⟨fun hlike => ⟨rfl, hlike⟩, fun _ => rfl⟩

theorem logMessage_plain (b : Brief) : Plain pools (logMessage e b) where
  alike {w v} hlike := by
    unfold logMessage
    rw [hlike.context]
    split
    · exact (warned_plain _ _).alike hlike
    · split
      · exact (refused_plain _ _).alike hlike
      · exact ⟨rfl, (hlike.notes _ _).record _ _ _⟩
  keeps w := by
    unfold logMessage
    split
    · rfl
    · split
      · exact refused_closed _ _ _
      · rfl

theorem assign_plain (b : Brief) : Plain pools (assign e b) where
  alike {w v} hlike := by
    unfold assign
    rw [hlike.context]
    split
    · exact ⟨rfl, hlike⟩
    · split
      · exact (warned_plain _ _).alike hlike
      · exact ⟨rfl, (hlike.notes _ _).put _ _⟩
      · split
        · exact (refused_plain _ _).alike hlike
        · exact ⟨rfl, (hlike.notes _ _).put _ _⟩
  keeps w := by
    unfold assign
    split
    · rfl
    · split
      · rfl
      · rfl
      · split
        · exact refused_closed _ _ _
        · rfl

theorem test_plain (b : Brief) : Plain pools (test e b) where
  alike {w v} hlike := by
    unfold test
    rw [hlike.context]
    split
    · exact (warned_plain _ _).alike hlike
    · split
      · exact ⟨rfl, hlike.notes _ _⟩
      · exact (refused_plain _ _).alike hlike
  keeps w := by
    unfold test
    split
    · rfl
    · split
      · rfl
      · exact refused_closed _ _ _

theorem calculate_plain (b : Brief) : Plain pools (calculate e b) where
  alike {w v} hlike := by
    unfold calculate
    rw [hlike.context]
    split
    · exact ⟨rfl, hlike⟩
    · split
      · exact (refused_plain _ _).alike hlike
      · split
        · exact ⟨rfl, (hlike.notes _ _).put _ _⟩
        · exact ⟨rfl, hlike.notes _ _⟩
  keeps w := by
    unfold calculate
    split
    · rfl
    · split
      · exact refused_closed _ _ _
      · split <;> rfl

/-- The tasks that are there from the beginning do at once what they do. -/
theorem exists_plain {x : Executable} (hx : x ∈ all) (brief : Brief) :
    ∃ f, x.behave e brief = .attempt f ∧ Plain pools f := by
  simp only [all, List.mem_cons, List.not_mem_nil, or_false] at hx
  rcases hx with rfl | rfl | rfl | rfl | rfl
  · exact ⟨_, rfl, logMessage_plain brief⟩
  · exact ⟨_, rfl, assign_plain brief⟩
  · exact ⟨_, rfl, test_plain brief⟩
  · exact ⟨_, rfl, calculate_plain brief⟩
  · exact ⟨fun w => (.ok .completed, w), rfl, fun hlike => ⟨rfl, hlike⟩, fun _ => rfl⟩

end Builtin

namespace Registry

/-- What is resolved was there, or was registered. -/
theorem resolve?_registerAll {r : Registry} {xs : List Executable} {id : String} {x : Executable}
    (hx : (r.registerAll xs).resolve? id = some x) : r.resolve? id = some x ∨ x ∈ xs := by
  induction xs generalizing r with
  | nil => exact Or.inl hx
  | cons first rest ih =>
      rcases ih hx with hold | hmem
      · rw [resolve?_register] at hold
        by_cases hid : first.name = id
        · rw [if_pos hid] at hold
          cases hfirst : r.resolve? first.name with
          | none =>
              obtain rfl : first = x := by simpa [hfirst] using hold
              exact Or.inr (List.mem_cons_self ..)
          | some y =>
              obtain rfl : y = x := by simpa [hfirst] using hold
              exact Or.inl (hid ▸ hfirst)
        · rw [if_neg hid] at hold
          exact Or.inl hold
      · exact Or.inr (List.mem_cons_of_mem _ hmem)

/-- A registry has no kinds of tasks but those that were registered. -/
theorem mem_of_resolve? {xs : List Executable} {id : String} {x : Executable}
    (hx : (({} : Registry).registerAll xs).resolve? id = some x) : x ∈ xs := by
  rcases resolve?_registerAll hx with hnone | hmem
  · cases hnone
  · exact hmem

theorem mem_all_of_standard {id : String} {x : Executable} (hx : standard.resolve? id = some x) :
    x ∈ Builtin.all :=
  mem_of_resolve? hx

end Registry

end Runsheet
