import Runsheet.Proofs.Throughout

/-!
# The region of a unit

What a unit can tell of the world: the clock, the values under its keys, and whether the pools at and
below its place are closed.  Two worlds with the same region are the `Same` to it.  If a unit looks at
nothing else and others leave its region alone, it does beside them what it does alone.

* `Local` — a change that looks at the region, makes entries, and stores values under the keys;
* `Away` — a change that leaves the region as it is;
* `Run.solo` — the history of a unit, and the same history without the turns of others.
-/

namespace Runsheet

/-- The worlds have the same region: the same time, the same values under the keys, and the same
closed pools at and below the root. -/
structure Same (keys : String → Prop) (root : Pool) (w v : World) : Prop where
  now : v.now = w.now
  values {key : String} : keys key → v.context.get? key = w.context.get? key
  closed {p : Pool} : root <:+ p → v.isClosed p = w.isClosed p

/-- The second world comes after the first one: entries have been added, and values have changed under
the keys alone. -/
structure Adds (keys : String → Prop) (added : List Entry) (w v : World) : Prop where
  entries : v.entries = added ++ w.entries
  others {key : String} : ¬ keys key → v.context.get? key = w.context.get? key

/-- The second world has the region of the first one and all its entries. -/
structure Leaves (keys : String → Prop) (root : Pool) (w v : World) : Prop where
  same : Same keys root w v
  entries : w.entries <:+ v.entries

variable {keys : String → Prop} {root : Pool} {w v u w' v' : World}

theorem Same.refl (w : World) : Same keys root w w :=
  ⟨rfl, fun _ => rfl, fun _ => rfl⟩

theorem Same.symm (h : Same keys root w v) : Same keys root v w :=
  ⟨h.now.symm, fun hkey => (h.values hkey).symm, fun hp => (h.closed hp).symm⟩

theorem Same.trans (hl : Same keys root w v) (hr : Same keys root v u) : Same keys root w u :=
  ⟨hr.now.trans hl.now, fun hkey => (hr.values hkey).trans (hl.values hkey),
    fun hp => (hr.closed hp).trans (hl.closed hp)⟩

theorem Same.wait (h : Same keys root w v) (ms : Nat) : Same keys root (w.wait ms) (v.wait ms) :=
  ⟨by simp [World.wait, h.now], h.values, h.closed⟩

theorem Adds.refl (w : World) : Adds keys [] w w :=
  ⟨rfl, fun _ => rfl⟩

theorem Leaves.refl (w : World) : Leaves keys root w w :=
  ⟨.refl w, List.suffix_refl _⟩

/-- A change of the log alone leaves every region as it is. -/
theorem Leaves.of_log (hlog : { v with events := w.events } = w) : Leaves keys root w v := by
  have hleaves : Leaves keys root { v with events := w.events } v :=
    ⟨⟨rfl, fun _ => rfl, fun _ => rfl⟩, List.suffix_refl _⟩
  rwa [hlog] at hleaves

namespace Activity

/-- A change that looks at the region of a unit alone: it makes the same entries and stores the same
values in worlds that are the same to the unit, and so does what follows. -/
def Local (keys : String → Prop) (root : Pool) (f : World → World) (next : World → Activity) :
    Prop :=
  ∀ w v, Same keys root w v → next v = next w ∧ Same keys root (f w) (f v) ∧
    ∃ added, Adds keys added w (f w) ∧ Adds keys added v (f v)

/-- A change that leaves the region of a unit as it is. -/
def Away (keys : String → Prop) (root : Pool) (f : World → World) (_ : World → Activity) : Prop :=
  ∀ w, Leaves keys root w (f w)

variable {ordered : Prop} {way : Way} {a b c : Activity} {h g : List Turn}

/-! ### What flows do by themselves -/

theorem fits_local (keys : String → Prop) (root : Pool) :
    Fits (Local keys root) (fun p => root <:+ p) where
  bind k hf w v hsame := by
    obtain ⟨hnext, hrest⟩ := hf w v hsame
    exact ⟨congrArg (Activity.bind k) hnext, hrest⟩
  note level text a w v hsame :=
    ⟨rfl, ⟨hsame.now, hsame.values, hsame.closed⟩, [], ⟨rfl, fun _ => rfl⟩, ⟨rfl, fun _ => rfl⟩⟩
  pause a w v hsame := ⟨rfl, hsame, [], .refl w, .refl v⟩
  enter a b hp w v hsame := ⟨by simp only [hsame.closed hp], hsame, [], .refl w, .refl v⟩
  leave text a hp w v hsame := by
    refine ⟨rfl, ⟨hsame.now, hsame.values, fun {r} hr => ?_⟩, [], ⟨rfl, fun _ => rfl⟩,
      ⟨rfl, fun _ => rfl⟩⟩
    have hclosed := hsame.closed hr
    simp only [World.isClosed, World.close, World.note, List.contains_cons] at hclosed ⊢
    rw [hclosed]

theorem fits_away (keys : String → Prop) (root : Pool) :
    Fits (Away keys root) (fun p => ¬ root <:+ p) where
  bind _ hf := hf
  note level text a w := ⟨⟨rfl, fun _ => rfl, fun _ => rfl⟩, List.suffix_refl _⟩
  pause a w := .refl w
  enter a b _ w := .refl w
  leave {p} text a hp w := by
    refine ⟨⟨rfl, fun _ => rfl, fun {r} hr => ?_⟩, List.suffix_refl _⟩
    have hne : r ≠ p := by
      rintro rfl
      exact hp hr
    simp [World.isClosed, World.close, World.note, hne]

theorem guarded_away {e : Evaluator} (s : Settings) : Guarded (Away keys root) e s :=
  fun _ w => .refl w

/-- A guard that looks at the keys of a unit alone is a local change. -/
theorem guarded_local {e : Evaluator} {s : Settings}
    (hs : ∀ c d : Context, (∀ key, keys key → d.get? key = c.get? key) →
      s.holds e d = s.holds e c) : Guarded (Local keys root) e s :=
  fun next w v hsame =>
    ⟨by simp only [hs w.context v.context fun _ => hsame.values], hsame, [], .refl w, .refl v⟩

theorem tested_away (p : Predicate) : Tested (Away keys root) p :=
  fun _ _ w => .refl w

/-- A test that looks at the region of a unit alone is a local change. -/
theorem tested_local {p : Predicate}
    (hp : ∀ w v r, Same keys root w v → p.passes v r = p.passes w r) :
    Tested (Local keys root) p :=
  fun r next w v hsame => ⟨congrArg next (hp w v r hsame), hsame, [], .refl w, .refl v⟩

/-! ### Alone and beside others -/

/-- **A move of a unit** is the same move in a world that is the same to it. -/
theorem Move.local (hmove : Move ordered way a w b v)
    (ha : Throughout (Local keys root) (fun p => root <:+ p) a)
    (hsame : Same keys root w w') :
    ∃ v', Move ordered way a w' b v' ∧ Same keys root v v' ∧
      ∃ added, Adds keys added w v ∧ Adds keys added w' v' := by
  have hstays {w w' : World} (hsame : Same keys root w w') :
      Same keys root w w' ∧ ∃ added, Adds keys added w w ∧ Adds keys added w' w' :=
    ⟨hsame, [], .refl w, .refl w'⟩
  induction hmove with
  | @act f next w =>
      cases ha with
      | act hact _ =>
          obtain ⟨hnext, hrest⟩ := hact w w' hsame
          exact ⟨f w', hnext ▸ .act, hrest⟩
  | @wake next w =>
      cases ha with
      | sleep hwake _ =>
          obtain ⟨hnext, _⟩ := hwake w w' hsame
          exact ⟨w', hnext ▸ .wake, hstays hsame⟩
  | inside hturn _ ih =>
      cases ha with
      | within hbody _ =>
          obtain ⟨v', hmove', hrest⟩ := ih hbody hsame
          exact ⟨v', .inside hturn hmove', hrest⟩
  | inTime => exact ⟨w', .inTime, hstays hsame⟩
  | late hrest => exact ⟨w', .late hrest, hstays hsame⟩
  | deal hturn hslot hdeal =>
      cases ha with
      | fork hpool _ _ =>
          rw [← hsame.closed hpool] at hdeal
          exact ⟨w', .deal hturn hslot hdeal, hstays hsame⟩
  | branch hturn hslot _ ih =>
      cases ha with
      | fork _ hslots _ =>
          obtain ⟨v', hmove', hrest⟩ := ih (hslots _ (List.mem_of_getElem? hslot) _ rfl) hsame
          exact ⟨v', .branch hturn hslot hmove', hrest⟩
  | finish hturn hslot => exact ⟨w', .finish hturn hslot, hstays hsame⟩
  | read hturn harrivals hverdict => exact ⟨w', .read hturn harrivals hverdict, hstays hsame⟩
  | abort hturn harrivals hverdict => exact ⟨w', .abort hturn harrivals hverdict, hstays hsame⟩
  | leave harrivals hended => exact ⟨w', .leave harrivals hended, hstays hsame⟩

/-- **The same effects at the same times**: the histories have the same turns of their own, with worlds
that are the same to the unit, the same entries and the same values, and the same milliseconds
between them; the first one also has turns of others. -/
inductive SameEffects (keys : String → Prop) (root : Pool) : List Turn → List Turn → Prop
  | nil : SameEffects keys root [] []
  | own {way : Way} {w v w' v' : World} {added : List Entry} {h g : List Turn}
      (hbefore : Same keys root w w') (hafter : Same keys root v v')
      (hadds : Adds keys added w v) (hadds' : Adds keys added w' v')
      (hrest : SameEffects keys root h g) :
      SameEffects keys root (.own way w v :: h) (.own way w' v' :: g)
  | other {w v : World} {h g : List Turn} (hrest : SameEffects keys root h g) :
      SameEffects keys root (.other w v :: h) g
  | tick {h g : List Turn} (hrest : SameEffects keys root h g) :
      SameEffects keys root (.tick :: h) (.tick :: g)

theorem SameEffects.ticks (heffects : SameEffects keys root h g) : ticks h = ticks g := by
  induction heffects with
  | nil => rfl
  | own _ _ _ _ _ ih => simpa using ih
  | other _ ih => simpa using ih
  | tick _ ih => simpa using ih

/-- **A unit beside others** does what it does alone, if they leave its region as it is. -/
theorem Run.solo (hrun : Run ordered a w h b v)
    (ha : Throughout (Local keys root) (fun p => root <:+ p) a)
    (hothers : ∀ x y, .other x y ∈ h → Same keys root x y) (hsame : Same keys root w w') :
    ∃ g v', Alone g ∧ Run ordered a w' g b v' ∧ SameEffects keys root h g ∧
      Same keys root v v' := by
  induction hrun generalizing w' with
  | stop => exact ⟨[], w', alone_nil, .stop, .nil, hsame⟩
  | own hmove _ ih =>
      obtain ⟨v', hmove', hsame', added, hadds, hadds'⟩ := hmove.local ha hsame
      obtain ⟨g, u', halone, hrun', heffects, hlast⟩ := ih (ha.move hmove)
        (fun x y hmem => hothers x y (List.mem_cons_of_mem _ hmem)) hsame'
      exact ⟨_, u', alone_cons.mpr ⟨by simp, halone⟩, .own hmove' hrun',
        .own hsame hsame' hadds hadds' heffects, hlast⟩
  | other _ ih =>
      have hturn := hothers _ _ (List.mem_cons_self ..)
      obtain ⟨g, u', halone, hrun', heffects, hlast⟩ := ih ha
        (fun x y hmem => hothers x y (List.mem_cons_of_mem _ hmem)) (hturn.symm.trans hsame)
      exact ⟨g, u', halone, hrun', .other heffects, hlast⟩
  | tick hsettled _ ih =>
      obtain ⟨g, u', halone, hrun', heffects, hlast⟩ := ih (ha.elapse 1)
        (fun x y hmem => hothers x y (List.mem_cons_of_mem _ hmem)) (hsame.wait 1)
      exact ⟨_, u', alone_cons.mpr ⟨by simp, halone⟩, .tick hsettled hrun', .tick heffects, hlast⟩

end Activity

end Runsheet
