import Runsheet.Yaml.Value

/-!
# Trees in blocks

A tree of scalars, lists and maps without anchors and tags can be written in blocks: the marks of a list and of a
map begin a block and end one, and an item, a key or a value that is left out has no marks at all.  Whoever reads
such marks finds the tree again, and what stands behind them is left.

* `Compose.Spells` — the marks of a tree;
* `Compose.Spells.run` — a tree is read from its marks, by induction on how they spell it;
* `Stream.read_spelled` — a stream of one document;
* `Value.ofNode_scalar`, `Value.ofNode_map` — what a scalar and a map say.
-/

namespace Runsheet.Yaml

namespace Compose

/-! ### Marks -/

mutual

/-- **The marks of a tree in blocks.** -/
inductive Spells : Node → List Token → Prop
  | scalar (plain : Bool) (text : String) : Spells (.scalar {} plain text) [.scalar text plain]
  | list {items : List Node} {ts : List Token} (h : SpellsItems items ts) :
      Spells (.list {} items) (.openBlockList :: ts)
  | map {entries : List (Node × Node)} {ts : List Token} (h : SpellsEntries entries ts) :
      Spells (.map {} entries) (.openBlockMap :: ts)

/-- The marks of an item, a key or a value, which can be left out. -/
inductive SpellsPart : Node → List Token → Prop
  | empty : SpellsPart empty []
  | node {n : Node} {ts : List Token} (h : Spells n ts) : SpellsPart n ts

/-- The marks of the items of a list and of its end. -/
inductive SpellsItems : List Node → List Token → Prop
  | nil : SpellsItems [] [.closeBlock]
  | cons {n : Node} {rest : List Node} {ts more : List Token} (h : SpellsPart n ts)
      (hrest : SpellsItems rest more) : SpellsItems (n :: rest) (.item :: (ts ++ more))

/-- The marks of the entries of a map and of its end. -/
inductive SpellsEntries : List (Node × Node) → List Token → Prop
  | nil : SpellsEntries [] [.closeBlock]
  | cons {key value : Node} {rest : List (Node × Node)} {ts us more : List Token} (hkey : SpellsPart key ts)
      (hvalue : SpellsPart value us) (hrest : SpellsEntries rest more) :
      SpellsEntries ((key, value) :: rest) (.key :: (ts ++ .value :: (us ++ more)))

end

/-- Does a tree begin with a mark? -/
def beginsTree : Token → Bool
  | .scalar .. | .openBlockList | .openBlockMap => true
  | _ => false

section

variable {n value : Node} {items : List Node} {entries : List (Node × Node)} {ts us more rest : List Token}
variable {anchors : Table Nat} {handles : Table String} {t : Token}

theorem SpellsPart.plain (text : String) : SpellsPart (.scalar {} true text) [.scalar text true] :=
  .node (.scalar true text)

theorem SpellsEntries.field {key : String} (hvalue : SpellsPart value us) (hrest : SpellsEntries entries more) :
    SpellsEntries ((.scalar {} true key, value) :: entries)
      (.key :: .scalar key true :: .value :: (us ++ more)) :=
  .cons (.plain key) hvalue hrest

theorem Spells.exists_cons (h : Spells n ts) : ∃ t more, ts = t :: more ∧ beginsTree t = true := by
  cases h with
  | scalar plain text => exact ⟨_, _, rfl, rfl⟩
  | list h => exact ⟨_, _, rfl, rfl⟩
  | map h => exact ⟨_, _, rfl, rfl⟩

theorem SpellsItems.exists_cons (h : SpellsItems items ts) :
    ∃ t more, ts = t :: more ∧ (t = .item ∨ t = .closeBlock) := by
  cases h with
  | nil => exact ⟨_, _, rfl, .inr rfl⟩
  | cons h hrest => exact ⟨_, _, rfl, .inl rfl⟩

theorem SpellsEntries.exists_cons (h : SpellsEntries entries ts) :
    ∃ t more, ts = t :: more ∧ endsBlockValue t = true := by
  cases h with
  | nil => exact ⟨_, _, rfl, rfl⟩
  | cons hkey hvalue hrest => exact ⟨_, _, rfl, rfl⟩

/-! ### Steps of reading -/

theorem run_bind_of_some {α β : Type} {x : Compose α} {k : α → Compose β} {s s' : Composing} {a : α}
    (h : x.run s = some (a, s')) : (x >>= k).run s = (k a).run s' := by
  rw [StateT.run_bind, h]
  rfl

theorem node_scalar (fuel : Nat) (inner plain : Bool) (text : String) :
    (node (fuel + 1) true inner).run ⟨.scalar text plain :: rest, anchors, handles⟩ =
      some (.scalar {} plain text, ⟨rest, anchors, handles⟩) :=
  rfl

theorem node_list (fuel : Nat) (inner : Bool) :
    (node (fuel + 1) true inner).run ⟨.openBlockList :: rest, anchors, handles⟩ =
      (Node.list {} <$> blockItems fuel).run ⟨rest, anchors, handles⟩ :=
  rfl

theorem node_map (fuel : Nat) (inner : Bool) :
    (node (fuel + 1) true inner).run ⟨.openBlockMap :: rest, anchors, handles⟩ =
      (Node.map {} <$> blockEntries fuel).run ⟨rest, anchors, handles⟩ :=
  rfl

theorem blockPart_node (fuel : Nat) (ht : beginsTree t = true) :
    (blockPart (fuel + 1)).run ⟨t :: rest, anchors, handles⟩ =
      (node fuel true true).run ⟨t :: rest, anchors, handles⟩ := by
  cases t <;> first | rfl | cases ht

theorem blockPart_empty (fuel : Nat) (ht : endsBlockValue t = true) :
    (blockPart (fuel + 1)).run ⟨t :: rest, anchors, handles⟩ =
      some (empty, ⟨t :: rest, anchors, handles⟩) := by
  cases t <;> first | rfl | cases ht

theorem blockItems_close (fuel : Nat) :
    (blockItems (fuel + 1)).run ⟨.closeBlock :: rest, anchors, handles⟩ =
      some ([], ⟨rest, anchors, handles⟩) :=
  rfl

theorem blockItems_node (fuel : Nat) (ht : beginsTree t = true) :
    (blockItems (fuel + 1)).run ⟨.item :: t :: rest, anchors, handles⟩ =
      (do
        let first ← node fuel true false
        let rest ← blockItems fuel
        pure (first :: rest) : Compose (List Node)).run ⟨t :: rest, anchors, handles⟩ := by
  cases t <;> first | rfl | cases ht

theorem blockItems_empty (fuel : Nat) (ht : t = .item ∨ t = .closeBlock) :
    (blockItems (fuel + 1)).run ⟨.item :: t :: rest, anchors, handles⟩ =
      (do
        let rest ← blockItems fuel
        pure (empty :: rest) : Compose (List Node)).run ⟨t :: rest, anchors, handles⟩ := by
  rcases ht with rfl | rfl <;> rfl

theorem accept_value :
    (accept .value).run ⟨.value :: rest, anchors, handles⟩ = some (true, ⟨rest, anchors, handles⟩) :=
  rfl

theorem blockEntries_close (fuel : Nat) :
    (blockEntries (fuel + 1)).run ⟨.closeBlock :: rest, anchors, handles⟩ =
      some ([], ⟨rest, anchors, handles⟩) :=
  rfl

theorem blockEntries_key (fuel : Nat) :
    (blockEntries (fuel + 1)).run ⟨.key :: rest, anchors, handles⟩ =
      (do
        let key ← blockPart fuel
        let value ← if ← accept .value then blockPart fuel else pure empty
        let rest ← blockEntries fuel
        pure ((key, value) :: rest) : Compose (List (Node × Node))).run ⟨rest, anchors, handles⟩ :=
  rfl

/-! ### Reading -/

mutual

/-- **A tree is read from its marks**, and what stands behind them is left. -/
theorem Spells.run {n : Node} {ts : List Token} : Spells n ts → ∀ (fuel : Nat) (inner : Bool)
    (rest : List Token), ts.length ≤ fuel →
      (node fuel true inner).run ⟨ts ++ rest, anchors, handles⟩ = some (n, ⟨rest, anchors, handles⟩)
  | .scalar plain text, fuel + 1, inner, rest, _ => node_scalar fuel inner plain text
  | .list h, fuel + 1, inner, rest, hfuel => by
    rw [List.cons_append, node_list, StateT.run_map, h.run fuel rest (Nat.le_of_succ_le_succ hfuel)]
    rfl
  | .map h, fuel + 1, inner, rest, hfuel => by
    rw [List.cons_append, node_map, StateT.run_map, h.run fuel rest (Nat.le_of_succ_le_succ hfuel)]
    rfl

/-- A key or a value is read, or found to be left out by the mark behind it. -/
theorem SpellsPart.run {n : Node} {ts : List Token} : SpellsPart n ts → ∀ (fuel : Nat) (t : Token)
    (rest : List Token), endsBlockValue t = true → ts.length < fuel →
      (blockPart fuel).run ⟨ts ++ t :: rest, anchors, handles⟩ = some (n, ⟨t :: rest, anchors, handles⟩)
  | .empty, fuel + 1, t, rest, ht, _ => blockPart_empty fuel ht
  | .node h, fuel + 1, t, rest, ht, hfuel => by
    obtain ⟨first, more, rfl, hfirst⟩ := h.exists_cons
    rw [List.cons_append, blockPart_node fuel hfirst]
    exact h.run fuel true (t :: rest) (Nat.le_of_lt_succ hfuel)

/-- The items of a list are read one after the other. -/
theorem SpellsItems.run {items : List Node} {ts : List Token} : SpellsItems items ts → ∀ (fuel : Nat)
    (rest : List Token), ts.length ≤ fuel →
      (blockItems fuel).run ⟨ts ++ rest, anchors, handles⟩ = some (items, ⟨rest, anchors, handles⟩)
  | .nil, fuel + 1, rest, _ => blockItems_close fuel
  | .cons .empty hrest, fuel + 1, rest, hfuel => by
    have hmore := hrest.run fuel rest (Nat.le_of_succ_le_succ hfuel)
    obtain ⟨t, others, rfl, ht⟩ := hrest.exists_cons
    rw [List.cons_append] at hmore
    rw [List.nil_append, List.cons_append, List.cons_append, blockItems_empty fuel ht, run_bind_of_some hmore]
    rfl
  | .cons (.node h) hrest, fuel + 1, rest, hfuel => by
    rw [List.length_cons, List.length_append] at hfuel
    have hmore := hrest.run fuel rest (by omega)
    have hnode := fun rest => h.run fuel false rest (by omega)
    obtain ⟨t, others, rfl, ht⟩ := h.exists_cons
    rw [List.cons_append, List.append_assoc, List.cons_append, blockItems_node fuel ht, ← List.cons_append,
      run_bind_of_some (hnode _), run_bind_of_some hmore]
    rfl

/-- The entries of a map are read one after the other.  The mark behind a value is that of the next key or of the
end of the map. -/
theorem SpellsEntries.run {entries : List (Node × Node)} {ts : List Token} : SpellsEntries entries ts →
    ∀ (fuel : Nat) (rest : List Token), ts.length ≤ fuel →
      (blockEntries fuel).run ⟨ts ++ rest, anchors, handles⟩ = some (entries, ⟨rest, anchors, handles⟩)
  | .nil, fuel + 1, rest, _ => blockEntries_close fuel
  | .cons hkey hvalue hrest, fuel + 1, rest, hfuel => by
    simp only [List.length_cons, List.length_append] at hfuel
    have hmore := hrest.run fuel rest (by omega)
    obtain ⟨t, others, rfl, ht⟩ := hrest.exists_cons
    have hpart := fun rest => hvalue.run fuel t rest ht (by omega)
    rw [List.cons_append] at hmore
    simp only [List.cons_append, List.append_assoc]
    rw [blockEntries_key, run_bind_of_some (hkey.run fuel .value _ rfl (by omega)),
      run_bind_of_some accept_value, if_pos rfl, run_bind_of_some (hpart _), run_bind_of_some hmore]
    rfl

end

/-! ### Documents -/

theorem document?_node (ht : beginsTree t = true) :
    (document? true).run ⟨t :: rest, anchors, handles⟩ =
      (do
        let root ← node (4 * ((t :: rest).length + 2)) true false
        let _ ← accept .documentEnd
        pure (some root) : Compose (Option Node)).run ⟨t :: rest, [], commonHandles⟩ := by
  cases t <;> first | rfl | cases ht

/-- The first document of a stream is the tree that its marks spell. -/
theorem Spells.run_document? (h : Spells n ts) :
    (document? true).run ⟨ts ++ [.streamEnd], anchors, handles⟩ =
      some (some n, ⟨[.streamEnd], [], commonHandles⟩) := by
  have hnode (fuel : Nat) (hfuel : ts.length ≤ fuel) :
      (node fuel true false).run ⟨ts ++ [.streamEnd], [], commonHandles⟩ =
        some (n, ⟨[.streamEnd], [], commonHandles⟩) :=
    h.run fuel false [.streamEnd] hfuel
  obtain ⟨t, more, rfl, ht⟩ := h.exists_cons
  rw [List.cons_append, document?_node ht, ← List.cons_append,
    run_bind_of_some (hnode _ (by rw [List.length_append]; omega))]
  rfl

end

end Compose

/-- **A stream of the marks of one tree** is one document. -/
theorem Stream.read_spelled {n : Node} {ts : List Token} (h : Compose.Spells n ts) (fuel : Nat) :
    Stream.read (fuel + 2) true { tokens := ts ++ [.streamEnd] } = ⟨[some n], true⟩ := by
  have hfirst : Compose.document? true { tokens := ts ++ [.streamEnd] } = _ := h.run_document?
  rw [Stream.read, hfirst]
  rfl

/-! ### Values -/

namespace Value

theorem lift_bind_some {α : Type} (a? : Option α) :
    (StateT.lift a? >>= fun a => StateT.lift (some a) : StateT Nat Option α) = StateT.lift a? := by
  cases a? <;> rfl

section

variable (anchors : List (Nat × Node)) (limit depth : Nat)

/-- A scalar without a tag says the same wherever it stands. -/
theorem ofNode_scalar (isPlain : Bool) (text : String) :
    ofNode anchors limit depth (.scalar {} isPlain text) = StateT.lift (ofScalar none isPlain text) := by
  have htarget (inner? : Option (Node → Resolving Value)) :
      ofTarget anchors limit inner? (.scalar {} isPlain text) =
        (StateT.lift (ofScalar none isPlain text) >>= fun v => StateT.lift (some v)) := by
    cases inner? <;> rfl
  cases depth <;> rw [ofNode, htarget, lift_bind_some]

/-- A map without a tag has the values of its keys and of what stands under them. -/
theorem ofNode_map (entries : List (Node × Node)) :
    ofNode anchors limit (depth + 1) (.map {} entries) =
      (entries.mapM fun e => do
        let k ← ofNode anchors limit depth e.1
        let v ← ofNode anchors limit depth e.2
        pure (k, v)) >>= fun entries => StateT.lift (ofEntries? entries) := by
  have htarget : ofNode anchors limit (depth + 1) (.map {} entries) =
      ((entries.mapM fun e => do
        let k ← ofNode anchors limit depth e.1
        let v ← ofNode anchors limit depth e.2
        pure (k, v)) >>= fun entries => StateT.lift (ofEntries? entries)) >>=
          fun v => StateT.lift (some v) := rfl
  rw [htarget, bind_assoc]
  exact bind_congr fun entries => lift_bind_some _

end

end Value

end Runsheet.Yaml
