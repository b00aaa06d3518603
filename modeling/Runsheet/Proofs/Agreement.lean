import Runsheet.Evaluator
import Runsheet.Proofs.Entries

/-!
# Value and truth of a text

A guard asks whether a text holds, and a task asks for its value.  The two are found by computations of their
own: truth is asked of the value of the expression itself, and the value is given as data.  They agree wherever
there is data, and where there is none the value has a part that data has no place for.

* `Expression.Value.truthy_of_toJson` — data counts as true if and only if the value does;
* `Expression.Value.IsPart`, `Expression.Value.Misfits` — the parts of a value, and those without data;
* `Expression.Value.exists_misfit`, `Expression.Value.IsPart.fits` — which values have data;
* `value_and_truth_agree` — the result;
* `map_holds_without_data` — not only integers have no data;
* `empty_split_holds` — a sequence without a known length holds, also where it turns out to be empty;
* `truth_without_equal_data` — the two together.
-/

namespace Runsheet

open Runsheet.Expression

namespace Table

variable {α : Type}

theorem insert_ne_nil (key : String) (value : α) (t : Table α) : insert key value t ≠ [] := by
  intro hnil
  have hkey : key ∈ keys (insert key value t) := mem_keys_insert.mpr (.inl rfl)
  rw [hnil] at hkey
  cases hkey

theorem override_ne_nil {base : Table α} (h : base ≠ []) (top : Table α) : override base top ≠ [] := by
  induction top generalizing base with
  | nil => exact h
  | cons entry rest ih => exact ih (insert_ne_nil entry.1 entry.2 base)

/-- A table of entries is empty only if there are none. -/
theorem isEmpty_ofList (entries : List (String × α)) : (ofList entries).isEmpty = entries.isEmpty := by
  cases entries with
  | nil => rfl
  | cons entry rest =>
      have hsome : ofList (entry :: rest) ≠ [] := override_ne_nil (insert_ne_nil entry.1 entry.2 []) rest
      exact List.isEmpty_eq_false_iff.mpr hsome

end Table

namespace Expression.Value

/-! ### Truth -/

theorem isEmpty_of_toJsonItems {items : List Value} {js : List Json} (h : toJsonItems items = .ok js) :
    js.isEmpty = items.isEmpty := by
  cases items with
  | nil =>
      cases h
      rfl
  | cons item rest =>
      obtain ⟨first, -, hrest⟩ := bind_eq_ok.mp h
      obtain ⟨others, -, hjs⟩ := bind_eq_ok.mp hrest
      cases hjs
      rfl

theorem isEmpty_of_toJsonFields {entries : List (Value × Value)} {fields : List (String × Json)}
    (h : toJsonFields entries = .ok fields) : fields.isEmpty = entries.isEmpty := by
  cases entries with
  | nil =>
      cases h
      rfl
  | cons entry rest =>
      obtain ⟨name, -, hrest⟩ := bind_eq_ok.mp h
      obtain ⟨first, -, hrest⟩ := bind_eq_ok.mp hrest
      obtain ⟨others, -, hfields⟩ := bind_eq_ok.mp hrest
      cases hfields
      rfl

/-- **Data counts as true if and only if the value does.**  Infinities and what is not a number have no number
among data: they count as true and become null.  A sequence without a known length counts as true, and as data
it may turn out to be empty. -/
theorem truthy_of_toJson {v : Value} {j : Json} (h : v.toJson = .ok j)
    (hfinite : ∀ x, v = .float x → x.isFinite = true)
    (hsized : ∀ label items, v ≠ .iterable (some label) items) : j.truthy = v.truthy := by
  cases v with
  | undefined quiet =>
      cases h
      rfl
  | none =>
      cases h
      rfl
  | bool b =>
      cases h
      rfl
  | int n =>
      rw [toJson] at h
      split at h
      · cases h
        rfl
      · cases h
  | float x =>
      have hnumber : Json.ofBinary64 x = .number (.float x) := if_pos (hfinite x rfl)
      rw [toJson, hnumber] at h
      cases h
      rfl
  | string s =>
      cases h
      rfl
  | list items =>
      obtain ⟨js, hjs, hj⟩ := bind_eq_ok.mp h
      cases hj
      simp only [Json.truthy, truthy, isEmpty_of_toJsonItems hjs]
  | map entries =>
      obtain ⟨fields, hfields, hj⟩ := bind_eq_ok.mp h
      cases hj
      simp only [Json.truthy, truthy, Table.isEmpty_ofList, isEmpty_of_toJsonFields hfields]
  | iterable unsized items =>
      cases unsized with
      | some label => exact absurd rfl (hsized label items)
      | none =>
          obtain ⟨js, hjs, hj⟩ := bind_eq_ok.mp h
          cases hj
          simp only [Json.truthy, truthy, isEmpty_of_toJsonItems hjs]
  | callable name label =>
      cases h
      exact bne_iff_ne.mpr label.2

/-! ### Values without data -/

/-- **A value is a part of another**: it is the other one itself, or a part of an item of a sequence or of what
stands under a key of a map. -/
inductive IsPart (part : Value) : Value → Prop
  | self : IsPart part part
  | item {items : List Value} {item : Value} (hitem : item ∈ items) (h : IsPart part item) :
      IsPart part (.list items)
  | made {unsized : Option Label} {items : List Value} {item : Value} (hitem : item ∈ items)
      (h : IsPart part item) : IsPart part (.iterable unsized items)
  | entry {entries : List (Value × Value)} {key value : Value} (hentry : (key, value) ∈ entries)
      (h : IsPart part value) : IsPart part (.map entries)

/-- **Data has no place for a value**: for an integer out of range, and for a map with a key that is neither a
string, a boolean, a finite number nor a function. -/
inductive Misfits : Value → Json.Problem → Prop
  | integer {n : Int} (hn : n < -(Int.pow 2 63) ∨ Int.pow 2 64 ≤ n) : Misfits (.int n) .numberOutOfRange
  | undefinedKey {entries : List (Value × Value)} {quiet : Bool} {value : Value}
      (hentry : (.undefined quiet, value) ∈ entries) : Misfits (.map entries) .keyNotText
  | noneKey {entries : List (Value × Value)} {value : Value} (hentry : (.none, value) ∈ entries) :
      Misfits (.map entries) .keyNotText
  | listKey {entries : List (Value × Value)} {items : List Value} {value : Value}
      (hentry : (.list items, value) ∈ entries) : Misfits (.map entries) .keyNotText
  | mapKey {entries inner : List (Value × Value)} {value : Value}
      (hentry : (.map inner, value) ∈ entries) : Misfits (.map entries) .keyNotText
  | madeKey {entries : List (Value × Value)} {unsized : Option Label} {items : List Value} {value : Value}
      (hentry : (.iterable unsized items, value) ∈ entries) : Misfits (.map entries) .keyNotText
  | floatKey {entries : List (Value × Value)} {x : Binary64} {value : Value}
      (hentry : (.float x, value) ∈ entries) (hx : x.isFinite = false) :
      Misfits (.map entries) .keyNotFinite

theorem misfits_of_keyText {entries : List (Value × Value)} {key value : Value} {problem : Json.Problem}
    (hentry : (key, value) ∈ entries) (h : key.keyText = .error problem) :
    Misfits (.map entries) problem := by
  cases key with
  | undefined quiet =>
      cases h
      exact .undefinedKey hentry
  | none =>
      cases h
      exact .noneKey hentry
  | list items =>
      cases h
      exact .listKey hentry
  | map inner =>
      cases h
      exact .mapKey hentry
  | iterable unsized items =>
      cases h
      exact .madeKey hentry
  | float x =>
      rw [keyText] at h
      split at h
      next => cases h
      next hx =>
        cases h
        exact .floatKey hentry (Bool.eq_false_iff.mpr hx)
  | bool b => cases h
  | int n => cases h
  | string s => cases h
  | callable name label => cases h

theorem keyText_of_misfits {entries : List (Value × Value)} {problem : Json.Problem}
    (h : Misfits (.map entries) problem) : ∃ e ∈ entries, e.1.keyText = .error problem := by
  cases h with
  | undefinedKey hentry => exact ⟨_, hentry, rfl⟩
  | noneKey hentry => exact ⟨_, hentry, rfl⟩
  | listKey hentry => exact ⟨_, hentry, rfl⟩
  | mapKey hentry => exact ⟨_, hentry, rfl⟩
  | madeKey hentry => exact ⟨_, hentry, rfl⟩
  | floatKey hentry hx => exact ⟨_, hentry, by rw [keyText, hx]; rfl⟩

theorem toJson_of_mem_items {items : List Value} {js : List Json} (h : toJsonItems items = .ok js)
    {item : Value} (hitem : item ∈ items) : ∃ j, item.toJson = .ok j := by
  induction items generalizing js with
  | nil => cases hitem
  | cons first rest ih =>
      obtain ⟨j, hj, hrest⟩ := bind_eq_ok.mp h
      obtain ⟨others, hothers, -⟩ := bind_eq_ok.mp hrest
      rcases List.mem_cons.mp hitem with rfl | hmem
      · exact ⟨j, hj⟩
      · exact ih hothers hmem

theorem toJson_of_mem_entries {entries : List (Value × Value)} {fields : List (String × Json)}
    (h : toJsonFields entries = .ok fields) {e : Value × Value} (he : e ∈ entries) :
    (∃ name, e.1.keyText = .ok name) ∧ ∃ j, e.2.toJson = .ok j := by
  induction entries generalizing fields with
  | nil => cases he
  | cons first rest ih =>
      obtain ⟨name, hname, hrest⟩ := bind_eq_ok.mp h
      obtain ⟨j, hj, hrest⟩ := bind_eq_ok.mp hrest
      obtain ⟨others, hothers, -⟩ := bind_eq_ok.mp hrest
      rcases List.mem_cons.mp he with rfl | hmem
      · exact ⟨⟨name, hname⟩, j, hj⟩
      · exact ih hothers hmem

/-- All parts of a value with data have data. -/
theorem IsPart.toJson {part v : Value} (h : IsPart part v) {j : Json} (hj : v.toJson = .ok j) :
    ∃ j, part.toJson = .ok j := by
  induction h generalizing j with
  | self => exact ⟨j, hj⟩
  | item hitem _ ih | made hitem _ ih =>
      obtain ⟨js, hjs, -⟩ := bind_eq_ok.mp hj
      obtain ⟨inner, hinner⟩ := toJson_of_mem_items hjs hitem
      exact ih hinner
  | entry hentry _ ih =>
      obtain ⟨fields, hfields, -⟩ := bind_eq_ok.mp hj
      obtain ⟨-, inner, hinner⟩ := toJson_of_mem_entries hfields hentry
      exact ih hinner

/-- What data has no place for has no data. -/
theorem Misfits.toJson_ne_ok {v : Value} {problem : Json.Problem} (h : Misfits v problem) (j : Json) :
    v.toJson ≠ .ok j := by
  intro hj
  cases v with
  | int n =>
      cases h with
      | integer hn =>
          rw [Value.toJson] at hj
          split at hj
          next hrange =>
            obtain ⟨hlow, hhigh⟩ := Json.holdsInt_iff.mp hrange
            omega
          next => cases hj
  | map entries =>
      obtain ⟨e, he, hkey⟩ := keyText_of_misfits h
      obtain ⟨fields, hfields, -⟩ := bind_eq_ok.mp hj
      obtain ⟨⟨name, hname⟩, -⟩ := toJson_of_mem_entries hfields he
      rw [hkey] at hname
      cases hname
  | _ => cases h

mutual

/-- **What has no data has a part that data has no place for**, and the problem is that of the part. -/
theorem exists_misfit (v : Value) {problem : Json.Problem} (h : v.toJson = .error problem) :
    ∃ part, IsPart part v ∧ Misfits part problem := by
  match v with
  | .undefined _ => cases h
  | .none => cases h
  | .bool _ => cases h
  | .string _ => cases h
  | .float _ => cases h
  | .callable _ _ => cases h
  | .int n =>
      rw [toJson] at h
      split at h
      next => cases h
      next hrange =>
        cases h
        refine ⟨.int n, .self, .integer ?_⟩
        rw [Json.holdsInt_iff] at hrange
        omega
  | .list items =>
      rcases bind_eq_error.mp h with hitems | ⟨_, -, hpure⟩
      · obtain ⟨item, hitem, part, hpart, hmisfit⟩ := exists_misfit_item items hitems
        exact ⟨part, .item hitem hpart, hmisfit⟩
      · cases hpure
  | .iterable unsized items =>
      rcases bind_eq_error.mp h with hitems | ⟨_, -, hpure⟩
      · obtain ⟨item, hitem, part, hpart, hmisfit⟩ := exists_misfit_item items hitems
        exact ⟨part, .made hitem hpart, hmisfit⟩
      · cases hpure
  | .map entries =>
      rcases bind_eq_error.mp h with hentries | ⟨_, -, hpure⟩
      · rcases exists_misfit_entry entries hentries with ⟨e, he, hkey⟩ | ⟨e, he, part, hpart, hmisfit⟩
        · exact ⟨.map entries, .self, misfits_of_keyText he hkey⟩
        · exact ⟨part, .entry he hpart, hmisfit⟩
      · cases hpure

theorem exists_misfit_item (items : List Value) {problem : Json.Problem}
    (h : toJsonItems items = .error problem) :
    ∃ item ∈ items, ∃ part, IsPart part item ∧ Misfits part problem := by
  match items with
  | [] => cases h
  | item :: rest =>
      rcases bind_eq_error.mp h with hitem | ⟨_, -, hrest⟩
      · exact ⟨item, List.mem_cons_self, exists_misfit item hitem⟩
      · rcases bind_eq_error.mp hrest with hrest | ⟨_, -, hpure⟩
        · obtain ⟨other, hother, hpart⟩ := exists_misfit_item rest hrest
          exact ⟨other, List.mem_cons_of_mem item hother, hpart⟩
        · cases hpure

/-- Either a key has no text, or what stands under a key has no data. -/
theorem exists_misfit_entry (entries : List (Value × Value)) {problem : Json.Problem}
    (h : toJsonFields entries = .error problem) :
    (∃ e ∈ entries, e.1.keyText = .error problem) ∨
      ∃ e ∈ entries, ∃ part, IsPart part e.2 ∧ Misfits part problem := by
  match entries with
  | [] => cases h
  | (key, value) :: rest =>
      rcases bind_eq_error.mp h with hkey | ⟨_, -, hrest⟩
      · exact .inl ⟨(key, value), List.mem_cons_self, hkey⟩
      rcases bind_eq_error.mp hrest with hvalue | ⟨_, -, hrest⟩
      · exact .inr ⟨(key, value), List.mem_cons_self, exists_misfit value hvalue⟩
      rcases bind_eq_error.mp hrest with hrest | ⟨_, -, hpure⟩
      · rcases exists_misfit_entry rest hrest with ⟨e, he, hkey⟩ | ⟨e, he, hpart⟩
        · exact .inl ⟨e, List.mem_cons_of_mem _ he, hkey⟩
        · exact .inr ⟨e, List.mem_cons_of_mem _ he, hpart⟩
      · cases hpure

end

end Expression.Value

namespace Evaluator

/-- The expression that a text is, bare or in braces; a blank text and a template are none. -/
def Form.expression? : Form → Option String
  | .wrapped expression | .bare expression => some expression
  | .blank | .template => none

theorem dataOf_eq_ok {v : Value} {j : Json} : dataOf v = .ok j ↔ v.toJson = .ok j :=
  mapError_eq_ok

theorem dataOf_eq_error {v : Value} {error : ExpressionError} :
    dataOf v = .error error ↔ ∃ problem, v.toJson = .error problem ∧ error = .data problem := by
  unfold dataOf
  cases v.toJson <;> simp [Except.mapError, eq_comm]

variable {s : Setting} {vars : Vars} {text expression : String}

theorem evaluateIn_of_expression (hform : (formOf text).expression? = some expression) :
    evaluateIn s text vars = valueOf s expression vars >>= dataOf := by
  unfold evaluateIn
  cases hcase : formOf text <;> rw [hcase] at hform <;> cases hform <;> rfl

theorem validateIn_of_expression (hform : (formOf text).expression? = some expression) :
    validateIn s text vars = Value.truthy <$> valueOf s expression vars := by
  unfold validateIn
  cases hcase : formOf text <;> rw [hcase] at hform <;> cases hform <;> rfl

end Evaluator

open Evaluator

/-- **Value and truth of a text agree.**  Let a text be an expression, bare or in braces.  In every setting and
over all variables:

* the truth of the text ends with an error if and only if the evaluation of the expression does, and then the
  error is the same and is that of the value of the text;
* if there is a value, and the expression's value is no infinity and not what is no number, and no sequence
  without a known length, then the text holds if and only if its value counts as true: it is not null, not
  false, not a zero and not empty; over a sequence without a known length the text holds;
* if the truth of the text is found and its value is not, then the value of the expression has a part that data
  has no place for, which is an integer outside of 64 bits or a map with a key that is no string, no boolean, no
  finite number and no function, and the error says which; and where there is such a part no value is found. -/
theorem value_and_truth_agree {s : Setting} {vars : Vars} {text expression : String}
    (hform : (formOf text).expression? = some expression) :
    (∀ error, validateIn s text vars = .error error ↔ valueOf s expression vars = .error error) ∧
    (∀ error, valueOf s expression vars = .error error → evaluateIn s text vars = .error error) ∧
    (∀ v j, valueOf s expression vars = .ok v → (∀ x, v = .float x → x.isFinite = true) →
      (∀ label items, v ≠ .iterable (some label) items) →
      evaluateIn s text vars = .ok j → validateIn s text vars = .ok j.truthy) ∧
    (∀ label items, valueOf s expression vars = .ok (.iterable (some label) items) →
      validateIn s text vars = .ok true) ∧
    (∀ holds error, validateIn s text vars = .ok holds → evaluateIn s text vars = .error error →
      ∃ v part problem, valueOf s expression vars = .ok v ∧ Value.IsPart part v ∧
        Value.Misfits part problem ∧ error = .data problem) ∧
    ∀ v part problem, valueOf s expression vars = .ok v → Value.IsPart part v →
      Value.Misfits part problem → ∃ other, evaluateIn s text vars = .error (.data other) := by
  rw [evaluateIn_of_expression hform, validateIn_of_expression hform]
  cases hvalue : valueOf s expression vars with
  | error error =>
      have hvalidate : Value.truthy <$> (.error error : Except ExpressionError Value) = .error error := rfl
      have hevaluate : (.error error : Except ExpressionError Value) >>= dataOf = .error error := rfl
      rw [hvalidate, hevaluate]
      have hother (other : ExpressionError) (h : (.error error : Except ExpressionError Value) = .error other) :
          error = other := by
        cases h
        rfl
      refine ⟨fun other => ?_, fun other h => ?_, nofun, nofun, nofun, nofun⟩
      · simp only [Except.error.injEq]
      · rw [hother other h]
  | ok v =>
      have hvalidate : Value.truthy <$> (.ok v : Except ExpressionError Value) = .ok v.truthy := rfl
      have hevaluate : (.ok v : Except ExpressionError Value) >>= dataOf = dataOf v := rfl
      rw [hvalidate, hevaluate]
      refine ⟨fun _ => ⟨nofun, nofun⟩, nofun, ?_, ?_, ?_, ?_⟩
      · rintro _ j ⟨⟩ hfinite hsized hj
        rw [Value.truthy_of_toJson (dataOf_eq_ok.mp hj) hfinite hsized]
      · rintro label items ⟨⟩
        rfl
      · rintro holds error - herror
        obtain ⟨problem, hproblem, rfl⟩ := dataOf_eq_error.mp herror
        obtain ⟨part, hpart, hmisfit⟩ := v.exists_misfit hproblem
        exact ⟨v, part, problem, rfl, hpart, hmisfit, rfl⟩
      · rintro _ part problem ⟨⟩ hpart hmisfit
        cases hdata : v.toJson with
        | error other => exact ⟨other, dataOf_eq_error.mpr ⟨other, hdata, rfl⟩⟩
        | ok j =>
            obtain ⟨inner, hinner⟩ := hpart.toJson hdata
            exact absurd hinner (hmisfit.toJson_ne_ok inner)

/-- A list of a zero holds, in braces as well as bare, and so does what it is as data. -/
theorem value_and_truth_agree_zeroes :
    (formOf "\x7b\x7b [zero] \x7d\x7d").expression? = some "[zero]" ∧
    evaluateIn {} "\x7b\x7b [zero] \x7d\x7d" [("zero", .ofInt 0)] = .ok (.array [.ofInt 0]) ∧
    validateIn {} "\x7b\x7b [zero] \x7d\x7d" [("zero", .ofInt 0)] =
      .ok (Json.array [.ofInt 0]).truthy := by
  have hform : (formOf "\x7b\x7b [zero] \x7d\x7d").expression? = some "[zero]" := by
    with_unfolding_all rfl
  have hvalue : valueOf {} "[zero]" [("zero", .ofInt 0)] = .ok (.list [.int 0]) := by
    with_unfolding_all rfl
  have hdata : evaluateIn {} "\x7b\x7b [zero] \x7d\x7d" [("zero", .ofInt 0)] =
      .ok (.array [.ofInt 0]) := by
    rw [evaluateIn_of_expression hform, hvalue]
    rfl
  have hagree := (value_and_truth_agree hform).2.2.1 (.list [.int 0]) (.array [.ofInt 0]) hvalue nofun nofun
  exact ⟨hform, hdata, hagree hdata⟩

/-- **Not only integers have no data**: a map with nothing for a key holds and has no value, and the problem is
not that of an integer. -/
theorem map_holds_without_data :
    (formOf "\x7bnone: 1\x7d").expression? = some "\x7bnone: 1\x7d" ∧
    validateIn {} "\x7bnone: 1\x7d" [] = .ok true ∧
    evaluateIn {} "\x7bnone: 1\x7d" [] = .error (.data .keyNotText) ∧
    ExpressionError.data .keyNotText ≠ ExpressionError.data .numberOutOfRange := by
  have hform : (formOf "\x7bnone: 1\x7d").expression? = some "\x7bnone: 1\x7d" := by
    with_unfolding_all rfl
  have hvalue : valueOf {} "\x7bnone: 1\x7d" [] = .ok (.map [(.none, .int 1)]) := by
    with_unfolding_all rfl
  refine ⟨hform, ?_, ?_, nofun⟩
  · rw [validateIn_of_expression hform, hvalue]
    rfl
  · rw [evaluateIn_of_expression hform, hvalue]
    rfl

/-- **A sequence without a known length holds, also where it turns out to be empty**: an empty text has no words,
as data the words are an empty list, and the text that asks for them holds. -/
theorem empty_split_holds :
    (formOf "\x22\x22 | split").expression? = some "\x22\x22 | split" ∧
    validateIn {} "\x22\x22 | split" [] = .ok true ∧
    evaluateIn {} "\x22\x22 | split" [] = .ok (.array []) ∧ (Json.array []).truthy = false := by
  have hform : (formOf "\x22\x22 | split").expression? = some "\x22\x22 | split" := by
    with_unfolding_all rfl
  have hvalue : ∃ label, valueOf {} "\x22\x22 | split" [] = .ok (.iterable (some label) []) := by
    refine ⟨.function, ?_⟩
    with_unfolding_all rfl
  obtain ⟨label, hvalue⟩ := hvalue
  refine ⟨hform, ?_, ?_, rfl⟩
  · rw [validateIn_of_expression hform, hvalue]
    rfl
  · rw [evaluateIn_of_expression hform, hvalue]
    rfl

/-- **Where value and truth part**: a text that holds may have no data for another reason than an integer, and its
data may be empty. -/
theorem truth_without_equal_data :
    (validateIn {} "\x7bnone: 1\x7d" [] = .ok true ∧
      evaluateIn {} "\x7bnone: 1\x7d" [] = .error (.data .keyNotText) ∧
      ExpressionError.data .keyNotText ≠ ExpressionError.data .numberOutOfRange) ∧
    validateIn {} "\x22\x22 | split" [] = .ok true ∧
    evaluateIn {} "\x22\x22 | split" [] = .ok (.array []) ∧ (Json.array []).truthy = false :=
  ⟨map_holds_without_data.2, empty_split_holds.2⟩

end Runsheet
