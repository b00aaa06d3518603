import Runsheet.Proofs.Agreement
import Runsheet.Proofs.Gaps

/-!
# Messages with text around an expression

A message with text around an expression is rendered, and the text stands as it is.  A message that is nothing
but an expression is evaluated to data first, and the text of that data is logged.  The two texts are the same
for most values; they never are for none and for truth values, which are shown with a capital letter.

* `Template.exists_tokens`, `Template.read_around` — the expression is read alike by itself and inside a template;
* `Template.render_around` — what a template with one expression comes to;
* `Evaluator.exists_value_of_render` — the value behind a text that was rendered;
* `Expression.Value.IsPlain`, `Expression.Value.IsNamed` — values whose data has the text they are shown as, and
  values whose data never has it;
* `message_text_stands` — the result;
* `truth_logged_alone` — a truth value by itself and after a text.
-/

namespace Runsheet

open Runsheet.Expression Reading

namespace Text

/-- The white space that trimming takes off. -/
theorem exists_trim (s : String) : ∃ before after : List Char, (∀ c ∈ before, isBlank c = true) ∧
    (∀ c ∈ after, isBlank c = true) ∧ s.toList = before ++ ((trim s).toList ++ after) := by
  have hbehind (cs : List Char) : cs = dropRightWhile isBlank cs ++ (cs.reverse.takeWhile isBlank).reverse := by
    rw [dropRightWhile, ← List.reverse_append, List.takeWhile_append_dropWhile, List.reverse_reverse]
  refine ⟨s.toList.takeWhile isBlank, ((s.toList.dropWhile isBlank).reverse.takeWhile isBlank).reverse,
    fun c hc => List.mem_takeWhile_imp hc,
    fun c hc => List.mem_takeWhile_imp (List.mem_reverse.mp hc), ?_⟩
  rw [trim, String.toList_ofList, trimChars, ← hbehind, List.takeWhile_append_dropWhile]

/-- A text without white space at its ends is trimmed to itself. -/
theorem trim_of_solid {s : String} (hhead : ∀ c ∈ s.toList.head?, isBlank c = false)
    (hlast : ∀ c ∈ s.toList.getLast?, isBlank c = false) : trim s = s := by
  have hkeep {cs : List Char} (h : ∀ c ∈ cs.head?, isBlank c = false) : cs.dropWhile isBlank = cs := by
    cases cs with
    | nil => rfl
    | cons c cs => exact List.dropWhile_cons_of_neg (by rw [h c rfl]; exact Bool.false_ne_true)
  rw [← List.head?_reverse] at hlast
  rw [trim, trimChars, hkeep hhead, dropRightWhile, hkeep hlast, List.reverse_reverse, String.ofList_toList]

end Text

namespace Evaluator

/-- A text around an expression in double braces. -/
def around (p e t : String) : String :=
  p ++ (openMark ++ (" " ++ e ++ " ") ++ closeMark) ++ t

theorem toList_around (p e t : String) : (around p e t).toList =
    p.toList ++ '\x7b' :: '\x7b' :: ' ' :: (e.toList ++ ([' '] ++ (Region.value.ending ++ t.toList))) := by
  simp [around, openMark, closeMark, Region.ending]

end Evaluator

namespace Template

/-! ### Tokens -/

section

variable {p t : List Char}

theorem firstRegion?_of_notMem (ht : '\x7b' ∉ t) : firstRegion? t = none := by
  induction t with
  | nil => rfl
  | cons c t ih =>
    rw [List.mem_cons, not_or] at ht
    rw [firstRegion?]
    · rw [ih ht.2]
      rfl
    · rintro d rest rfl
      exact absurd rfl ht.1

theorem firstRegion?_append (hp : '\x7b' ∉ p) (rest : List Char) :
    firstRegion? (p ++ '\x7b' :: '\x7b' :: rest) = some ⟨p, .value, rest⟩ := by
  induction p with
  | nil => rfl
  | cons c p ih =>
    rw [List.mem_cons, not_or] at hp
    rw [List.cons_append, firstRegion?]
    · rw [ih hp.2]
      rfl
    · rintro d rest rfl
      exact absurd rfl hp.1

theorem tokensFrom_text (ht : '\x7b' ∉ t) {fuel : Nat} (hfuel : 0 < fuel) :
    tokensFrom fuel t = textToken t := by
  obtain ⟨fuel, rfl⟩ : ∃ n, fuel = n + 1 := ⟨fuel - 1, by omega⟩
  rw [tokensFrom, firstRegion?_of_notMem ht]

/-- The tokens of a text whose first region holds a value and begins with a space. -/
theorem tokensFrom_value (hp : '\x7b' ∉ p) (fuel : Nat) (inside : List Char) :
    tokensFrom (fuel + 1) (p ++ '\x7b' :: '\x7b' :: ' ' :: inside) =
      textToken p ++ (.openValue :: (regionTokens .value (inside.length + 2) 0 (' ' :: inside)).1 ++
        match (regionTokens .value (inside.length + 2) 0 (' ' :: inside)).2 with
        | some (rest, trim) => tokensFrom fuel (trimStart trim rest)
        | none => []) := by
  rw [tokensFrom, firstRegion?_append hp]
  rfl

theorem withoutLastBreak_eq_self (h : ∀ c ∈ t.getLast?, c ≠ '\n' ∧ c ≠ '\r') : withoutLastBreak t = t := by
  have hkeep {b : Char} (hb : ∀ c ∈ t.getLast?, c ≠ b) : t.getLast? ≠ some b := fun hlast => hb b hlast rfl
  simp only [withoutLastBreak]
  rw [if_neg (hkeep fun c hc => (h c hc).1), if_neg (hkeep fun c hc => (h c hc).2)]

/-- The last character of a text with an expression in braces is that of the text behind, or a brace. -/
theorem getLast?_inside {P : Char → Prop} (e : List Char) (hbrace : P '\x7d') (ht : ∀ c ∈ t.getLast?, P c) :
    ∀ c ∈ (p ++ '\x7b' :: '\x7b' :: ' ' :: (e ++ ([' '] ++ (Region.value.ending ++ t)))).getLast?, P c := by
  have hsplit : p ++ '\x7b' :: '\x7b' :: ' ' :: (e ++ ([' '] ++ (Region.value.ending ++ t))) =
      (p ++ '\x7b' :: '\x7b' :: ' ' :: (e ++ [' ', '\x7d'])) ++ ['\x7d'] ++ t := by
    simp [Region.ending]
  intro c hc
  rw [hsplit, List.getLast?_append, List.getLast?_concat] at hc
  cases hlast : t.getLast? with
  | none =>
    rw [hlast] at hc
    cases hc
    exact hbrace
  | some d =>
    rw [hlast] at hc
    cases hc
    exact ht c hlast

/-- **The tokens of an expression are the same by itself and inside a template** if its region ends. -/
theorem exists_tokens {e : String} (hno : ¬ Region.value.ending <:+: e.toList) {n : Nat}
    {after : List Char × Bool}
    (h : (regionTokens .value n 0 (' ' :: (e.toList ++ ([' '] ++ Region.value.ending)))).2 = some after) :
    ∃ us, .closeValue ∉ us ∧ Expression.tokens (Text.trim e).toList = us ∧
      ∀ p t : String, '\x7b' ∉ p.toList → '\x7b' ∉ t.toList →
        (∀ c ∈ t.toList.getLast?, c ≠ '\n' ∧ c ≠ '\r') →
        tokens (Evaluator.around p e t).toList =
          textToken p.toList ++ (.openValue :: (us ++ .closeValue :: textToken t.toList)) := by
  obtain ⟨before, behind, hbefore, hbehind, he⟩ := Text.exists_trim e
  have hgap : IsGap (behind ++ [' ']) := by
    refine ⟨by simp, fun b hb => ?_⟩
    rcases List.mem_append.mp hb with hb | hb
    · exact hbehind b hb
    · rw [List.mem_singleton.mp hb]
      decide
  have hinside (tail : List Char) : ' ' :: (e.toList ++ ([' '] ++ tail)) =
      (' ' :: before) ++ ((Text.trim e).toList ++ ((behind ++ [' ']) ++ tail)) := by
    simp [he]
  have hblank : ∀ b ∈ ' ' :: before, Text.isBlank b = true := by
    intro b hb
    rcases List.mem_cons.mp hb with rfl | hb
    · decide
    · exact hbefore b hb
  have hno' : ¬ Region.value.ending <:+: (Text.trim e).toList := by
    intro hmem
    refine hno (hmem.trans ?_)
    rw [he]
    exact ⟨before, behind, by simp⟩
  rw [hinside, regionTokens_blank hblank] at h
  obtain ⟨us, hus, -, -, halone, hwithin⟩ := regionTokens_append hgap n 0 _ hno' (Prod.ext rfl h)
  refine ⟨us, hus, ?_, fun p t hp ht hbreak => ?_⟩
  · rw [Expression.tokens, halone _ (Nat.lt_succ_self _)]
  · rw [tokens, Evaluator.toList_around, withoutLastBreak_eq_self (getLast?_inside _ (by decide) hbreak),
      tokensFrom_value hp, hinside, regionTokens_blank hblank, hwithin]
    · dsimp only
      rw [trimStart, if_neg Bool.false_ne_true, List.length_append, tokensFrom_text ht (by simp)]
      simp
    · rw [he]
      simp
      omega

end

/-! ### Reading -/

section

variable {ts rest : List Token}

theorem run_expect_eq_ok {token : Token} {u : Unit} (h : (expect token).run ts = .ok (u, rest)) :
    ts = token :: rest := by
  rw [expect_eq, accept_bind] at h
  obtain ⟨other, between, hpeek, hrun⟩ := run_bind_eq_ok.mp h
  cases ts with
  | nil =>
    cases hpeek
    cases hrun
  | cons first ts =>
    rcases run_peek_cons first with hseen | ⟨problem, hbroken⟩
    · rw [hseen] at hpeek
      cases hpeek
      split at hrun
      next hsame =>
        cases hrun
        rw [Option.some.inj (eq_of_beq hsame)]
        rfl
      next => cases hrun
    · rw [hbroken] at hpeek
      cases hpeek

theorem run_next_openValue : next.run (.openValue :: ts) = .ok (some .openValue, ts) := rfl

theorem run_expect_closeValue : (expect .closeValue).run (.closeValue :: ts) = .ok ((), ts) := rfl

/-- What a template whose first region holds a value is read as. -/
theorem run_parts_eq_ok {fuel : Nat} {ps : List Part}
    (h : (Parser.parts fuel 0 []).run (.openValue :: ts) = .ok (ps, rest)) :
    ∃ n e between more, fuel = n + 1 ∧
      (Expression.Parser.expression n 0).run ts = .ok (e, .closeValue :: between) ∧
      (Parser.parts n 0 []).run between = .ok (more, rest) ∧ ps = .shown e :: more := by
  cases fuel with
  | zero =>
    rw [Parser.parts] at h
    cases h
  | succ n =>
    rw [Parser.parts, run_bind_of_ok run_next_openValue] at h
    obtain ⟨e, between, hvalue, h⟩ := run_bind_eq_ok.mp h
    obtain ⟨_, after, hclose, h⟩ := run_bind_eq_ok.mp h
    obtain ⟨more, last, hmore, h⟩ := run_bind_eq_ok.mp h
    rw [run_expect_eq_ok hclose] at hvalue
    cases h
    exact ⟨n, e, after, more, rfl, hvalue, hmore, rfl⟩

/-- The parts of a text that is no template. -/
def textParts (cs : List Char) : List Part :=
  if cs.isEmpty then [] else [.text (String.ofList cs)]

theorem run_parts_text (cs : List Char) (n : Nat) :
    (Parser.parts (n + 2) 0 []).run (textToken cs) = .ok (textParts cs, []) := by
  have hend (n : Nat) : (Parser.parts (n + 1) 0 []).run [] = .ok ([], []) := by
    rw [Parser.parts]
    rfl
  unfold textToken textParts
  split
  · exact hend (n + 1)
  · rw [Parser.parts, run_bind_of_ok (rfl : next.run [.text (String.ofList cs)] = .ok (_, []))]
    exact run_bind_eq_ok.mpr ⟨_, _, hend n, rfl⟩

/-- **A template with one expression** and text around it. -/
theorem run_parts_around {n : Nat} {e : Expr} (p t : List Char)
    (h : ∀ k, n ≤ k → (Expression.Parser.expression k 0).run (ts ++ .closeValue :: textToken t) =
      .ok (e, .closeValue :: textToken t)) :
    (Parser.parts (n + 4) 0 []).run (textToken p ++ .openValue :: (ts ++ .closeValue :: textToken t)) =
      .ok (textParts p ++ .shown e :: textParts t, []) := by
  have hshown (k : Nat) (hk : n ≤ k) : (Parser.parts (k + 3) 0 []).run
      (.openValue :: (ts ++ .closeValue :: textToken t)) = .ok (.shown e :: textParts t, []) := by
    rw [Parser.parts, run_bind_of_ok run_next_openValue]
    refine run_bind_eq_ok.mpr ⟨_, _, h (k + 2) (by omega), ?_⟩
    refine run_bind_eq_ok.mpr ⟨_, _, run_expect_closeValue, ?_⟩
    exact run_bind_eq_ok.mpr ⟨_, _, run_parts_text t k, rfl⟩
  by_cases hp : p.isEmpty = true
  · rw [textToken, textParts, if_pos hp, if_pos hp]
    exact hshown (n + 1) (by omega)
  · rw [textToken, textParts, if_neg hp, if_neg hp, List.singleton_append, Parser.parts]
    rw [run_bind_of_ok (rfl : next.run (.text (String.ofList p) :: _) = .ok (_, _))]
    exact run_bind_eq_ok.mpr ⟨_, _, hshown n (Nat.le_refl n), rfl⟩

/-- An expression that is read before the end of its region is read by itself. -/
theorem read_of_run {e : String} {us : List Token} (hus : .closeValue ∉ us)
    (htokens : Expression.tokens (Text.trim e).toList = us) {n : Nat} {x : Expr} {between : List Token}
    (h : (Expression.Parser.expression n 0).run (us ++ [.closeValue]) = .ok (x, .closeValue :: between)) :
    ∃ x, Expr.read (Text.trim e) = .ok x := by
  let tails : Tails := ⟨[.closeValue], [], Or.inr ⟨[], rfl⟩, Or.inl rfl⟩
  obtain ⟨left, hleft, hrest, hfollow⟩ := Expression.Parser.run_expression_append tails h
  have hnil : left = [] := by
    cases left with
    | nil => rfl
    | cons first left =>
      cases hrest
      exact absurd (hleft.subset List.mem_cons_self) hus
  subst hnil
  refine ⟨x.moved tails.place, ?_⟩
  have hrun := hfollow (Expression.Parser.fuelFor us) (by unfold Expression.Parser.fuelFor; omega)
  rw [show us ++ tails.second = us from List.append_nil us] at hrun
  rw [Expr.read, htokens]
  dsimp only
  rw [hrun]
  rfl

theorem run_of_read {text : String} {x : Expr} (h : Expr.read text = .ok x) :
    (Expression.Parser.expression (Expression.Parser.fuelFor (Expression.tokens text.toList)) 0).run
      (Expression.tokens text.toList) = .ok (x, []) := by
  rw [Expr.read] at h
  obtain ⟨⟨x', rest⟩, hrun, h⟩ := bind_eq_ok.mp h
  rw [hrun]
  dsimp only at h
  split at h <;> cases h
  rfl

/-- The region of an expression ends if the template of the expression alone can be read. -/
theorem closed_of_read {e : String} {ps : List Part} (h : read (Evaluator.around "" e "") = .ok ps) :
    ∃ n after, (regionTokens .value n 0 (' ' :: (e.toList ++ ([' '] ++ Region.value.ending)))).2 =
      some after := by
  let inside := e.toList ++ ([' '] ++ Region.value.ending)
  have htokens : tokens (Evaluator.around "" e "").toList =
      .openValue :: (regionTokens .value (inside.length + 2) 0 (' ' :: inside)).1 ++
        match (regionTokens .value (inside.length + 2) 0 (' ' :: inside)).2 with
        | some (rest, trim) => tokensFrom (inside.length + 3) (trimStart trim rest)
        | none => [] := by
    rw [tokens, Evaluator.toList_around, withoutLastBreak_eq_self (getLast?_inside _ (by decide) (by simp))]
    exact tokensFrom_value (p := []) nofun _ inside
  cases hafter : (regionTokens .value (inside.length + 2) 0 (' ' :: inside)).2 with
  | some after => exact ⟨_, after, hafter⟩
  | none =>
    have hopen := closeValue_notMem_of_open _ 0 (' ' :: inside) hafter
    rw [hafter] at htokens
    dsimp only at htokens
    rw [List.append_nil] at htokens
    rw [read, htokens] at h
    obtain ⟨⟨ps', rest⟩, hrun, -⟩ := bind_eq_ok.mp h
    obtain ⟨n, x, between, -, -, hexpression, -, -⟩ := run_parts_eq_ok hrun
    let tails : Tails := ⟨[], [], Or.inl rfl, Or.inl rfl⟩
    rw [← List.append_nil (regionTokens _ _ _ _).1] at hexpression
    obtain ⟨left, hleft, hrest, -⟩ := Expression.Parser.run_expression_append tails hexpression
    rw [show left ++ tails.first = left from List.append_nil left] at hrest
    exact absurd (hleft.subset (hrest ▸ List.mem_cons_self)) hopen

/-- **An expression by itself and inside a template is read as one tree** but for the places of its calls. -/
theorem read_around {e : String} (hno : ¬ Region.value.ending <:+: e.toList) {ps : List Part}
    (h : read (Evaluator.around "" e "") = .ok ps) :
    ∃ x, Expr.read (Text.trim e) = .ok x ∧
      ∀ p t : String, '\x7b' ∉ p.toList → '\x7b' ∉ t.toList →
        (∀ c ∈ t.toList.getLast?, c ≠ '\n' ∧ c ≠ '\r') →
        ∃ place, read (Evaluator.around p e t) =
          .ok (textParts p.toList ++ .shown (x.moved place) :: textParts t.toList) := by
  obtain ⟨n, after, hclosed⟩ := closed_of_read h
  obtain ⟨us, hus, halone, htokens⟩ := exists_tokens hno hclosed
  have hread : ∃ x, Expr.read (Text.trim e) = .ok x := by
    rw [read, htokens "" "" nofun nofun nofun] at h
    obtain ⟨⟨ps', rest⟩, hrun, -⟩ := bind_eq_ok.mp h
    obtain ⟨k, x, between, -, -, hexpression, -, -⟩ := run_parts_eq_ok hrun
    exact read_of_run hus halone hexpression
  obtain ⟨x, hx⟩ := hread
  refine ⟨x, hx, fun p t hp ht hbreak => ?_⟩
  let tails : Tails := ⟨[], .closeValue :: textToken t.toList, Or.inl rfl, Or.inr ⟨_, rfl⟩⟩
  have hrun := run_of_read hx
  rw [halone, ← List.append_nil us] at hrun
  obtain ⟨left, -, hrest, hfollow⟩ := Expression.Parser.run_expression_append tails hrun
  have hnil : left = [] := (List.append_eq_nil_iff.mp hrest.symm).1
  subst hnil
  have hfuel : 16 * us.length + 15 + 4 ≤ Expression.Parser.fuelFor (tokens (Evaluator.around p e t).toList) := by
    rw [htokens p t hp ht hbreak, Expression.Parser.fuelFor]
    simp only [List.length_append, List.length_cons]
    omega
  obtain ⟨n, hn⟩ := Nat.exists_eq_add_of_le hfuel
  have hparts := run_parts_around (n := 16 * us.length + 15 + n) p.toList t.toList
    fun k hk => hfollow k (by omega)
  rw [Nat.add_right_comm, ← hn] at hparts
  refine ⟨tails.place, ?_⟩
  rw [read]
  rw [htokens p t hp ht hbreak] at hparts ⊢
  exact bind_eq_ok.mpr ⟨_, hparts, rfl⟩

end

/-! ### Rendering -/

theorem run_textParts (s : Setting) (vars : Vars) (text : String) (rest : List Part) (frames : List Frame)
    (out : String) : (Rendering.parts s vars 0 (textParts text.toList ++ rest)).run ⟨frames, out⟩ =
      (Rendering.parts s vars 0 rest).run ⟨frames, out ++ text⟩ := by
  unfold textParts
  split
  next hempty =>
    have htext : text = "" := String.toList_eq_nil_iff.mp (List.isEmpty_iff.mp hempty)
    rw [htext, String.append_empty, List.nil_append]
  next =>
    rw [String.ofList_toList]
    rfl

/-- The text of a template with one expression is the text of its value, between the text around it. -/
theorem render_around (s : Setting) (vars : Vars) (x : Expr) (p t : String) :
    render s vars (textParts p.toList ++ .shown x :: textParts t.toList) = (do
      let v ← x.eval s { vars }
      let shown ← s.shown v
      pure (p ++ shown ++ t)) := by
  have hafter (shown : String) : (Rendering.parts s vars 0 (textParts t.toList)).run
      ⟨[[]], p ++ shown⟩ = .ok ((), ⟨[[]], p ++ shown ++ t⟩) := by
    have hend := run_textParts s vars t [] [[]] (p ++ shown)
    rw [List.append_nil] at hend
    rw [hend]
    rfl
  have hshown : (Rendering.parts s vars 0 (.shown x :: textParts t.toList)).run ⟨[[]], p⟩ = (do
      let v ← x.eval s { vars }
      let shown ← s.shown v
      (Rendering.parts s vars 0 (textParts t.toList)).run ⟨[[]], p ++ shown⟩) := by
    rw [Rendering.parts, Rendering.part]
    simp only [Rendering.eval, Rendering.emit, StateT.run_bind, StateT.run_get, StateT.run_modify,
      StateT.run_monadLift, bind_assoc, pure_bind, List.flatten_cons, List.flatten_nil, List.append_nil]
    rfl
  rw [render, run_textParts, String.empty_append, hshown]
  simp only [hafter, bind_assoc]
  rfl

end Template

/-! ### The form of a text -/

namespace Evaluator

/-- **A text that an expression in braces may come after**: it holds no braces, and it does not begin with white
space. -/
structure Before (p : String) : Prop where
  noOpen : '\x7b' ∉ p.toList
  noClose : '\x7d' ∉ p.toList
  solid : ∀ c ∈ p.toList.head?, Text.isBlank c = false

/-- **A text that may come after an expression in braces**: it holds no braces, and it does not end with white
space. -/
structure Behind (t : String) : Prop where
  noOpen : '\x7b' ∉ t.toList
  noClose : '\x7d' ∉ t.toList
  solid : ∀ c ∈ t.toList.getLast?, Text.isBlank c = false

theorem behind_empty : Behind "" :=
  ⟨nofun, nofun, by simp⟩

theorem Behind.noBreak {t : String} (h : Behind t) : ∀ c ∈ t.toList.getLast?, c ≠ '\n' ∧ c ≠ '\r' := by
  intro c hc
  have hsolid := h.solid c hc
  constructor <;> rintro rfl <;> cases hsolid

theorem hasTemplates_around (p e t : String) : hasTemplates (around p e t) = true := by
  have hopen : openMark.toList <:+: (around p e t).toList := by
    rw [toList_around]
    exact ⟨p.toList, ' ' :: (e.toList ++ ([' '] ++ (Region.value.ending ++ t.toList))), by simp [openMark]⟩
  have hclose : closeMark.toList <:+: (around p e t).toList := by
    rw [toList_around]
    exact ⟨p.toList ++ '\x7b' :: '\x7b' :: ' ' :: (e.toList ++ [' ']), t.toList,
      by simp [closeMark, Region.ending]⟩
  rw [hasTemplates, Text.contains_iff_infix.mpr hopen, Text.contains_iff_infix.mpr hclose]
  rfl

/-- The first character of a text with an expression in braces is that of the text before, or a brace. -/
theorem head?_around {P : Char → Prop} {p : String} (hbrace : P '\x7b') (hp : ∀ c ∈ p.toList.head?, P c)
    (e t : String) : ∀ c ∈ (around p e t).toList.head?, P c := by
  intro c hc
  rw [toList_around, List.head?_append] at hc
  cases hhead : p.toList.head? with
  | none =>
    rw [hhead] at hc
    cases hc
    exact hbrace
  | some d =>
    rw [hhead] at hc
    cases hc
    exact hp c hhead

theorem trim_around {p t : String} (hp : Before p) (ht : Behind t) (e : String) :
    Text.trim (around p e t) = around p e t := by
  refine Text.trim_of_solid (head?_around (by decide) hp.solid e t) ?_
  rw [toList_around]
  exact Template.getLast?_inside e.toList (by decide) ht.solid

/-- **Text around an expression makes a template.** -/
theorem formOf_around {p t : String} (hp : Before p) (ht : Behind t) (hsome : p ++ t ≠ "") (e : String) :
    formOf (around p e t) = .template := by
  have hinner : inner? (around p e t) = none := by
    refine if_neg fun h => ?_
    rw [Bool.and_eq_true, Bool.and_eq_true, List.isPrefixOf_iff_prefix, List.isSuffixOf_iff_suffix] at h
    obtain ⟨⟨-, after, hafter⟩, before, hbefore⟩ := h
    have hopen : openMark.toList = ['\x7b', '\x7b'] := by decide
    have hclose : closeMark.toList = ['\x7d', '\x7d'] := by decide
    rw [toList_around] at hafter hbefore
    rw [hopen] at hafter
    rw [hclose] at hbefore
    cases hpChars : p.toList with
    | cons c rest =>
      rw [hpChars, List.cons_append, List.cons_append, List.cons_append, List.cons.injEq] at hafter
      obtain ⟨rfl, -⟩ := hafter
      exact hp.noOpen (hpChars ▸ List.mem_cons_self)
    | nil =>
      have htChars : t.toList ≠ [] := by
        intro hnil
        apply hsome
        rw [String.toList_eq_nil_iff.mp hpChars, String.toList_eq_nil_iff.mp hnil]
        rfl
      -- What is behind holds no brace, so its last character is not the last one of the mark.
      have hlast := congrArg List.getLast? hbefore
      simp only [List.getLast?_append, List.getLast?_cons] at hlast
      have hd := List.getLast?_eq_some_getLast htChars
      rw [hd] at hlast
      simp at hlast
      exact ht.noClose (hlast ▸ List.mem_of_getLast? hd)
  have hne : around p e t ≠ "" := by
    intro h
    have hlist := toList_around p e t
    rw [h] at hlist
    simp at hlist
  simp only [formOf]
  rw [trim_around hp ht, if_neg hne, hinner, hasTemplates_around]
  rfl

end Evaluator

/-! ### Values that are logged as they are shown -/

/-- A finite number that data writes without an exponent is written as it is shown. -/
theorem Decimal.Layout.render_data {x : Binary64} (hfinite : x.isFinite = true)
    (hplace : x.mantissa = 0 ∨ data.isPositional (shortest x).place = true) :
    data.render x = plain.render x := by
  have hnumber : x.isNaN = false ∧ x.isInfinite = false := by
    rw [Binary64.isFinite, bne_iff_ne] at hfinite
    simp [Binary64.isNaN, Binary64.isInfinite, hfinite]
  simp only [render, hnumber.1, hnumber.2]
  rcases hplace with hzero | hplace
  · simp only [if_pos hzero]
    rfl
  · rw [hplace]
    rfl

namespace Expression.Value

/-- **A value whose data has the text that the value is shown as**: a text, what is undefined, an integer of 64
bits, or a finite number that data writes without an exponent. -/
def IsPlain : Value → Prop
  | .undefined _ | .string _ => True
  | .int n => Json.holdsInt n = true
  | .float x => x.isFinite = true ∧
      (x.mantissa = 0 ∨ Decimal.Layout.data.isPositional (Decimal.shortest x).place = true)
  | .none | .bool _ | .list _ | .map _ | .iterable .. | .callable .. => False

theorem IsPlain.exists_data {v : Value} (h : v.IsPlain) :
    ∃ j, v.toJson = .ok j ∧ Builtin.messageText j = v.display := by
  cases v with
  | undefined quiet => exact ⟨.null, rfl, rfl⟩
  | string s => exact ⟨.string s, rfl, rfl⟩
  | int n =>
    have hn : Json.holdsInt n = true := h
    refine ⟨.ofInt n, by rw [toJson, if_pos hn], ?_⟩
    exact String.ofList_toList
  | float x =>
    obtain ⟨hfinite, hplace⟩ := h
    refine ⟨.number (.float x), by rw [toJson, Json.ofBinary64, if_pos hfinite], ?_⟩
    change String.ofList (Decimal.Layout.data.render x).toList = Decimal.Layout.plain.render x
    rw [String.ofList_toList, Decimal.Layout.render_data hfinite hplace]
  | none | bool b | list items | map entries | iterable unsized items | callable name label => cases h

/-- **A value that has a name**: none, or a truth value. -/
def IsNamed : Value → Prop
  | .none | .bool _ => True
  | _ => False

/-- A name is shown with a capital letter and is not written so as data. -/
theorem IsNamed.exists_data {v : Value} (h : v.IsNamed) :
    ∃ j, v.toJson = .ok j ∧ Builtin.messageText j ≠ v.display := by
  cases v with
  | none => exact ⟨.null, rfl, by decide⟩
  | bool b =>
    refine ⟨.bool b, rfl, ?_⟩
    cases b <;> decide
  | undefined quiet | int n | float x | string s | list items | map entries | iterable unsized items
  | callable name label => cases h

end Expression.Value

/-! ### Messages -/

/-- A value that may be used is used as it is, and shown so. -/
theorem Expression.Setting.eq_of_shown {s : Setting} {v : Value} {shown : String}
    (h : s.shown v = .ok shown) : v.display = shown := by
  obtain ⟨used, huse, hdisplay⟩ := bind_eq_ok.mp h
  cases hdisplay
  unfold use at huse
  split at huse
  · split at huse <;> cases huse
    rfl
  · cases huse
    rfl

namespace Evaluator

theorem render_of_read {s : Setting} {vars : Vars} {text : String} {parts : List Template.Part}
    (hread : Template.read text = .ok parts) :
    render s text vars = (Template.render s vars parts).mapError (.ofTemplate text) := by
  rw [render, hread]
  rfl

/-- **The rendering of an expression with text around it.** -/
theorem render_around_of_read {s : Setting} {vars : Vars} {p e t shown : String} {x : Expr} {v : Value}
    (hread : Template.read (around p e t) =
      .ok (Template.textParts p.toList ++ .shown x :: Template.textParts t.toList))
    (hv : x.eval s { vars } = .ok v) (hshown : s.shown v = .ok shown) :
    render s (around p e t) vars = .ok (p ++ shown ++ t) := by
  have hall : (do
      let v ← x.eval s { vars }
      let shown ← s.shown v
      pure (p ++ shown ++ t) : Except Problem String) = .ok (p ++ shown ++ t) :=
    bind_eq_ok.mpr ⟨v, hv, bind_eq_ok.mpr ⟨shown, hshown, rfl⟩⟩
  rw [render_of_read hread, Template.render_around, hall]
  rfl

/-- **What rendering an expression in braces comes to**: the value of the expression, and around any text the
text that the value is shown as. -/
theorem exists_value_of_render {e r : String} (hclose : Text.contains e closeMark = false)
    (hnew : ∀ x, Expr.read (Text.trim e) = .ok x → "uuid" ∉ x.called) {s : Setting} {vars : Vars}
    (hr : render s (around "" e "") vars = .ok r) :
    ∃ v, valueOf s (Text.trim e) vars = .ok v ∧ v.display = r ∧
      ∀ p t, Before p → Behind t → render s (around p e t) vars = .ok (p ++ r ++ t) := by
  have hno : ¬ Region.value.ending <:+: e.toList := by
    intro h
    have hmark : closeMark.toList <:+: e.toList := h
    rw [Text.contains_iff_infix.mpr hmark] at hclose
    cases hclose
  cases hread : Template.read (around "" e "") with
  | error problem =>
    rw [render, hread] at hr
    cases hr
  | ok parts =>
    obtain ⟨x, hx, haround⟩ := Template.read_around hno hread
    -- The calls of the expression may stand anywhere, since none of them makes an identifier.
    have hmoved (place : Nat → Nat) : (x.moved place).eval s { vars } = x.eval s { vars } :=
      x.eval_moved place s { vars } (hnew x hx)
    obtain ⟨place, hplace⟩ := haround "" "" nofun nofun (by simp)
    rw [render_of_read hplace, Template.render_around, hmoved] at hr
    obtain ⟨v, hv, hrest⟩ := bind_eq_ok.mp (mapError_eq_ok.mp hr)
    obtain ⟨shown, hshown, hsame⟩ := bind_eq_ok.mp hrest
    rw [pure_eq_ok, String.empty_append, String.append_empty] at hsame
    subst hsame
    refine ⟨v, ?_, Setting.eq_of_shown hshown, fun p t hp ht => ?_⟩
    · rw [valueOf, hx]
      dsimp only
      rw [hv]
      rfl
    · obtain ⟨place, hplace⟩ := haround p t hp.noOpen ht.noOpen ht.noBreak
      exact render_around_of_read hplace ((hmoved place).trans hv) hshown

/-- Text around an expression makes the value a text. -/
theorem evaluateIn_around {p t : String} (hp : Before p) (ht : Behind t) (hsome : p ++ t ≠ "") {s : Setting}
    {vars : Vars} {e text : String} (h : render s (around p e t) vars = .ok text) :
    evaluateIn s (around p e t) vars = .ok (.string text) := by
  rw [evaluateIn, formOf_around hp ht hsome]
  dsimp only
  rw [h]
  rfl

/-- Without text around it the value is the data of the expression's value. -/
theorem evaluateIn_alone {e : String} (hopen : Text.contains e openMark = false)
    (hclose : Text.contains e closeMark = false) {s : Setting} {vars : Vars} {v : Value}
    (h : valueOf s (Text.trim e) vars = .ok v) : evaluateIn s (around "" e "") vars = dataOf v := by
  have hbraces : InBraces (around "" e "") e :=
    ⟨"", " ", " ", "", by decide, by decide, by decide, by decide, rfl⟩
  have hsome : Text.isBlankText e = false := by
    rw [Bool.eq_false_iff]
    intro hblank
    have hnothing : Expr.read "" = .error .malformed := by with_unfolding_all rfl
    rw [Text.trim_eq_empty_iff.mpr (Text.isBlankText_iff.mp hblank), valueOf, hnothing] at h
    cases h
  rw [evaluateIn, formOf_of_inBraces ⟨hsome, hopen, hclose⟩ hbraces]
  dsimp only
  rw [h]
  rfl

end Evaluator

namespace Builtin

/-- **A message is logged as a text.** -/
def Logs (s : Setting) (b : Brief) (w : World) (message text : String) : Prop :=
  logMessage (.standard s) { b with data := some message } w =
    (.ok .completed, (w.note .info text).record "log" b.label text)

variable {s : Setting} {b : Brief} {w : World} {message : String}

/-- A message is logged as one text. -/
theorem Logs.unique {text other : String} (h : Logs s b w message text) (h' : Logs s b w message other) :
    text = other := by
  have hsame : ((w.note .info text).record "log" b.label text).entries =
      ((w.note .info other).record "log" b.label other).entries :=
    congrArg (fun r => r.2.entries) (h.symm.trans h')
  cases hsame
  rfl

theorem logs_of_evaluate {j : Json} (htemplates : Evaluator.hasTemplates message = true)
    (h : Evaluator.evaluateIn s message (w.context.seenBy b.vars) = .ok j) :
    Logs s b w message (messageText j) := by
  have hevaluate : w.context.evaluate (.standard s) message b.vars = .ok j := h
  have hrendered : rendered (.standard s) { b with data := some message } w.context message =
      .ok (messageText j) := by
    rw [rendered, if_pos htemplates, hevaluate]
    rfl
  simp only [Logs, logMessage, message?]
  rw [hrendered]

theorem logMessage_of_error {error : ExpressionError} (htemplates : Evaluator.hasTemplates message = true)
    (h : Evaluator.evaluateIn s message (w.context.seenBy b.vars) = .error error)
    (hreported : error.crash? = none) :
    (logMessage (.standard s) { b with data := some message } w).1 = .ok (.failed error.message) := by
  have hevaluate : w.context.evaluate (.standard s) message b.vars = .error error := h
  have hrendered : rendered (.standard s) { b with data := some message } w.context message =
      .error error := by
    rw [rendered, if_pos htemplates, hevaluate]
    rfl
  simp only [logMessage, message?, refused]
  rw [hrendered]
  dsimp only
  rw [hreported]
  rfl

end Builtin

open Evaluator

/-- **Text around an expression in a message stands as it is.**  If the expression in braces is rendered, then a
message with text before it or behind it is logged with the rendered text in its place.  The expression alone is
logged as the text of its data, if there is data.  That is the rendered text for a plain value, so that the
message with text around it is the text before, the message alone and the text behind; for a named value it never
is.  Calls that make new identifiers are left out: they have another value each time. -/
theorem message_text_stands {e r : String} (hopen : Text.contains e openMark = false)
    (hclose : Text.contains e closeMark = false)
    (hnew : ∀ x, Expr.read (Text.trim e) = .ok x → "uuid" ∉ x.called) (s : Setting) (b : Brief) (w : World)
    (hr : render s (around "" e "") (w.context.seenBy b.vars) = .ok r) :
    ∃ v, valueOf s (Text.trim e) (w.context.seenBy b.vars) = .ok v ∧ v.display = r ∧
      (∀ p t, Before p → Behind t → p ++ t ≠ "" → Builtin.Logs s b w (around p e t) (p ++ r ++ t)) ∧
      (∀ j, v.toJson = .ok j → Builtin.Logs s b w (around "" e "") (Builtin.messageText j)) ∧
      (∀ problem, v.toJson = .error problem →
        (Builtin.logMessage (.standard s) { b with data := some (around "" e "") } w).1 =
          .ok (.failed (ExpressionError.data problem).message)) ∧
      (v.IsPlain → ∀ p t, Before p → Behind t → Builtin.Logs s b w (around p e t) (p ++ r ++ t)) ∧
      (v.IsNamed → ¬ Builtin.Logs s b w (around "" e "") r) := by
  obtain ⟨v, hvalue, rfl, hmixed⟩ := exists_value_of_render hclose hnew hr
  have halone : evaluateIn s (around "" e "") (w.context.seenBy b.vars) = dataOf v :=
    evaluateIn_alone hopen hclose hvalue
  have hdata (j : Json) (hj : v.toJson = .ok j) :
      Builtin.Logs s b w (around "" e "") (Builtin.messageText j) :=
    Builtin.logs_of_evaluate (hasTemplates_around "" e "") (halone.trans (dataOf_eq_ok.mpr hj))
  have htext (p t : String) (hp : Before p) (ht : Behind t) (hsome : p ++ t ≠ "") :
      Builtin.Logs s b w (around p e t) (p ++ v.display ++ t) :=
    Builtin.logs_of_evaluate (hasTemplates_around p e t)
      (evaluateIn_around hp ht hsome (hmixed p t hp ht))
  refine ⟨v, hvalue, rfl, htext, hdata, fun problem hproblem => ?_, fun hplain p t hp ht => ?_,
    fun hnamed => ?_⟩
  · have herror : evaluateIn s (around "" e "") (w.context.seenBy b.vars) = .error (.data problem) :=
      halone.trans (dataOf_eq_error.mpr ⟨problem, hproblem, rfl⟩)
    exact Builtin.logMessage_of_error (hasTemplates_around "" e "") herror rfl
  · by_cases hsome : p ++ t = ""
    · obtain ⟨rfl, rfl⟩ := String.append_eq_empty_iff.mp hsome
      obtain ⟨j, hj, hsame⟩ := hplain.exists_data
      have hlogs := hdata j hj
      rw [hsame] at hlogs
      rw [String.empty_append, String.append_empty]
      exact hlogs
    · exact htext p t hp ht hsome
  · obtain ⟨j, hj, hdiffers⟩ := hnamed.exists_data
    exact fun hlogs => hdiffers ((hdata j hj).unique hlogs)

/-- A text that is joined in the expression, between a greeting and a full stop. -/
theorem message_text_stands_greeting :
    Text.contains "name ~ '!'" openMark = false ∧ Text.contains "name ~ '!'" closeMark = false ∧
    (∀ x, Expr.read (Text.trim "name ~ '!'") = .ok x → "uuid" ∉ x.called) ∧
    render {} (around "" "name ~ '!'" "") [("name", .string "Ada")] = .ok "Ada!" ∧
    Before "Hello, " ∧ Behind " It is on." ∧
    Builtin.Logs {} { label := "log", vars := [("name", .string "Ada")] } {}
      (around "Hello, " "name ~ '!'" " It is on.") ("Hello, " ++ "Ada!" ++ " It is on.") := by
  have hopen : Text.contains "name ~ '!'" openMark = false := by decide
  have hclose : Text.contains "name ~ '!'" closeMark = false := by decide
  have hread : Expr.read (Text.trim "name ~ '!'") =
      .ok (.binary .join (.variable "name") (.literal (.string "!"))) := by
    with_unfolding_all rfl
  have hnew (x : Expr) (hx : Expr.read (Text.trim "name ~ '!'") = .ok x) : "uuid" ∉ x.called := by
    rw [hread] at hx
    cases hx
    exact nofun
  have htemplate : Template.read (around "" "name ~ '!'" "") =
      .ok (Template.textParts "".toList ++
        .shown (.binary .join (.variable "name") (.literal (.string "!"))) ::
          Template.textParts "".toList) := by
    with_unfolding_all rfl
  have hrender : render {} (around "" "name ~ '!'" "") [("name", .string "Ada")] = .ok "Ada!" :=
    render_around_of_read (v := .string "Ada!") htemplate rfl rfl
  have hbefore : Before "Hello, " := ⟨by decide, by decide, by rintro c ⟨⟩; rfl⟩
  have hbehind : Behind " It is on." := ⟨by decide, by decide, by rintro c ⟨⟩; rfl⟩
  obtain ⟨v, -, -, hmixed, -⟩ := message_text_stands hopen hclose hnew {}
    { label := "log", vars := [("name", .string "Ada")] } {} hrender
  exact ⟨hopen, hclose, hnew, hrender, hbefore, hbehind, hmixed _ _ hbefore hbehind (by decide)⟩

/-- **A truth value is not logged as it is shown** when it is the whole message. -/
theorem truth_logged_alone :
    render {} (around "" "true" "") [] = .ok "True" ∧
    Builtin.Logs {} { label := "log" } {} (around "flag:" "true" "") ("flag:" ++ "True" ++ "") ∧
    Builtin.Logs {} { label := "log" } {} (around "" "true" "") "true" ∧
    "flag:" ++ "true" ++ "" ≠ "flag:" ++ "True" ++ "" := by
  have halone : Template.read (around "" "true" "") =
      .ok (Template.textParts "".toList ++ .shown (.literal (.bool true)) ::
        Template.textParts "".toList) := by
    with_unfolding_all rfl
  have hmixed : Template.read (around "flag:" "true" "") =
      .ok (Template.textParts "flag:".toList ++ .shown (.literal (.bool true)) ::
        Template.textParts "".toList) := by
    with_unfolding_all rfl
  have hbefore : Before "flag:" := ⟨by decide, by decide, by rintro c ⟨⟩; rfl⟩
  have hvalue : valueOf {} (Text.trim "true") [] = .ok (.bool true) := by with_unfolding_all rfl
  have hbare : evaluateIn {} (around "" "true" "") [] = .ok (.bool true) :=
    evaluateIn_alone (by decide) (by decide) hvalue
  have htext : render {} (around "flag:" "true" "") [] = .ok ("flag:" ++ "True" ++ "") :=
    render_around_of_read (v := .bool true) hmixed rfl rfl
  have htrue : Builtin.messageText (.bool true) = "true" := by decide
  have hlogs := Builtin.logs_of_evaluate (b := { label := "log" }) (w := {})
    (hasTemplates_around "" "true" "") hbare
  rw [htrue] at hlogs
  have hlogsText := Builtin.logs_of_evaluate (b := { label := "log" }) (w := {})
    (hasTemplates_around "flag:" "true" "") (evaluateIn_around hbefore behind_empty (by decide) htext)
  exact ⟨render_around_of_read (v := .bool true) halone rfl rfl, hlogsText, hlogs, by decide⟩

end Runsheet
