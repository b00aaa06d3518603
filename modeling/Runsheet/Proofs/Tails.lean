import Runsheet.Proofs.Places

/-!
# Reading before a tail

The parser of expressions looks no further than the first token that it does not take.  An expression that is read
before one tail is read before any other, with the same remainder and the same tree, but for the places where its
calls stand.  A place is counted from the end, so it moves with the length of the tail.

One rule for each step that a parser is made of says when the step is the same before the two tails; the functions
of the grammar are put together from the rules, each with the fuel it needs for one call.

* `Follows` — what a parser does before one tail, another one does before the other;
* `Follows.bind`, `Follows.peek`, `Follows.accept` and the like — the rules;
* `Parser.Followed`, `Parser.followed` — every function of the grammar, by induction on the fuel;
* `Parser.run_expression_append` — the result.
-/

namespace Runsheet.Expression

/-- **A tail holds nothing of an expression**: it is empty, or it begins with the mark that closes a region. -/
def IsTail (tail : List Token) : Prop :=
  tail = [] ∨ ∃ rest, tail = .closeValue :: rest

/-- Two tails that an expression may stand before. -/
structure Tails where
  first : List Token
  second : List Token
  isTail_first : IsTail first
  isTail_second : IsTail second

/-- The place before the second tail of what stands at a place before the first one. -/
def Tails.place (t : Tails) (n : Nat) : Nat :=
  n - t.first.length + t.second.length

/-- Is there no token of an expression? -/
def Ends (token : Option Token) : Prop :=
  token = none ∨ token = some .closeValue

/-! ### Running -/

namespace Reading

variable {α β : Type}

theorem run_bind_eq_ok {x : Reading α} {k : α → Reading β} {ts rest : List Token} {b : β} :
    (x >>= k).run ts = .ok (b, rest) ↔
      ∃ a between, x.run ts = .ok (a, between) ∧ (k a).run between = .ok (b, rest) := by
  rw [StateT.run_bind]
  cases h : x.run ts with
  | error problem => simp [bind, Except.bind]
  | ok r => exact ⟨fun hk => ⟨r.1, r.2, rfl, hk⟩, fun ⟨a, between, hr, hk⟩ => by cases hr; exact hk⟩

theorem run_bind_of_ok {x : Reading α} {ts between : List Token} {a : α}
    (h : x.run ts = .ok (a, between)) (k : α → Reading β) :
    (x >>= k).run ts = (k a).run between := by
  rw [StateT.run_bind, h]
  rfl

theorem run_peek_tail {tail : List Token} (h : IsTail tail) :
    ∃ o, Ends o ∧ peek.run tail = .ok (o, tail) := by
  rcases h with rfl | ⟨rest, rfl⟩
  · exact ⟨none, Or.inl rfl, rfl⟩
  · exact ⟨some .closeValue, Or.inr rfl, rfl⟩

/-- The next token is seen, or a broken one stops the reading. -/
theorem run_peek_cons (token : Token) :
    (∀ ts, peek.run (token :: ts) = .ok (some token, token :: ts)) ∨
      ∃ problem, ∀ ts, peek.run (token :: ts) = .error problem := by
  cases token
  case broken problem => exact Or.inr ⟨problem, fun _ => rfl⟩
  all_goals exact Or.inl fun _ => rfl

theorem next_bind (k : Option Token → Reading α) :
    next >>= k = peek >>= fun token => skip >>= fun _ => k token := by
  simp only [next, bind_assoc, pure_bind]

theorem accept_bind (token : Token) (x y : Reading α) :
    (accept token >>= fun found => if found then x else y) =
      peek >>= fun other => if other == some token then skip >>= fun _ => x else y := by
  simp only [accept, meets, bind_assoc, pure_bind]
  refine bind_congr fun other => ?_
  cases other == some token <;> simp

theorem expect_eq (token : Token) :
    expect token = accept token >>= fun found => if found then pure () else fail := by
  refine bind_congr fun found => ?_
  cases found <;> rfl

end Reading

/-- Is the token a string literal? -/
def Token.isString : Token → Bool
  | .string _ => true
  | _ => false

/-- A text with the string literals of a list after it. -/
def joined (text : String) (strings : List Token) : String :=
  strings.foldl (fun text token =>
    match token with
    | .string s => text ++ s
    | _ => text) text

theorem IsTail.takeWhile_eq_nil {tail : List Token} (h : IsTail tail) :
    tail.takeWhile Token.isString = [] := by
  rcases h with rfl | ⟨rest, rfl⟩ <;> rfl

theorem run_moreStrings (s : String) (us : List Token) {tail : List Token} (htail : IsTail tail) :
    (Parser.moreStrings s).run (us ++ tail) =
      (Reading.peek >>= fun _ => pure (joined s (us.takeWhile Token.isString))).run
        (us.dropWhile Token.isString ++ tail) := by
  have hstrings : (us ++ tail).takeWhile Token.isString = us.takeWhile Token.isString := by
    rw [List.takeWhile_append, htail.takeWhile_eq_nil, List.append_nil]
    split
    next hall => exact ((List.takeWhile_prefix _).eq_of_length hall).symm
    next => rfl
  have hdrop : (us ++ tail).drop (us.takeWhile Token.isString).length =
      us.dropWhile Token.isString ++ tail := by
    have hsplit : us ++ tail = us.takeWhile Token.isString ++ (us.dropWhile Token.isString ++ tail) := by
      rw [← List.append_assoc, List.takeWhile_append_dropWhile]
    rw [hsplit, List.drop_left]
  rw [← hdrop, ← hstrings]
  rfl

open Reading

variable {α α' β β' : Type}

/-- **A reading is followed before another tail.** -/
def Follows (t : Tails) (m : α → β) (least fuel : Nat) (x : Reading α) (y : Nat → Reading β) : Prop :=
  ∀ us a rest, x.run (us ++ t.first) = .ok (a, rest) →
    ∃ taken left, us = taken ++ left ∧ rest = left ++ t.first ∧ least ≤ taken.length ∧
      ∀ n, 16 * taken.length + fuel ≤ n → (y n).run (us ++ t.second) = .ok (m a, left ++ t.second)

namespace Follows

variable {t : Tails} {m : α → β} {m' : α' → β'} {least fuel l₁ l₂ f₁ f₂ : Nat}

theorem unfold {x x' : Reading α} {y y' : Nat → Reading β} (hx : x' = x) (hy : ∀ n, y' (n + 1) = y n)
    (h : Follows t m least fuel x y) : Follows t m least (fuel + 1) x' y' := by
  subst hx
  intro us a rest hrun
  obtain ⟨taken, left, hus, hrest, hleast, hfollow⟩ := h us a rest hrun
  refine ⟨taken, left, hus, hrest, hleast, fun n hn => ?_⟩
  obtain ⟨n, rfl⟩ : ∃ k, n = k + 1 := ⟨n - 1, by omega⟩
  rw [hy]
  exact hfollow n (by omega)

theorem fail {y : Nat → Reading β} : Follows t m least fuel Reading.fail y := by
  intro us a rest hrun
  cases hrun

/-- What has failed is followed by anything. -/
theorem never {x : Reading α} {y : Nat → Reading β} (hx : x = Reading.fail) :
    Follows t m least fuel x y := by
  subst hx
  exact fail

theorem pure {a : α} {b : β} (h : b = m a) :
    Follows t m 0 fuel (Pure.pure a) (fun _ => Pure.pure b) := by
  intro us a' rest hrun
  cases hrun
  subst h
  exact ⟨[], us, rfl, rfl, Nat.le_refl 0, fun _ _ => rfl⟩

theorem mono {x : Reading α} {y : Nat → Reading β} (h : Follows t m l₁ f₁ x y)
    (hcost : least ≤ l₁ ∧ f₁ ≤ fuel) : Follows t m least fuel x y := by
  intro us a rest hrun
  obtain ⟨taken, left, hus, hrest, hl₁, hfollow⟩ := h us a rest hrun
  exact ⟨taken, left, hus, hrest, by omega, fun n hn => hfollow n (by omega)⟩

/-- Two readings in a row: what the second one takes is left to the first, and the other way round. -/
theorem bind {x : Reading α} {y : Nat → Reading β} {k : α → Reading α'} {l : Nat → β → Reading β'}
    (hx : Follows t m l₁ f₁ x y)
    (hk : ∀ a, Follows t m' (least - l₁) (fuel + 16 * l₁) (k a) (fun n => l n (m a)))
    (hfuel : f₁ ≤ fuel + 16 * (least - l₁)) :
    Follows t m' least fuel (x >>= k) (fun n => y n >>= l n) := by
  intro us b rest hrun
  obtain ⟨a, between, hxrun, hkrun⟩ := run_bind_eq_ok.mp hrun
  obtain ⟨taken, left, rfl, rfl, hl₁, hy⟩ := hx _ a between hxrun
  obtain ⟨taken', left', rfl, rfl, hl₂, hl⟩ := hk a _ b rest hkrun
  refine ⟨taken ++ taken', left', by simp, rfl, by simp; omega, fun n hn => ?_⟩
  rw [List.length_append] at hn
  exact run_bind_eq_ok.mpr ⟨m a, _, hy n (by omega), hl n (by omega)⟩

theorem map {x : Reading α} {y : Nat → Reading β} {f : α → α'} {g : β → β'}
    (hx : Follows t m l₁ f₁ x y) (hf : ∀ a, m' (f a) = g (m a)) (hcost : least ≤ l₁ ∧ f₁ ≤ fuel) :
    Follows t m' least fuel (f <$> x) (fun n => g <$> y n) := by
  rw [map_eq_pure_bind]
  simp only [map_eq_pure_bind]
  refine bind hx (fun a => ?_) (by omega)
  rw [Nat.sub_eq_zero_of_le hcost.1]
  exact pure (hf a).symm

/-- A reading that takes something does not succeed where nothing of an expression is left. -/
theorem stuck {x : Reading α} {y : Nat → Reading β} (h : Follows t m l₁ f₁ x y) (hl₁ : 0 < l₁) :
    ∀ a rest, x.run t.first ≠ .ok (a, rest) := by
  intro a rest hrun
  obtain ⟨taken, left, hus, -, hleast, -⟩ := h [] a rest hrun
  rw [(List.append_eq_nil_iff.mp hus.symm).1] at hleast
  exact Nat.not_lt_of_le hleast hl₁

/-- **A look at the next token**: what follows leaves the token where it is, or it skips it. -/
theorem peek {k : Option Token → Reading α} {l : Nat → Option Token → Reading β}
    (htoken : ∀ token, Follows t m least fuel (k (some token)) (fun n => l n (some token)) ∨
      ∃ x y, k (some token) = (skip >>= fun _ => x) ∧ (∀ n, l n (some token) = skip >>= fun _ => y n) ∧
        Follows t m (least - 1) (fuel + 16) x y)
    (hend : ∀ o o', Ends o → Ends o' → Follows t m least fuel (k o) (fun n => l n o') ∨
      ∀ a rest, (k o).run t.first ≠ .ok (a, rest)) :
    Follows t m least fuel (Reading.peek >>= k) (fun n => Reading.peek >>= l n) := by
  intro us a rest hrun
  cases us with
  | nil =>
    obtain ⟨o, ho, hpeek⟩ := run_peek_tail t.isTail_first
    obtain ⟨o', ho', hpeek'⟩ := run_peek_tail t.isTail_second
    rw [List.nil_append, run_bind_of_ok hpeek] at hrun
    have hfollows := (hend o o' ho ho').resolve_right fun hstuck => hstuck a rest hrun
    obtain ⟨taken, left, hus, hrest, hleast, hfollow⟩ := hfollows [] a rest hrun
    refine ⟨taken, left, hus, hrest, hleast, fun n hn => ?_⟩
    rw [List.nil_append, run_bind_of_ok hpeek']
    exact hfollow n hn
  | cons token us =>
    rcases run_peek_cons token with hpeek | ⟨problem, hbroken⟩
    · rw [List.cons_append, run_bind_of_ok (hpeek _)] at hrun
      rcases htoken token with hstay | ⟨x, y, hk, hl, hskip⟩
      · obtain ⟨taken, left, hus, hrest, hleast, hfollow⟩ := hstay (token :: us) a rest hrun
        refine ⟨taken, left, hus, hrest, hleast, fun n hn => ?_⟩
        rw [List.cons_append, run_bind_of_ok (hpeek _)]
        exact hfollow n hn
      · rw [hk] at hrun
        obtain ⟨taken, left, rfl, hrest, hleast, hfollow⟩ := hskip us a rest hrun
        refine ⟨token :: taken, left, rfl, hrest, by simp; omega, fun n hn => ?_⟩
        rw [List.cons_append, run_bind_of_ok (hpeek _), hl]
        rw [List.length_cons] at hn
        exact hfollow n (by omega)
    · rw [List.cons_append, StateT.run_bind, hbroken] at hrun
      cases hrun

/-- **The next token is taken**; without one the reading fails. -/
theorem next {k : Option Token → Reading α} {l : Nat → Option Token → Reading β}
    (htoken : ∀ token, Follows t m (least - 1) (fuel + 16) (k (some token)) (fun n => l n (some token)))
    (hend : ∀ o, Ends o → k o = Reading.fail) :
    Follows t m least fuel (Reading.next >>= k) (fun n => Reading.next >>= l n) := by
  rw [next_bind]
  simp only [next_bind]
  refine peek (fun token => Or.inr ⟨_, _, rfl, fun _ => rfl, htoken token⟩) fun o o' ho ho' => ?_
  refine Or.inr fun a rest hrun => ?_
  rw [hend o ho] at hrun
  cases hrun

/-- **A token is taken if it comes next.** -/
theorem accept {token : Token} {x x' : Reading α} {y y' : Nat → Reading β}
    (htoken : token ≠ .closeValue) (hx : Follows t m (least - 1) (fuel + 16) x y)
    (hx' : Follows t m least fuel x' y') :
    Follows t m least fuel (Reading.accept token >>= fun found => if found then x else x')
      (fun n => Reading.accept token >>= fun found => if found then y n else y' n) := by
  have hother {o : Option Token} (ho : Ends o) : (o == some token) = false := by
    rcases ho with rfl | rfl
    · rfl
    · exact beq_false_of_ne fun h => htoken (Option.some.inj h).symm
  rw [accept_bind]
  simp only [accept_bind]
  refine peek (fun other => ?_) fun o o' ho ho' => ?_
  · cases hsame : some other == some token with
    | true => exact Or.inr ⟨x, y, rfl, fun _ => rfl, hx⟩
    | false => exact Or.inl hx'
  · simp only [hother ho, hother ho']
    exact Or.inl hx'

theorem expect {token : Token} (htoken : token ≠ .closeValue) :
    Follows t id 1 0 (Reading.expect token) (fun _ => Reading.expect token) := by
  simp only [expect_eq]
  exact accept htoken (pure rfl) fail

theorem meets {token : Token} (htoken : token ≠ .closeValue) :
    Follows t id 0 0 (Reading.meets token) (fun _ => Reading.meets token) := by
  have hother {o : Option Token} (ho : Ends o) : (o == some token) = false := by
    rcases ho with rfl | rfl
    · rfl
    · exact beq_false_of_ne fun h => htoken (Option.some.inj h).symm
  refine peek (fun other => Or.inl (pure rfl)) fun o o' ho ho' => Or.inl (pure ?_)
  rw [hother ho, hother ho']
  rfl

/-- Whether a token was taken. -/
theorem taken {token : Token} (htoken : token ≠ .closeValue) :
    Follows t id 0 0 (Reading.accept token) (fun _ => Reading.accept token) := by
  have haccept : Reading.accept token =
      Reading.accept token >>= fun found => if found then Pure.pure true else Pure.pure false :=
    (bind_pure (Reading.accept token)).symm.trans (bind_congr fun found => by cases found <;> rfl)
  rw [haccept]
  exact accept htoken (pure rfl) (pure rfl)

theorem name : Follows t id 1 0 Reading.name (fun _ => Reading.name) :=
  next (fun token => by cases token with
    | name s => exact pure rfl
    | _ => exact fail) fun o ho => by rcases ho with rfl | rfl <;> rfl

theorem ite {p : Prop} [Decidable p] {x x' : Reading α} {y y' : Nat → Reading β}
    (hx : Follows t m least fuel x y) (hx' : Follows t m least fuel x' y') :
    Follows t m least fuel (if p then x else x') (fun n => if p then y n else y' n) := by
  by_cases hp : p
  · simp only [if_pos hp]
    exact hx
  · simp only [if_neg hp]
    exact hx'

/-- **The next of several**: a comma stands before each but the first, and the end may follow a comma. -/
theorem separated {started : Bool} {closing : Mark} {x x' : Reading α}
    {y y' : Nat → Reading β} (hx : Follows t m (least - 2) (fuel + 32) x y)
    (hx' : Follows t m least fuel x' y') :
    Follows t m least fuel
      (if started = true then Reading.expect (.mark .comma) >>= fun _ =>
          (if started = true then Reading.accept (.mark closing) else Pure.pure false) >>= fun found =>
            if found = true then x else x'
        else (if started = true then Reading.accept (.mark closing) else Pure.pure false) >>= fun found =>
            if found = true then x else x')
      (fun n => if started = true then Reading.expect (.mark .comma) >>= fun _ =>
          (if started = true then Reading.accept (.mark closing) else Pure.pure false) >>= fun found =>
            if found = true then y n else y' n
        else (if started = true then Reading.accept (.mark closing) else Pure.pure false) >>= fun found =>
            if found = true then y n else y' n) := by
  cases started with
  | true =>
    simp only [if_true]
    exact bind (expect (by simp)) (fun _ => accept (by simp) (hx.mono (by omega)) (hx'.mono (by omega))) (by omega)
  | false =>
    simp only [Bool.false_eq_true, if_false, pure_bind]
    exact hx'

/-- **A look at all tokens that are left.** -/
theorem get {k : List Token → Reading α} {l : Nat → List Token → Reading β}
    (h : ∀ us, Follows t m least fuel (k (us ++ t.first)) (fun n => l n (us ++ t.second))) :
    Follows t m least fuel (MonadState.get >>= k) (fun n => MonadState.get >>= l n) :=
  fun us => h us us

theorem moreStrings (s : String) :
    Follows t id 0 0 (Parser.moreStrings s) (fun _ => Parser.moreStrings s) := by
  intro us text rest hrun
  rw [run_moreStrings s us t.isTail_first] at hrun
  have hpeek : Follows t id 0 0 (Reading.peek >>= fun _ => Pure.pure (joined s (us.takeWhile Token.isString)))
      (fun _ => Reading.peek >>= fun _ => Pure.pure (joined s (us.takeWhile Token.isString))) :=
    peek (fun _ => Or.inl (pure rfl)) fun _ _ _ _ => Or.inl (pure rfl)
  obtain ⟨taken, left, hleft, hrest, -, hfollow⟩ := hpeek _ text rest hrun
  refine ⟨us.takeWhile Token.isString ++ taken, left, ?_, hrest, Nat.zero_le _, fun n hn => ?_⟩
  · rw [List.append_assoc, ← hleft, List.takeWhile_append_dropWhile]
  · rw [run_moreStrings s us t.isTail_second]
    rw [List.length_append] at hn
    exact hfollow n (by omega)

/-- **A step of a chain of comparisons begins, or the chain ends.** -/
theorem comparisonOp {k : Option CompareOp → Reading α} {l : Nat → Option CompareOp → Reading β}
    (hnone : Follows t m least fuel (k none) (fun n => l n none))
    (hsome : ∀ op, Follows t m (least - 1) (fuel + 16) (k (some op)) (fun n => l n (some op))) :
    Follows t m least fuel (Parser.comparisonOp? >>= k) (fun n => Parser.comparisonOp? >>= l n) := by
  unfold Parser.comparisonOp?
  simp only [bind_assoc]
  refine peek (fun token => ?_) fun o o' ho ho' => ?_
  · split
    · refine Or.inr ⟨_, _, bind_assoc .., fun _ => bind_assoc .., ?_⟩
      exact hsome .isIn
    · refine Or.inr ⟨_, _, bind_assoc .., fun _ => bind_assoc .., ?_⟩
      simp only [bind_assoc]
      exact bind (expect (by simp)) (fun _ => (hsome .isNotIn).mono (by omega)) (by omega)
    · rename_i mark _
      cases hop : Parser.comparisonOf mark with
      | none => exact Or.inl hnone
      | some op => exact Or.inr ⟨_, _, bind_assoc .., fun _ => bind_assoc .., hsome op⟩
    · exact Or.inl hnone
  · rcases ho with rfl | rfl <;> rcases ho' with rfl | rfl <;> exact Or.inl hnone

end Follows

/-! ### The grammar -/

namespace Parser

/-- **What every part of the grammar does** with some fuel: it is followed before another tail, and the fuel
that this needs is counted. -/
structure Followed (t : Tails) (fuel : Nat) : Prop where
  expression : ∀ depth, Follows t (Expr.moved t.place) 1 15 (expression fuel depth) (expression · depth)
  choice : ∀ depth, Follows t (Expr.moved t.place) 1 14 (choice fuel depth) (choice · depth)
  choices : ∀ depth value, Follows t (Expr.moved t.place) 0 1 (choices fuel depth value)
    (choices · depth (value.moved t.place))
  disjunction : ∀ depth,
    Follows t (Expr.moved t.place) 1 13 (disjunction fuel depth) (disjunction · depth)
  disjuncts : ∀ depth left, Follows t (Expr.moved t.place) 0 1 (disjuncts fuel depth left)
    (disjuncts · depth (left.moved t.place))
  conjunction : ∀ depth,
    Follows t (Expr.moved t.place) 1 12 (conjunction fuel depth) (conjunction · depth)
  conjuncts : ∀ depth left, Follows t (Expr.moved t.place) 0 1 (conjuncts fuel depth left)
    (conjuncts · depth (left.moved t.place))
  negation : ∀ depth, Follows t (Expr.moved t.place) 1 11 (negation fuel depth) (negation · depth)
  comparison : ∀ depth, Follows t (Expr.moved t.place) 1 10 (comparison fuel depth) (comparison · depth)
  comparisonSteps : ∀ depth,
    Follows t (movedSteps t.place) 0 1 (comparisonSteps fuel depth) (comparisonSteps · depth)
  operation : ∀ depth levels, levels.length ≤ 4 →
    Follows t (Expr.moved t.place) 1 (levels.length + 5) (operation fuel depth levels)
      (operation · depth levels)
  operands : ∀ depth level tighter left, tighter.length ≤ 4 →
    Follows t (Expr.moved t.place) 0 1 (operands fuel depth level tighter left)
      (operands · depth level tighter (left.moved t.place))
  filtered : ∀ depth, Follows t (Expr.moved t.place) 1 4 (filtered fuel depth) (filtered · depth)
  filters : ∀ depth operand, Follows t (Expr.moved t.place) 0 1 (filters fuel depth operand)
    (filters · depth (operand.moved t.place))
  testArguments : ∀ depth,
    Follows t (movedArguments t.place) 0 4 (testArguments fuel depth) (testArguments · depth)
  argumentsIfAny : ∀ depth,
    Follows t (movedArguments t.place) 0 1 (argumentsIfAny fuel depth) (argumentsIfAny · depth)
  reference : ∀ depth, Follows t (Expr.moved t.place) 1 3 (reference fuel depth) (reference · depth)
  signed : ∀ depth, Follows t (Expr.moved t.place) 1 2 (signed fuel depth) (signed · depth)
  accesses : ∀ depth object, Follows t (Expr.moved t.place) 0 1 (accesses fuel depth object)
    (accesses · depth (object.moved t.place))
  subscript : ∀ depth object, Follows t (Expr.moved t.place) 1 1 (subscript fuel depth object)
    (subscript · depth (object.moved t.place))
  bound : ∀ depth endings, .closeValue ∉ endings →
    Follows t (movedOptional t.place) 0 16 (bound fuel depth endings) (bound · depth endings)
  arguments : ∀ depth started keyword, Follows t (movedArguments t.place) 1 16
    (arguments fuel depth started keyword) (arguments · depth started keyword)
  primary : ∀ depth, Follows t (Expr.moved t.place) 1 1 (primary fuel depth) (primary · depth)
  group : ∀ depth, Follows t (Expr.moved t.place) 1 16 (group fuel depth) (group · depth)
  items : ∀ depth closing started,
    Follows t (movedItems t.place) 1 16 (items fuel depth closing started) (items · depth closing started)
  entries : ∀ depth started,
    Follows t (movedEntries t.place) 1 16 (entries fuel depth started) (entries · depth started)

variable {t : Tails} {fuel : Nat}

theorem moved_namedValue (place : Nat → Nat) (s : String) : (namedValue s).moved place = namedValue s := by
  unfold namedValue
  repeat' split
  all_goals rfl

theorem followed_zero (t : Tails) : Followed t 0 := by
  constructor <;> intros <;> apply Follows.never <;>
    simp only [Parser.expression, Parser.choice, Parser.choices, Parser.disjunction, Parser.disjuncts,
      Parser.conjunction, Parser.conjuncts, Parser.negation, Parser.comparison, Parser.comparisonSteps,
      Parser.operation, Parser.operands, Parser.filtered, Parser.filters, Parser.testArguments,
      Parser.argumentsIfAny, Parser.reference, Parser.signed, Parser.accesses, Parser.subscript,
      Parser.bound, Parser.arguments, Parser.primary, Parser.group, Parser.items, Parser.entries]

namespace Followed

variable (ih : Followed t fuel) (depth : Nat)
include ih

theorem top : Follows t (Expr.moved t.place) 1 9 (Parser.operation fuel depth operatorLevels)
    (Parser.operation · depth operatorLevels) :=
  ih.operation depth operatorLevels (by decide)

theorem expression_succ :
    Follows t (Expr.moved t.place) 1 15 (Parser.expression (fuel + 1) depth) (Parser.expression · depth) := by
  refine .unfold (expression.eq_2 ..) (fun n => expression.eq_2 ..) ?_
  exact .ite (ih.choice (depth + 1)) .fail

theorem choice_succ :
    Follows t (Expr.moved t.place) 1 14 (Parser.choice (fuel + 1) depth) (Parser.choice · depth) := by
  refine .unfold (choice.eq_2 ..) (fun n => choice.eq_2 ..) ?_
  exact .bind (ih.disjunction depth) (fun value => (ih.choices depth value).mono (by omega)) (by omega)

theorem choices_succ (value : Expr) :
    Follows t (Expr.moved t.place) 0 1 (Parser.choices (fuel + 1) depth value)
      (Parser.choices · depth (value.moved t.place)) := by
  refine .unfold (choices.eq_2 ..) (fun n => choices.eq_2 ..) ?_
  refine .accept (by simp) ?_ (.pure rfl)
  refine .bind (ih.disjunction depth) (fun condition => ?_) (by omega)
  refine .accept (by simp) ?_ ?_
  · exact .bind (ih.choice depth) (fun alternative => (ih.choices depth _).mono (by omega)) (by omega)
  · exact (ih.choices depth _).mono (by omega)

theorem disjunction_succ :
    Follows t (Expr.moved t.place) 1 13 (Parser.disjunction (fuel + 1) depth) (Parser.disjunction · depth) := by
  refine .unfold (disjunction.eq_2 ..) (fun n => disjunction.eq_2 ..) ?_
  exact .bind (ih.conjunction depth) (fun left => (ih.disjuncts depth left).mono (by omega)) (by omega)

theorem disjuncts_succ (left : Expr) :
    Follows t (Expr.moved t.place) 0 1 (Parser.disjuncts (fuel + 1) depth left)
      (Parser.disjuncts · depth (left.moved t.place)) := by
  refine .unfold (disjuncts.eq_2 ..) (fun n => disjuncts.eq_2 ..) ?_
  refine .accept (by simp) ?_ (.pure rfl)
  exact .bind (ih.conjunction depth) (fun right => (ih.disjuncts depth _).mono (by omega)) (by omega)

theorem conjunction_succ :
    Follows t (Expr.moved t.place) 1 12 (Parser.conjunction (fuel + 1) depth) (Parser.conjunction · depth) := by
  refine .unfold (conjunction.eq_2 ..) (fun n => conjunction.eq_2 ..) ?_
  exact .bind (ih.negation depth) (fun left => (ih.conjuncts depth left).mono (by omega)) (by omega)

theorem conjuncts_succ (left : Expr) :
    Follows t (Expr.moved t.place) 0 1 (Parser.conjuncts (fuel + 1) depth left)
      (Parser.conjuncts · depth (left.moved t.place)) := by
  refine .unfold (conjuncts.eq_2 ..) (fun n => conjuncts.eq_2 ..) ?_
  refine .accept (by simp) ?_ (.pure rfl)
  exact .bind (ih.negation depth) (fun right => (ih.conjuncts depth _).mono (by omega)) (by omega)

theorem negation_succ :
    Follows t (Expr.moved t.place) 1 11 (Parser.negation (fuel + 1) depth) (Parser.negation · depth) := by
  refine .unfold (negation.eq_2 ..) (fun n => negation.eq_2 ..) ?_
  refine .accept (by simp) ?_ (ih.comparison depth)
  exact .map (ih.negation depth) (fun operand => rfl) (by omega)

theorem comparison_succ :
    Follows t (Expr.moved t.place) 1 10 (Parser.comparison (fuel + 1) depth) (Parser.comparison · depth) := by
  refine .unfold (comparison.eq_2 ..) (fun n => comparison.eq_2 ..) ?_
  refine .bind (ih.top depth) (fun first => ?_) (by omega)
  refine .bind (ih.comparisonSteps depth) (fun steps => ?_) (by omega)
  refine .pure ?_
  cases steps <;> rfl

theorem comparisonSteps_succ :
    Follows t (movedSteps t.place) 0 1 (Parser.comparisonSteps (fuel + 1) depth)
      (Parser.comparisonSteps · depth) := by
  refine .unfold (comparisonSteps.eq_2 ..) (fun n => comparisonSteps.eq_2 ..) ?_
  refine .comparisonOp (.pure rfl) fun op => ?_
  refine .bind (ih.top depth) (fun right => ?_) (by omega)
  refine .bind (ih.comparisonSteps depth) (fun rest => ?_) (by omega)
  exact .pure rfl

theorem operation_succ (levels : List (List (Mark × BinaryOp))) (hlevels : levels.length ≤ 4) :
    Follows t (Expr.moved t.place) 1 (levels.length + 5) (Parser.operation (fuel + 1) depth levels)
      (Parser.operation · depth levels) := by
  cases levels with
  | nil =>
    refine .unfold (operation.eq_2 ..) (fun n => operation.eq_2 ..) ?_
    exact ih.filtered depth
  | cons level tighter =>
    simp only [List.length_cons] at hlevels ⊢
    refine .unfold (operation.eq_3 ..) (fun n => operation.eq_3 ..) ?_
    refine .bind (ih.operation depth tighter (by omega)) (fun left => ?_) (by omega)
    exact (ih.operands depth level tighter left (by omega)).mono (by omega)

theorem operands_succ (level : List (Mark × BinaryOp)) (tighter : List (List (Mark × BinaryOp)))
    (left : Expr) (htighter : tighter.length ≤ 4) :
    Follows t (Expr.moved t.place) 0 1 (Parser.operands (fuel + 1) depth level tighter left)
      (Parser.operands · depth level tighter (left.moved t.place)) := by
  refine .unfold (operands.eq_2 ..) (fun n => operands.eq_2 ..) ?_
  refine .peek (fun token => ?_) fun o o' ho ho' => ?_
  · cases hop : operatorOf level (some token) with
    | none => exact Or.inl (.pure rfl)
    | some op =>
      refine Or.inr ⟨_, _, rfl, fun _ => rfl, ?_⟩
      refine .bind (ih.operation depth tighter htighter) (fun right => ?_) (by omega)
      exact (ih.operands depth level tighter _ htighter).mono (by omega)
  · have hnone {o : Option Token} (ho : Ends o) : operatorOf level o = none := by
      rcases ho with rfl | rfl <;> rfl
    simp only [hnone ho, hnone ho']
    exact Or.inl (.pure rfl)

theorem filtered_succ :
    Follows t (Expr.moved t.place) 1 4 (Parser.filtered (fuel + 1) depth) (Parser.filtered · depth) := by
  refine .unfold (filtered.eq_2 ..) (fun n => filtered.eq_2 ..) ?_
  exact .bind (ih.reference depth) (fun operand => (ih.filters depth operand).mono (by omega)) (by omega)

theorem filters_succ (operand : Expr) :
    Follows t (Expr.moved t.place) 0 1 (Parser.filters (fuel + 1) depth operand)
      (Parser.filters · depth (operand.moved t.place)) := by
  refine .unfold (filters.eq_2 ..) (fun n => filters.eq_2 ..) ?_
  refine .accept (by simp) ?_ ?_
  · refine .bind .name (fun filterName => ?_) (by omega)
    refine .bind (ih.argumentsIfAny depth) (fun args => ?_) (by omega)
    exact (ih.filters depth _).mono (by omega)
  · refine .accept (by simp) ?_ (.pure rfl)
    refine .bind (.taken (by simp)) (fun negated => ?_) (by omega)
    refine .bind .name (fun testName => ?_) (by omega)
    refine .bind (ih.testArguments depth) (fun args => ?_) (by omega)
    cases negated <;> exact (ih.filters depth _).mono (by omega)

theorem testArguments_succ :
    Follows t (movedArguments t.place) 0 4 (Parser.testArguments (fuel + 1) depth)
      (Parser.testArguments · depth) := by
  refine .unfold (testArguments.eq_2 ..) (fun n => testArguments.eq_2 ..) ?_
  refine .peek (fun token => Or.inl (.ite ?_ ?_)) fun o o' ho ho' => ?_
  · exact .bind (ih.reference depth) (fun argument => .pure rfl) (by omega)
  · exact (ih.argumentsIfAny depth).mono (by omega)
  · have hnone {o : Option Token} (ho : Ends o) : startsTestArgument o = false := by
      rcases ho with rfl | rfl <;> rfl
    simp only [hnone ho, hnone ho']
    exact Or.inl ((ih.argumentsIfAny depth).mono (by omega))

theorem argumentsIfAny_succ :
    Follows t (movedArguments t.place) 0 1 (Parser.argumentsIfAny (fuel + 1) depth)
      (Parser.argumentsIfAny · depth) := by
  refine .unfold (argumentsIfAny.eq_2 ..) (fun n => argumentsIfAny.eq_2 ..) ?_
  exact .accept (by simp) ((ih.arguments depth false false).mono (by omega)) (.pure rfl)

theorem reference_succ :
    Follows t (Expr.moved t.place) 1 3 (Parser.reference (fuel + 1) depth) (Parser.reference · depth) := by
  refine .unfold (reference.eq_2 ..) (fun n => reference.eq_2 ..) ?_
  exact .bind (ih.signed depth) (fun object => (ih.accesses depth object).mono (by omega)) (by omega)

theorem signed_succ :
    Follows t (Expr.moved t.place) 1 2 (Parser.signed (fuel + 1) depth) (Parser.signed · depth) := by
  refine .unfold (signed.eq_2 ..) (fun n => signed.eq_2 ..) ?_
  exact .accept (by simp) (.map (ih.signed depth) (fun operand => rfl) (by omega)) (ih.primary depth)

theorem accesses_succ (object : Expr) :
    Follows t (Expr.moved t.place) 0 1 (Parser.accesses (fuel + 1) depth object)
      (Parser.accesses · depth (object.moved t.place)) := by
  refine .unfold (accesses.eq_2 ..) (fun n => accesses.eq_2 ..) ?_
  refine .accept (by simp) ?_ (.accept (by simp) ?_ ?_)
  · refine .next (fun token => ?_) fun o ho => by rcases ho with rfl | rfl <;> rfl
    cases token with
    | name s => exact (ih.accesses depth _).mono (by omega)
    | integer n => exact (ih.accesses depth _).mono (by omega)
    | _ => exact .fail
  · refine .bind (ih.subscript depth object) (fun access => ?_) (by omega)
    exact (ih.accesses depth access).mono (by omega)
  · refine .get fun us => ?_
    refine .accept (by simp) ?_ (.pure rfl)
    refine .bind (ih.arguments depth false false) (fun args => ?_) (by omega)
    have hplace : t.place (us ++ t.first).length = (us ++ t.second).length := by
      simp [Tails.place]
    have haccesses := ih.accesses depth (.call (us ++ t.first).length object args)
    rw [Expr.moved, hplace] at haccesses
    exact haccesses.mono (by omega)

theorem subscript_succ (object : Expr) :
    Follows t (Expr.moved t.place) 1 1 (Parser.subscript (fuel + 1) depth object)
      (Parser.subscript · depth (object.moved t.place)) := by
  refine .unfold (subscript.eq_2 ..) (fun n => subscript.eq_2 ..) ?_
  dsimp only
  refine .bind (ih.bound depth [.mark .colon] (by decide)) (fun start => ?_) (by omega)
  refine .accept (by simp) ?_ ?_
  · refine .bind (ih.bound depth [.mark .colon, .mark .closeBracket] (by decide)) (fun stop => ?_) (by omega)
    refine .accept (by simp) ?_ ?_
    · refine .bind (ih.bound depth [.mark .closeBracket] (by decide)) (fun step => ?_) (by omega)
      exact .bind (.expect (by simp)) (fun _ => .pure rfl) (by omega)
    · simp only [pure_bind]
      exact .bind (.expect (by simp)) (fun _ => .pure rfl) (by omega)
  · refine .bind (.expect (by simp)) (fun _ => ?_) (by omega)
    cases start with
    | none => exact .fail
    | some key => exact .pure rfl

theorem bound_succ (endings : List Token) (hendings : .closeValue ∉ endings) :
    Follows t (movedOptional t.place) 0 16 (Parser.bound (fuel + 1) depth endings)
      (Parser.bound · depth endings) := by
  refine .unfold (bound.eq_2 ..) (fun n => bound.eq_2 ..) ?_
  have hexpression : Follows t (movedOptional t.place) 1 15
      (some <$> Parser.expression fuel depth) (fun n => some <$> Parser.expression n depth) :=
    .map (ih.expression depth) (fun e => rfl) (by omega)
  refine .peek (fun token => Or.inl (.ite (.pure rfl) (hexpression.mono (by omega)))) fun o o' ho ho' => Or.inr ?_
  rcases ho with rfl | rfl
  · intro a rest hrun
    cases hrun
  · have hcontains : endings.contains Token.closeValue = false := by simpa using hendings
    simp only [hcontains]
    exact hexpression.stuck (by omega)

theorem arguments_succ (started keyword : Bool) :
    Follows t (movedArguments t.place) 1 16 (Parser.arguments (fuel + 1) depth started keyword)
      (Parser.arguments · depth started keyword) := by
  refine .unfold (arguments.eq_2 ..) (fun n => arguments.eq_2 ..) ?_
  dsimp only
  refine .accept (by simp) (.pure rfl) ?_
  refine .separated (.pure rfl) ?_
  refine .bind (ih.expression depth) (fun argument => ?_) (by omega)
  have hpositional : Follows t (movedArguments t.place) (1 - 1) (15 + 16 * 1)
      (if keyword = true then fail else do
        let rest ← Parser.arguments fuel depth true false
        pure ((none, argument) :: rest))
      (fun n => if keyword = true then fail else do
        let rest ← Parser.arguments n depth true false
        pure ((none, argument.moved t.place) :: rest)) := by
    refine .ite .fail ?_
    exact .bind (ih.arguments depth true false) (fun rest => .pure rfl) (by omega)
  cases argument
  case «variable» key =>
    refine .bind (.taken (by simp)) (fun named => ?_) (by omega)
    cases named with
    | true =>
      refine .bind (ih.disjunction depth) (fun value => ?_) (by omega)
      exact .bind (ih.arguments depth true true) (fun rest => .pure rfl) (by omega)
    | false => exact hpositional.mono (by omega)
  all_goals
    simp only [Expr.moved, pure_bind] at hpositional ⊢
    exact hpositional

theorem primary_succ :
    Follows t (Expr.moved t.place) 1 1 (Parser.primary (fuel + 1) depth) (Parser.primary · depth) := by
  refine .unfold (primary.eq_2 ..) (fun n => primary.eq_2 ..) ?_
  by_cases hdepth : depth < maxDepth
  · simp only [if_pos hdepth]
    refine .next (fun token => ?_) fun o ho => by rcases ho with rfl | rfl <;> rfl
    cases token with
    | name s => exact .pure (moved_namedValue t.place s).symm
    | string s => exact .map (.moreStrings s) (fun _ => rfl) (by omega)
    | integer n => exact .pure rfl
    | decimal x => exact .pure rfl
    | mark x =>
      cases x with
      | openParen => exact (ih.group (depth + 1)).mono (by omega)
      | openBracket => exact .map (ih.items (depth + 1) .closeBracket false) (fun _ => rfl) (by omega)
      | openBrace => exact .map (ih.entries (depth + 1) false) (fun _ => rfl) (by omega)
      | _ => exact .fail
    | _ => exact .fail
  · simp only [if_neg hdepth]
    exact .never rfl

theorem group_succ :
    Follows t (Expr.moved t.place) 1 16 (Parser.group (fuel + 1) depth) (Parser.group · depth) := by
  refine .unfold (group.eq_2 ..) (fun n => group.eq_2 ..) ?_
  refine .accept (by simp) (.pure rfl) ?_
  refine .bind (ih.expression depth) (fun first => ?_) (by omega)
  refine .bind (.meets (by simp)) (fun found => .ite ?_ ?_) (by omega)
  · exact .bind (ih.items depth .closeParen true) (fun rest => .pure rfl) (by omega)
  · exact .bind (.expect (by simp)) (fun _ => .pure rfl) (by omega)

theorem items_succ (closing : Mark) (started : Bool) :
    Follows t (movedItems t.place) 1 16 (Parser.items (fuel + 1) depth closing started)
      (Parser.items · depth closing started) := by
  refine .unfold (items.eq_2 ..) (fun n => items.eq_2 ..) ?_
  dsimp only
  refine .accept (by simp) (.pure rfl) ?_
  refine .separated (.pure rfl) ?_
  refine .bind (ih.expression depth) (fun item => ?_) (by omega)
  exact .bind (ih.items depth closing true) (fun rest => .pure rfl) (by omega)

theorem entries_succ (started : Bool) :
    Follows t (movedEntries t.place) 1 16 (Parser.entries (fuel + 1) depth started)
      (Parser.entries · depth started) := by
  refine .unfold (entries.eq_2 ..) (fun n => entries.eq_2 ..) ?_
  dsimp only
  refine .accept (by simp) (.pure rfl) ?_
  refine .separated (.pure rfl) ?_
  refine .bind (ih.expression depth) (fun key => ?_) (by omega)
  refine .bind (.expect (by simp)) (fun _ => ?_) (by omega)
  refine .bind (ih.expression depth) (fun value => ?_) (by omega)
  exact .bind (ih.entries depth true) (fun rest => .pure rfl) (by omega)

end Followed

/-- **The grammar**, with any fuel. -/
theorem followed (t : Tails) (fuel : Nat) : Followed t fuel := by
  induction fuel with
  | zero => exact followed_zero t
  | succ fuel ih =>
    exact ⟨ih.expression_succ, ih.choice_succ, ih.choices_succ, ih.disjunction_succ, ih.disjuncts_succ,
      ih.conjunction_succ, ih.conjuncts_succ, ih.negation_succ, ih.comparison_succ,
      ih.comparisonSteps_succ, ih.operation_succ, ih.operands_succ, ih.filtered_succ, ih.filters_succ,
      ih.testArguments_succ, ih.argumentsIfAny_succ, ih.reference_succ, ih.signed_succ, ih.accesses_succ,
      ih.subscript_succ, ih.bound_succ, ih.arguments_succ, ih.primary_succ, ih.group_succ, ih.items_succ,
      ih.entries_succ⟩

/-- **An expression is read before any tail**, with the fuel that the number of its tokens allows for. -/
theorem run_expression_append (t : Tails) {fuel depth : Nat} {us rest : List Token} {e : Expr}
    (h : (expression fuel depth).run (us ++ t.first) = .ok (e, rest)) :
    ∃ left, left <:+ us ∧ rest = left ++ t.first ∧ ∀ n, 16 * us.length + 15 ≤ n →
      (expression n depth).run (us ++ t.second) = .ok (e.moved t.place, left ++ t.second) := by
  obtain ⟨taken, left, rfl, hrest, -, hfollow⟩ := (followed t fuel).expression depth us e rest h
  refine ⟨left, List.suffix_append taken left, hrest, fun n hn => hfollow n ?_⟩
  rw [List.length_append] at hn
  omega

end Parser

end Runsheet.Expression
