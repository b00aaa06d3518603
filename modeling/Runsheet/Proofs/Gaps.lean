import Runsheet.Proofs.Literals
import Runsheet.Proofs.Tails

/-!
# Tokens before a gap

A token that ends before white space is read the same whatever comes behind, if quotes that are open there do not
close in it.  So a region of a template and an expression by itself have the same tokens up to the mark that
closes the region.

* `Gap` — where a token ends at the latest;
* `readNumber_append`, `readString_append`, `readToken?_append` — one token before a gap;
* `regionTokens_append` — all tokens of a region that is closed behind a gap;
* `closeValue_notMem_of_open` — a region that is not closed has no token that closes it.
-/

namespace Runsheet.Expression

/-- **A gap** is where a token ends at the latest: white space comes next, or nothing. -/
def Gap (cs : List Char) : Prop :=
  ∀ c ∈ cs.head?, Text.isBlank c = true

/-! ### White space ends a token -/

section

variable {b c : Char} {cs tail tail' : List Char}

theorem ne_of_isBlank (hb : Text.isBlank b = true) {mark : Char} (hmark : Text.isBlank mark = false) :
    b ≠ mark := by
  rintro rfl
  rw [hb] at hmark
  cases hmark

/-- White space is outside the printed characters of ASCII. -/
theorem blank_bounds (hb : Text.isBlank b = true) : b.toNat ≤ 32 ∨ 133 ≤ b.toNat := by
  simp only [Text.isBlank, Bool.or_eq_true, Bool.and_eq_true, decide_eq_true_eq, beq_iff_eq] at hb
  omega

theorem isAlphanum_of_isBlank (hb : Text.isBlank b = true) : b.isAlphanum = false := by
  have hbounds := blank_bounds hb
  rw [Bool.eq_false_iff]
  intro halpha
  change (decide (b.val ≥ 'A'.val ∧ b.val ≤ 'Z'.val) ||
    (decide (b.val ≥ 'a'.val) && decide (b.val ≤ 'z'.val)) ||
    (decide (b.val ≥ '0'.val) && decide (b.val ≤ '9'.val))) = true at halpha
  simp only [Bool.or_eq_true, Bool.and_eq_true, decide_eq_true_eq, ge_iff_le, UInt32.le_iff_toNat_le] at halpha
  have hcode : b.toNat = b.val.toNat := rfl
  have hZ : 'Z'.val.toNat = 90 := rfl
  have hz : 'z'.val.toNat = 122 := rfl
  have hnine : '9'.val.toNat = 57 := rfl
  have hA : 'A'.val.toNat = 65 := rfl
  have ha : 'a'.val.toNat = 97 := rfl
  have hzero : '0'.val.toNat = 48 := rfl
  omega

theorem isNameChar_of_isBlank (hb : Text.isBlank b = true) : isNameChar b = false := by
  rw [isNameChar, isAlphanum_of_isBlank hb, Bool.false_or,
    decide_eq_false (ne_of_isBlank hb (by decide))]

theorem digitValue?_of_isBlank (hb : Text.isBlank b = true) : Decimal.digitValue? b = none := by
  have hbounds := blank_bounds hb
  unfold Decimal.digitValue?
  simp only [Bool.and_eq_true, decide_eq_true_eq]
  rw [if_neg (by omega), if_neg (by omega), if_neg (by omega)]

theorem next?_of_isBlank (hb : Text.isBlank b = true) (part : NumberPart) : part.next? b = none := by
  have hdigit : b.isDigit = false := by
    have halpha := isAlphanum_of_isBlank hb
    rw [Char.isAlphanum, Bool.or_eq_false_iff] at halpha
    exact halpha.2
  unfold NumberPart.next?
  split
  all_goals first | cases hb | skip
  rw [hdigit, digitValue?_of_isBlank hb, if_neg (ne_of_isBlank hb (by decide)),
    if_neg Bool.false_ne_true]
  split <;> rfl

theorem doubleMark?_of_isBlank (hb : Text.isBlank b = true) : doubleMark? c b = none := by
  unfold doubleMark?
  split <;> first | rfl | cases hb

/-- What comes at the front of a gap has no part in a mark. -/
theorem doubleMark?_append (ht : Gap tail) :
    doubleMark? c ((cs ++ tail).headD ' ') = doubleMark? c (cs.headD ' ') := by
  cases cs with
  | cons d cs => rfl
  | nil =>
    cases tail with
    | nil => rfl
    | cons b tail =>
      have hb : Text.isBlank b = true := ht b rfl
      rw [List.nil_append, List.headD_cons, List.headD_nil, doubleMark?_of_isBlank hb,
        doubleMark?_of_isBlank (by decide)]

theorem numberChars_append (ht : Gap tail) (part : NumberPart) :
    numberChars part (cs ++ tail) =
      ((numberChars part cs).1, (numberChars part cs).2.1, (numberChars part cs).2.2 ++ tail) := by
  induction cs generalizing part with
  | nil =>
    cases tail with
    | nil => rfl
    | cons b tail =>
      have hb : Text.isBlank b = true := ht b rfl
      simp only [List.nil_append, numberChars, next?_of_isBlank hb]
  | cons d cs ih =>
    rw [List.cons_append, numberChars, numberChars]
    cases hnext : part.next? d with
    | none => rfl
    | some part =>
      dsimp only
      rw [ih part]

theorem numberBase_append (ht : Gap tail) :
    numberBase (c :: (cs ++ tail)) = ((numberBase (c :: cs)).1, (numberBase (c :: cs)).2 ++ tail) := by
  by_cases hc : c = '0'
  · subst hc
    cases cs with
    | nil =>
      cases tail with
      | nil => rfl
      | cons b tail =>
        have hb : Text.isBlank b = true := ht b rfl
        have hne {letter : Char} (hletter : Text.isBlank letter = false) : b ≠ letter :=
          ne_of_isBlank hb hletter
        simp [numberBase, hne (by decide : Text.isBlank 'x' = false),
          hne (by decide : Text.isBlank 'X' = false), hne (by decide : Text.isBlank 'o' = false),
          hne (by decide : Text.isBlank 'O' = false), hne (by decide : Text.isBlank 'b' = false),
          hne (by decide : Text.isBlank 'B' = false)]
    | cons d cs =>
      simp only [numberBase, List.cons_append]
      repeat' split
      all_goals rfl
  · have hbase (cs : List Char) : numberBase (c :: cs) = (.whole, c :: cs) := by
      unfold numberBase
      split
      next heq =>
        cases heq
        exact absurd rfl hc
      next => rfl
    rw [hbase, hbase]
    rfl

theorem readNumber_append (ht : Gap tail) :
    readNumber (c :: (cs ++ tail)) = ((readNumber (c :: cs)).1, (readNumber (c :: cs)).2 ++ tail) := by
  unfold readNumber
  simp only [numberBase_append ht, numberChars_append ht]

theorem takeWhile_name_append (ht : Gap tail) :
    (cs ++ tail).takeWhile isNameChar = cs.takeWhile isNameChar := by
  have htail : tail.takeWhile isNameChar = [] := by
    cases tail with
    | nil => rfl
    | cons b tail =>
      rw [List.takeWhile_cons_of_neg]
      rw [isNameChar_of_isBlank (ht b rfl)]
      exact Bool.false_ne_true
  rw [List.takeWhile_append, htail, List.append_nil]
  split
  next hall => exact ((List.takeWhile_prefix _).eq_of_length hall).symm
  next => rfl

theorem dropWhile_name_append (ht : Gap tail) :
    (cs ++ tail).dropWhile isNameChar = cs.dropWhile isNameChar ++ tail := by
  have hsplit : (cs ++ tail).takeWhile isNameChar ++ (cs ++ tail).dropWhile isNameChar =
      cs.takeWhile isNameChar ++ (cs.dropWhile isNameChar ++ tail) := by
    rw [List.takeWhile_append_dropWhile, ← List.append_assoc, List.takeWhile_append_dropWhile]
  rw [takeWhile_name_append ht] at hsplit
  exact List.append_cancel_left hsplit

theorem untilQuote_cons {quote : Char} (hc : c ≠ '\\') :
    untilQuote quote (c :: cs) =
      if c = quote then some ([], cs) else (untilQuote quote cs).map fun r => (c :: r.1, r.2) := by
  rw [untilQuote, if_neg hc]
  rintro d rest rfl
  exact absurd rfl hc

/-- A closing quote is one of the characters. -/
theorem mem_of_untilQuote {quote : Char} {r : List Char × List Char}
    (h : untilQuote quote cs = some r) : quote ∈ cs := by
  fun_induction untilQuote quote cs generalizing r with
  | case1 => cases h
  | case2 c rest ih =>
    obtain ⟨r', hr', -⟩ := Option.map_eq_some_iff.mp h
    exact List.mem_cons_of_mem _ (List.mem_cons_of_mem _ (ih hr'))
  | case3 rest => exact List.mem_cons_self
  | case4 => cases h
  | case5 c rest hne hquote hback ih =>
    obtain ⟨r', hr', -⟩ := Option.map_eq_some_iff.mp h
    exact List.mem_cons_of_mem _ (ih hr')

/-- **A string literal that is closed**: its closing quote stands before the tail if there is none in it. -/
theorem untilQuote_append {quote : Char} (hback : quote ≠ '\\') {inner rest : List Char}
    (hquote : quote ∉ tail) (h : untilQuote quote (cs ++ tail) = some (inner, rest)) :
    ∃ left, left <:+ cs ∧ rest = left ++ tail ∧
      ∀ tail', untilQuote quote (cs ++ tail') = some (inner, left ++ tail') := by
  fun_induction untilQuote quote cs generalizing inner with
  | case1 => exact absurd (mem_of_untilQuote h) hquote
  | case2 c cs ih =>
    obtain ⟨⟨inner, rest⟩, hrest, heq⟩ := Option.map_eq_some_iff.mp h
    cases heq
    obtain ⟨left, hleft, rfl, hfollow⟩ := ih hrest
    refine ⟨left, hleft.trans (List.suffix_append ['\\', c] cs), rfl, fun tail' => ?_⟩
    exact Option.map_eq_some_iff.mpr ⟨_, hfollow tail', rfl⟩
  | case3 cs =>
    rw [List.cons_append, untilQuote_cons hback, if_pos rfl] at h
    cases h
    refine ⟨cs, List.suffix_cons quote cs, rfl, fun tail' => ?_⟩
    rw [List.cons_append, untilQuote_cons hback, if_pos rfl]
  | case4 cs hnot hne =>
    -- A backslash at the end takes the next character along, and no quote comes after it.
    exfalso
    cases cs with
    | cons c cs => exact hnot c cs rfl rfl
    | nil =>
      cases tail with
      | nil => simp [untilQuote, hne] at h
      | cons d tail =>
        obtain ⟨r, hr, -⟩ := Option.map_eq_some_iff.mp h
        exact hquote (List.mem_cons_of_mem d (mem_of_untilQuote hr))
  | case5 c cs hnot hquote' hc ih =>
    rw [List.cons_append, untilQuote_cons hc, if_neg hquote'] at h
    obtain ⟨⟨inner, rest⟩, hrest, heq⟩ := Option.map_eq_some_iff.mp h
    cases heq
    obtain ⟨left, hleft, rfl, hfollow⟩ := ih hrest
    refine ⟨left, hleft.trans (List.suffix_cons c cs), rfl, fun tail' => ?_⟩
    rw [List.cons_append, untilQuote_cons hc, if_neg hquote']
    exact Option.map_eq_some_iff.mpr ⟨_, hfollow tail', rfl⟩

/-- **A string literal is read before any tail.** -/
theorem readString_append {quote : Char} (hback : quote ≠ '\\') (hquote : quote ∉ tail) {token : Token}
    {rest : List Char} (h : readString quote (cs ++ tail) = (token, rest))
    (hunbroken : ∀ problem, token ≠ .broken problem) :
    ∃ left, left <:+ cs ∧ rest = left ++ tail ∧
      ∀ tail', readString quote (cs ++ tail') = (token, left ++ tail') := by
  unfold readString at h
  split at h
  next =>
    cases h
    exact absurd rfl (hunbroken .malformed)
  next inner after huntil =>
    obtain ⟨left, hleft, rfl, hfollow⟩ := untilQuote_append hback hquote huntil
    split at h
    next s hs =>
      cases h
      refine ⟨left, hleft, rfl, fun tail' => ?_⟩
      rw [readString, hfollow tail']
      dsimp only
      rw [hs]
    next =>
      cases h
      exact absurd rfl (hunbroken .badEscape)

theorem numberChars_suffix (part : NumberPart) (cs : List Char) : (numberChars part cs).2.2 <:+ cs := by
  induction cs generalizing part with
  | nil => exact List.suffix_refl []
  | cons c cs ih =>
    rw [numberChars]
    split
    next part _ => exact (ih part).trans (List.suffix_cons c cs)
    next => exact List.suffix_refl (c :: cs)

/-- The first digit of a number is taken. -/
theorem readNumber_suffix (hc : c.isDigit = true) : (readNumber (c :: cs)).2 <:+ cs := by
  have hwhole : (numberChars .whole (c :: cs)).2.2 <:+ cs := by
    rw [numberChars, next?_of_isDigit hc]
    exact numberChars_suffix .whole cs
  change (numberChars (numberBase (c :: cs)).1 (numberBase (c :: cs)).2).2.2 <:+ cs
  unfold numberBase
  split
  next d rest heq =>
    cases heq
    have hbased (base : Nat) : (numberChars (.based base) rest).2.2 <:+ d :: rest :=
      (numberChars_suffix (.based base) rest).trans (List.suffix_cons d rest)
    repeat' split
    · exact hbased 16
    · exact hbased 8
    · exact hbased 2
    · exact hwhole
  next => exact hwhole

/-- One token before a gap: what comes behind the gap only stays. -/
theorem readToken?_before_gap (ht : Gap tail) : readToken? (c :: (cs ++ tail)) =
    match doubleMark? c (cs.headD ' ') with
    | some m => some (.mark m, (cs ++ tail).drop 1)
    | none =>
      match singleMark? c with
      | some m => some (.mark m, cs ++ tail)
      | none =>
        if c = '\'' || c = '"' then some (readString c (cs ++ tail))
        else if c.isDigit then some ((readNumber (c :: cs)).1, (readNumber (c :: cs)).2 ++ tail)
        else if isNameStart c then
          some (.name (String.ofList (c :: cs.takeWhile isNameChar)), cs.dropWhile isNameChar ++ tail)
        else some (.broken .malformed, []) := by
  rw [← doubleMark?_append ht, ← readNumber_append ht, ← takeWhile_name_append ht,
    ← dropWhile_name_append ht]
  rfl

/-- **A token is read before any gap**, and what is left before one is left before another. -/
theorem readToken?_append {token : Token} {rest : List Char} (ht : Gap tail) (hsingle : '\'' ∉ tail)
    (hdouble : '"' ∉ tail) (h : readToken? (c :: (cs ++ tail)) = some (token, rest))
    (hunbroken : ∀ problem, token ≠ .broken problem) :
    ∃ left, left <:+ cs ∧ rest = left ++ tail ∧
      ∀ tail', Gap tail' → readToken? (c :: (cs ++ tail')) = some (token, left ++ tail') := by
  rw [readToken?_before_gap ht] at h
  split at h
  next mark hmark =>
    cases h
    have hdrop (tail : List Char) : (cs ++ tail).drop 1 = cs.drop 1 ++ tail := by
      cases cs with
      | cons d cs => rfl
      | nil =>
        rw [List.headD_nil, doubleMark?_of_isBlank (by decide)] at hmark
        cases hmark
    refine ⟨cs.drop 1, List.drop_suffix 1 cs, hdrop tail, fun tail' ht' => ?_⟩
    rw [readToken?_before_gap ht', hmark]
    dsimp only
    rw [hdrop]
  next hmark =>
    split at h
    next mark hsign =>
      cases h
      refine ⟨cs, List.suffix_refl cs, rfl, fun tail' ht' => ?_⟩
      rw [readToken?_before_gap ht', hmark, hsign]
    next hsign =>
      split at h
      next hquote =>
        rw [Option.some.injEq] at h
        have hc : c ∉ tail ∧ c ≠ '\\' := by
          rw [Bool.or_eq_true, decide_eq_true_eq, decide_eq_true_eq] at hquote
          rcases hquote with rfl | rfl
          · exact ⟨hsingle, by decide⟩
          · exact ⟨hdouble, by decide⟩
        obtain ⟨left, hleft, hrest, hfollow⟩ := readString_append hc.2 hc.1 h hunbroken
        refine ⟨left, hleft, hrest, fun tail' ht' => ?_⟩
        rw [readToken?_before_gap ht', hmark, hsign]
        dsimp only
        rw [if_pos hquote, hfollow tail']
      next hquote =>
        split at h
        next hdigit =>
          cases h
          refine ⟨_, readNumber_suffix hdigit, rfl, fun tail' ht' => ?_⟩
          rw [readToken?_before_gap ht', hmark, hsign]
          dsimp only
          rw [if_neg hquote, if_pos hdigit]
        next hdigit =>
          split at h
          next hname =>
            cases h
            refine ⟨_, List.dropWhile_suffix _, rfl, fun tail' ht' => ?_⟩
            rw [readToken?_before_gap ht', hmark, hsign]
            dsimp only
            rw [if_neg hquote, if_neg hdigit, if_pos hname]
          next =>
            cases h
            exact absurd rfl (hunbroken .malformed)

/-- No token that is read closes a region. -/
theorem readToken?_ne_closeValue {token : Token} {rest : List Char}
    (h : readToken? cs = some (token, rest)) : token ≠ .closeValue := by
  have hstring (quote : Char) (cs : List Char) : (readString quote cs).1 ≠ .closeValue := by
    unfold readString
    split
    · exact nofun
    · split <;> exact nofun
  have hinteger (n : Option Nat) : integerToken n ≠ .closeValue := by
    unfold integerToken
    split
    · split <;> exact nofun
    · exact nofun
  have hnumber (cs : List Char) : (readNumber cs).1 ≠ .closeValue := by
    unfold readNumber
    dsimp only
    split
    · exact nofun
    · split
      · exact hinteger _
      · exact hinteger _
      · split <;> exact nofun
  rintro rfl
  unfold readToken? at h
  split at h
  next => cases h
  next c cs =>
    split at h
    next => cases h
    next =>
      split at h
      next => cases h
      next =>
        split at h
        next => exact hstring c cs (congrArg Prod.fst (Option.some.inj h))
        next =>
          split at h
          next => exact hnumber (c :: cs) (congrArg Prod.fst (Option.some.inj h))
          next => split at h <;> cases h

/-! ### The tokens of a region -/

theorem isPrefixOf_append (ht : Gap tail) (hno : ¬ Region.value.ending <:+: cs) :
    Region.value.ending.isPrefixOf (cs ++ tail) = false := by
  have htail {rest : List Char} : tail ≠ '\x7d' :: rest := by
    rintro rfl
    cases ht '\x7d' rfl
  rw [Bool.eq_false_iff, ne_eq, List.isPrefixOf_iff_prefix]
  rintro ⟨rest, hrest⟩
  match cs, hno, hrest with
  | [], _, hrest => exact htail hrest.symm
  | [a], _, hrest =>
    rw [Region.ending, List.cons_append, List.singleton_append, List.singleton_append,
      List.cons.injEq] at hrest
    exact htail hrest.2.symm
  | a :: b :: cs, hno, hrest =>
    simp only [Region.ending, List.cons_append, List.nil_append, List.cons.injEq] at hrest
    obtain ⟨rfl, rfl, -⟩ := hrest
    exact hno ⟨[], cs, rfl⟩

/-- A region does not end inside a text without its ending, nor where a gap follows such a text. -/
theorem ends?_append (ht : Gap tail) (hno : ¬ Region.value.ending <:+: c :: cs) :
    Region.value.ends? (c :: (cs ++ tail)) = none := by
  have hrest : Region.value.ending.isPrefixOf (cs ++ tail) = false :=
    isPrefixOf_append ht fun h => hno (h.trans (List.suffix_cons c cs).isInfix)
  have hall : Region.value.ending.isPrefixOf (c :: (cs ++ tail)) = false :=
    isPrefixOf_append ht hno
  unfold Region.ends?
  split
  next heq =>
    cases heq
    rw [hrest]
    rfl
  next heq =>
    cases heq
    rw [hrest]
    rfl
  next =>
    rw [hall]
    rfl

/-- The steps of a region: it ends, or a token comes next. -/
theorem regionTokens_cases {r : Region} {fuel : Nat} {depth : Int} {tokens : List Token}
    {after : List Char × Bool} (h : regionTokens r (fuel + 1) depth cs = (tokens, some after)) :
    (depth = 0 ∧ r.ends? (cs.dropWhile Text.isBlank) = some after ∧ tokens = [r.closing]) ∨
      ∃ token rest more, readToken? (cs.dropWhile Text.isBlank) = some (token, rest) ∧
        (∀ problem, token ≠ .broken problem) ∧
        regionTokens r fuel (depth + token.nesting) rest = (more, some after) ∧ tokens = token :: more := by
  rw [regionTokens] at h
  dsimp only at h
  split at h
  next hends =>
    cases h
    split at hends
    next hdepth => exact Or.inl ⟨hdepth, hends, rfl⟩
    next => cases hends
  next =>
    split at h
    next => cases h
    next => cases h
    next token rest hunbroken hread =>
      rw [Prod.mk.injEq] at h
      refine Or.inr ⟨token, rest, _, hread, ?_, Prod.ext rfl h.2, h.1.symm⟩
      rintro problem rfl
      exact hunbroken problem rfl

theorem regionTokens_closing {r : Region} {after : List Char × Bool}
    (hends : r.ends? (cs.dropWhile Text.isBlank) = some after) (fuel : Nat) :
    regionTokens r (fuel + 1) 0 cs = ([r.closing], some after) := by
  rw [regionTokens, hends]
  rfl

/-- White space before a token does not count. -/
theorem regionTokens_blank {blank : List Char} (hblank : ∀ b ∈ blank, Text.isBlank b = true) (r : Region)
    (fuel : Nat) (depth : Int) (cs : List Char) :
    regionTokens r fuel depth (blank ++ cs) = regionTokens r fuel depth cs := by
  cases fuel with
  | zero => rfl
  | succ fuel => rw [regionTokens, regionTokens, List.dropWhile_append_of_pos hblank]

theorem regionTokens_nil {r : Region} (hcs : cs.dropWhile Text.isBlank = []) (fuel : Nat) (depth : Int) :
    regionTokens r (fuel + 1) depth cs = ([], none) := by
  have hends : r.ends? [] = none := by cases r <;> rfl
  rw [regionTokens, hcs]
  dsimp only
  rw [hends, ite_self]
  rfl

theorem regionTokens_token {r : Region} {token : Token} {rest : List Char} {more : List Token}
    {after : Option (List Char × Bool)} (hends : r.ends? (cs.dropWhile Text.isBlank) = none)
    (hread : readToken? (cs.dropWhile Text.isBlank) = some (token, rest))
    (hunbroken : ∀ problem, token ≠ .broken problem) {fuel : Nat} {depth : Int}
    (hmore : regionTokens r fuel (depth + token.nesting) rest = (more, after)) :
    regionTokens r (fuel + 1) depth cs = (token :: more, after) := by
  rw [regionTokens]
  dsimp only
  rw [hends, ite_self, hread]
  cases token
  case broken problem => exact absurd rfl (hunbroken problem)
  all_goals
    dsimp only
    rw [hmore]

/-- A single brace does not end a region. -/
theorem regionTokens_brace (fuel : Nat) (depth : Int) :
    (regionTokens .value fuel depth ['\x7d']).2 = none := by
  cases fuel with
  | zero => rfl
  | succ fuel =>
    have hnothing : (regionTokens .value fuel (depth + Token.nesting (.mark .closeBrace)) []).2 = none := by
      cases fuel with
      | zero => rfl
      | succ fuel => rw [regionTokens_nil rfl]
    have hread : readToken? (['\x7d'].dropWhile Text.isBlank) = some (.mark .closeBrace, []) := rfl
    rw [regionTokens_token rfl hread nofun (Prod.ext rfl rfl)]
    exact hnothing

/-- **White space before the end of a region.** -/
structure IsGap (gap : List Char) : Prop where
  ne_nil : gap ≠ []
  blank : ∀ b ∈ gap, Text.isBlank b = true

theorem IsGap.append {gap : List Char} (h : IsGap gap) (cs : List Char) : Gap (gap ++ cs) := by
  cases gap with
  | nil => exact absurd rfl h.ne_nil
  | cons b gap =>
    rintro c ⟨rfl⟩
    exact h.blank b List.mem_cons_self

theorem IsGap.notMem {gap : List Char} (h : IsGap gap) (hc : Text.isBlank c = false)
    (hbrace : c ≠ '\x7d') : c ∉ gap ++ Region.value.ending := by
  intro hmem
  rcases List.mem_append.mp hmem with hmem | hmem
  · rw [h.blank c hmem] at hc
    cases hc
  · simp [Region.ending] at hmem
    exact hbrace hmem

/-- **The tokens of a region are those of its inside**, up to its first ending. -/
theorem regionTokens_append {gap : List Char} (hgap : IsGap gap) (fuel : Nat) (depth : Int)
    (cs : List Char) (hno : ¬ Region.value.ending <:+: cs) {tokens : List Token}
    {after : List Char × Bool}
    (h : regionTokens .value fuel depth (cs ++ (gap ++ Region.value.ending)) = (tokens, some after)) :
    ∃ us, .closeValue ∉ us ∧ tokens = us ++ [.closeValue] ∧ after = ([], false) ∧
      (∀ n, cs.length < n → regionTokens .value n depth cs = (us, none)) ∧
      ∀ w n, cs.length < n → regionTokens .value n depth (cs ++ (gap ++ (Region.value.ending ++ w))) =
        (us ++ [.closeValue], some (w, false)) := by
  induction fuel generalizing depth cs tokens with
  | zero => cases h
  | succ fuel ih =>
    have hdrop (w : List Char) : (cs ++ (gap ++ (Region.value.ending ++ w))).dropWhile Text.isBlank =
        if (cs.dropWhile Text.isBlank).isEmpty then Region.value.ending ++ w
        else cs.dropWhile Text.isBlank ++ (gap ++ (Region.value.ending ++ w)) := by
      rw [List.dropWhile_append, List.dropWhile_append_of_pos hgap.blank]
      rfl
    have hstart := hdrop []
    rw [List.append_nil] at hstart
    have hlength : (cs.dropWhile Text.isBlank).length ≤ cs.length := (List.dropWhile_suffix _).length_le
    cases hcs : cs.dropWhile Text.isBlank with
    | nil =>
      simp only [hcs, List.isEmpty_nil, if_true] at hdrop hstart
      rcases regionTokens_cases h with ⟨rfl, hends, rfl⟩ | ⟨token, rest, more, hread, -, hmore, -⟩
      · rw [hstart] at hends
        cases hends
        refine ⟨[], nofun, rfl, rfl, fun n hn => ?_, fun w n hn => ?_⟩
        · obtain ⟨n, rfl⟩ : ∃ k, n = k + 1 := ⟨n - 1, by omega⟩
          exact regionTokens_nil hcs n 0
        · obtain ⟨n, rfl⟩ : ∃ k, n = k + 1 := ⟨n - 1, by omega⟩
          refine regionTokens_closing ?_ n
          rw [hdrop]
          rfl
      · rw [hstart] at hread
        cases hread
        have hnone := regionTokens_brace fuel (depth + Token.nesting (.mark .closeBrace))
        rw [hmore] at hnone
        cases hnone
    | cons c rest =>
      simp only [hcs, List.isEmpty_cons, Bool.false_eq_true, if_false, List.cons_append] at hdrop hstart
      rw [hcs, List.length_cons] at hlength
      have hno' : ¬ Region.value.ending <:+: c :: rest := fun hmem =>
        hno (hmem.trans (hcs ▸ (List.dropWhile_suffix _).isInfix))
      have hends {tail : List Char} (ht : Gap tail) : Region.value.ends? (c :: (rest ++ tail)) = none :=
        ends?_append ht hno'
      rcases regionTokens_cases h with ⟨-, hended, -⟩ | ⟨token, after', more, hread, hunbroken, hmore, rfl⟩
      · rw [hstart, hends (hgap.append _)] at hended
        cases hended
      · rw [hstart] at hread
        obtain ⟨left, hleft, rfl, hfollow⟩ := readToken?_append (hgap.append _)
          (hgap.notMem (by decide) (by decide)) (hgap.notMem (by decide) (by decide)) hread hunbroken
        have hleftLength : left.length ≤ rest.length := hleft.length_le
        obtain ⟨us, hus, rfl, rfl, hinside, houtside⟩ := ih (depth + token.nesting) left
          (fun hmem => hno' (hmem.trans (hleft.trans (List.suffix_cons c rest)).isInfix)) hmore
        refine ⟨token :: us, ?_, rfl, rfl, fun n hn => ?_, fun w n hn => ?_⟩
        · rw [List.mem_cons, not_or]
          exact ⟨(readToken?_ne_closeValue hread).symm, hus⟩
        · obtain ⟨n, rfl⟩ : ∃ k, n = k + 1 := ⟨n - 1, by omega⟩
          have hgap' : Gap [] := nofun
          have hread' := hfollow [] hgap'
          have hends' := hends hgap'
          rw [List.append_nil] at hread' hends'
          rw [List.append_nil] at hread'
          rw [← hcs] at hread' hends'
          exact regionTokens_token hends' hread' hunbroken (hinside n (by omega))
        · obtain ⟨n, rfl⟩ : ∃ k, n = k + 1 := ⟨n - 1, by omega⟩
          have hread' := hfollow _ (hgap.append (Region.value.ending ++ w))
          have hends' := hends (hgap.append (Region.value.ending ++ w))
          rw [← hdrop] at hread' hends'
          exact regionTokens_token hends' hread' hunbroken (houtside w n (by omega))

/-- A region that does not end has no token that closes it. -/
theorem closeValue_notMem_of_open (fuel : Nat) (depth : Int) (cs : List Char)
    (h : (regionTokens .value fuel depth cs).2 = none) :
    .closeValue ∉ (regionTokens .value fuel depth cs).1 := by
  induction fuel generalizing depth cs with
  | zero => exact List.not_mem_nil
  | succ fuel ih =>
    rw [regionTokens] at h ⊢
    dsimp only at h ⊢
    split at h
    next => cases h
    next =>
      split at h
      next => exact List.not_mem_nil
      next problem _ _ =>
        rw [List.mem_singleton]
        simp
      next token rest hunbroken hread =>
        rw [List.mem_cons, not_or]
        exact ⟨(readToken?_ne_closeValue hread).symm, ih _ rest h⟩

end

end Runsheet.Expression
