import Runsheet.Builtin.Condition
import Runsheet.Proofs.Variables

/-!
# Braces around an expression

A text that is one expression in double braces means what the expression means without them.  White space
inside the braces and around them does not count, and neither form is ever taken for a template, so that
the value keeps its type.

* `Evaluator.inner?_braces` — what stands between braces at both ends;
* `Evaluator.formOf_of_bare`, `Evaluator.formOf_of_inBraces` — the forms of the two texts;
* `Evaluator.eq_of_valueOf_error` — which text an error quotes;
* `Builtin.test_inOtherWords`, `Builtin.calculate_sameButLog` — the tasks that take a condition or an
  expression;
* `braces_change_nothing` — the result.
-/

namespace Runsheet

open Runsheet.Expression

/-! ### Marks and white space -/

namespace Text

/-- What occurs in a trimmed text occurs in the text. -/
theorem contains_of_contains_trim {s part : String} (h : contains (trim s) part = true) :
    contains s part = true := by
  have hpart := contains_iff_infix.mp h
  rw [trim, String.toList_ofList] at hpart
  exact contains_iff_infix.mpr (hpart.trans (infix_trimChars isBlank s.toList))

/-- Blanks around a text hold nothing of a part without blanks. -/
theorem contains_append {before after part : String} (hbefore : isBlankText before = true)
    (hafter : isBlankText after = true) (hpart : ∀ c ∈ part.toList, isBlank c = false) (s : String) :
    contains (before ++ s ++ after) part = contains s part := by
  have hdisjoint {blank : String} (hblank : isBlankText blank = true) :
      ∀ c ∈ blank.toList, c ∉ part.toList := by
    intro c hc hmem
    have htrue := isBlankText_iff.mp hblank c hc
    rw [hpart c hmem] at htrue
    cases htrue
  rw [Bool.eq_iff_iff, contains_iff_infix, contains_iff_infix, String.toList_append,
    String.toList_append]
  exact infix_append_iff (hdisjoint hbefore) (hdisjoint hafter) s.toList

end Text

namespace Evaluator

variable {text expression : String}

/-- **A bare expression** is not blank, and neither double brace occurs in it. -/
structure Bare (expression : String) : Prop where
  not_blank : Text.isBlankText expression = false
  not_open : Text.contains expression openMark = false
  not_close : Text.contains expression closeMark = false

/-- **A text is an expression in braces**: double braces stand around the expression, with white space
inside of them and around the whole, or without. -/
def InBraces (text expression : String) : Prop :=
  ∃ before left right after : String,
    Text.isBlankText before = true ∧ Text.isBlankText left = true ∧
    Text.isBlankText right = true ∧ Text.isBlankText after = true ∧
    text = before ++ (openMark ++ (left ++ expression ++ right) ++ closeMark) ++ after

theorem isBlank_of_mem_openMark : ∀ c ∈ openMark.toList, Text.isBlank c = false := by
  have hall : openMark.toList.all (fun c => !Text.isBlank c) = true := by decide
  simpa using hall

theorem isBlank_of_mem_closeMark : ∀ c ∈ closeMark.toList, Text.isBlank c = false := by
  have hall : closeMark.toList.all (fun c => !Text.isBlank c) = true := by decide
  simpa using hall

/-! ### The forms -/

/-- **What stands between braces at both ends**, if there are none inside. -/
theorem inner?_braces {inner : String} (hopen : Text.contains inner openMark = false)
    (hclose : Text.contains inner closeMark = false) :
    inner? (openMark ++ inner ++ closeMark) = some (Text.trim inner) := by
  have hchars : (openMark ++ inner ++ closeMark).toList =
      '\x7b' :: '\x7b' :: (inner.toList ++ ['\x7d', '\x7d']) := by
    simp [openMark, closeMark]
  have hsuffix : closeMark.toList <:+ '\x7b' :: '\x7b' :: (inner.toList ++ ['\x7d', '\x7d']) :=
    ⟨'\x7b' :: '\x7b' :: inner.toList, rfl⟩
  have hprefix : openMark.toList <+: '\x7b' :: '\x7b' :: (inner.toList ++ ['\x7d', '\x7d']) :=
    ⟨inner.toList ++ ['\x7d', '\x7d'], rfl⟩
  simp only [inner?, hchars]
  rw [List.isPrefixOf_iff_prefix.mpr hprefix, List.isSuffixOf_iff_suffix.mpr hsuffix]
  simp [hopen, hclose]

/-- There is nothing between braces in a text without braces. -/
theorem inner?_of_not_contains (hopen : Text.contains text openMark = false) :
    inner? text = none := by
  have hprefix : openMark.toList.isPrefixOf text.toList = false := by
    rw [Bool.eq_false_iff]
    intro hprefix
    have hwithin : openMark.toList <:+: text.toList :=
      (List.isPrefixOf_iff_prefix.mp hprefix).isInfix
    have hmark := Text.contains_iff_infix.mpr hwithin
    rw [hopen] at hmark
    cases hmark
  simp [inner?, hprefix]

/-- **A bare expression** is read without the white space around it. -/
theorem formOf_of_bare (hbare : Bare expression) :
    formOf expression = .bare (Text.trim expression) := by
  have hsome : Text.trim expression ≠ "" := by
    intro hempty
    have hblank := Text.isBlankText_iff.mpr (Text.trim_eq_empty_iff.mp hempty)
    rw [hbare.not_blank] at hblank
    cases hblank
  have hopen : Text.contains (Text.trim expression) openMark = false := by
    rw [Bool.eq_false_iff]
    intro hmark
    have hmark := Text.contains_of_contains_trim hmark
    rw [hbare.not_open] at hmark
    cases hmark
  have hplain : hasTemplates (Text.trim expression) = false := by
    rw [hasTemplates, hopen, Bool.false_and]
  simp only [formOf]
  rw [if_neg hsome, inner?_of_not_contains hopen, hplain]
  rfl

/-- **An expression in braces** is read without the braces and the white space around it. -/
theorem formOf_of_inBraces (hbare : Bare expression) (hbraces : InBraces text expression) :
    formOf text = .wrapped (Text.trim expression) := by
  obtain ⟨before, left, right, after, hbefore, hleft, hright, hafter, rfl⟩ := hbraces
  have hopen : Text.contains (left ++ expression ++ right) openMark = false := by
    rw [Text.contains_append hleft hright isBlank_of_mem_openMark, hbare.not_open]
  have hclose : Text.contains (left ++ expression ++ right) closeMark = false := by
    rw [Text.contains_append hleft hright isBlank_of_mem_closeMark, hbare.not_close]
  have htrim : Text.trim (openMark ++ (left ++ expression ++ right) ++ closeMark) =
      openMark ++ (left ++ expression ++ right) ++ closeMark := by
    have hchars : (openMark ++ (left ++ expression ++ right) ++ closeMark).toList =
        '\x7b' :: ('\x7b' :: ((left ++ expression ++ right).toList ++ ['\x7d'])) ++ ['\x7d'] := by
      simp [openMark, closeMark]
    rw [Text.trim, hchars, Text.trimChars_eq_self_of_not_blank_ends Text.isBlank _ _ _ (by decide)
      (by decide), ← hchars, String.ofList_toList]
  have hsome : openMark ++ (left ++ expression ++ right) ++ closeMark ≠ "" := by
    simp [openMark, String.append_eq_empty_iff]
  simp only [formOf]
  rw [Text.trim_append hbefore hafter, htrim, if_neg hsome, inner?_braces hopen hclose,
    Text.trim_append hleft hright]

/-! ### Which text an error quotes -/

theorem eq_of_valueOf_error {s : Setting} {vars : Vars} {error : ExpressionError}
    (h : valueOf s expression vars = .error error) :
    ∃ problem, error = .ofExpression expression problem := by
  unfold valueOf at h
  split at h
  next problem _ =>
    cases h
    exact ⟨problem, rfl⟩
  next e _ =>
    cases heval : e.eval s { vars } with
    | error problem =>
      rw [heval] at h
      cases h
      exact ⟨problem, rfl⟩
    | ok v =>
      rw [heval] at h
      cases h

end Evaluator

/-! ### Tasks -/

/-- **Two worlds are the same but for the log.** -/
def World.SameButLog (v w : World) : Prop :=
  { v with events := w.events } = w

namespace Builtin

variable {e : Evaluator} {text expression : String} {b : Brief} {w : World}

/-- **Two ends of a test differ in words alone**: the outcomes are the same, or both reports say that the
condition is not met and each of them quotes its own text. -/
def InOtherWords (text expression : String) (o o' : Outcome) : Prop :=
  o = o' ∨ o = .ok (.failed ("condition not met: " ++ text)) ∧
    o' = .ok (.failed ("condition not met: " ++ expression))

/-- One error ends two tasks alike, whatever the warnings say. -/
theorem refused_sameButLog (w : World) (warning warning' : String) (error : ExpressionError) :
    (refused w warning error).1 = (refused w warning' error).1 ∧
      (refused w warning error).2.SameButLog (refused w warning' error).2 := by
  unfold refused
  cases error.crash? with
  | none => exact ⟨rfl, rfl⟩
  | some text => exact ⟨rfl, rfl⟩

/-- Conditions that hold alike have tests that end alike. -/
theorem test_inOtherWords
    (hsame : w.context.validate e text b.vars = w.context.validate e expression b.vars) :
    InOtherWords text expression (test e { b with data := some text } w).1
      (test e { b with data := some expression } w).1 ∧
    (test e { b with data := some text } w).2.SameButLog
      (test e { b with data := some expression } w).2 := by
  simp only [test]
  rw [hsame]
  cases w.context.validate e expression b.vars with
  | error error =>
    obtain ⟨houtcome, hworld⟩ := refused_sameButLog w _ _ error
    exact ⟨Or.inl houtcome, hworld⟩
  | ok holds =>
    cases holds with
    | true => exact ⟨Or.inl rfl, rfl⟩
    | false => exact ⟨Or.inr ⟨rfl, rfl⟩, rfl⟩

/-- Texts of one value are evaluated with one outcome, and one value is stored. -/
theorem calculate_sameButLog
    (hsame : w.context.evaluate e text b.vars = w.context.evaluate e expression b.vars) :
    (calculate e { b with data := some text } w).1 =
      (calculate e { b with data := some expression } w).1 ∧
    (calculate e { b with data := some text } w).2.SameButLog
      (calculate e { b with data := some expression } w).2 := by
  simp only [calculate]
  rw [hsame]
  cases w.context.evaluate e expression b.vars with
  | error error => exact refused_sameButLog w _ _ error
  | ok v =>
    cases textOfVar? b.vars "result" with
    | none => exact ⟨rfl, rfl⟩
    | some key => exact ⟨rfl, rfl⟩

end Builtin

open Evaluator

/-- **Braces around an expression change nothing.**  An expression is not blank and holds no double brace, and
a text puts it in double braces, with any white space inside of them and around them.  Then, in every setting
and over all variables:

* the syntax of the text is that of the expression, and what is read is the expression without the white space
  at its ends;
* value and truth of the text are those of the expression, and both are found by evaluating it: no text is
  rendered, so that the value keeps its type;
* an error quotes the expression without the white space at its ends;
* a guard, a test and an evaluation that are given the text end as with the expression: what they say in the
  log, and the words for a condition that is not met, quote what they are given. -/
theorem braces_change_nothing {text expression : String} (hbare : Bare expression)
    (hbraces : InBraces text expression) :
    (checkSyntax text = checkSyntax expression ∧
      checkSyntax expression = (discard (Expr.read (Text.trim expression))).mapError
        (.ofExpression (Text.trim expression))) ∧
    (∀ s vars, evaluateIn s text vars = evaluateIn s expression vars ∧
      evaluateIn s expression vars = valueOf s (Text.trim expression) vars >>= dataOf) ∧
    (∀ s vars, validateIn s text vars = validateIn s expression vars ∧
      validateIn s expression vars = Value.truthy <$> valueOf s (Text.trim expression) vars) ∧
    (∀ s vars error, valueOf s (Text.trim expression) vars = .error error →
      ∃ problem, error = .ofExpression (Text.trim expression) problem) ∧
    (∀ s (settings : Settings) c, Settings.holds { settings with guard := some text } (.standard s) c =
      Settings.holds { settings with guard := some expression } (.standard s) c) ∧
    (∀ s (b : Brief) w,
      Builtin.InOtherWords text expression
        (Builtin.test (.standard s) { b with data := some text } w).1
        (Builtin.test (.standard s) { b with data := some expression } w).1 ∧
      (Builtin.test (.standard s) { b with data := some text } w).2.SameButLog
        (Builtin.test (.standard s) { b with data := some expression } w).2) ∧
    ∀ s (b : Brief) w,
      (Builtin.calculate (.standard s) { b with data := some text } w).1 =
        (Builtin.calculate (.standard s) { b with data := some expression } w).1 ∧
      (Builtin.calculate (.standard s) { b with data := some text } w).2.SameButLog
        (Builtin.calculate (.standard s) { b with data := some expression } w).2 := by
  have hbareForm : formOf expression = .bare (Text.trim expression) := formOf_of_bare hbare
  have hbracedForm : formOf text = .wrapped (Text.trim expression) :=
    formOf_of_inBraces hbare hbraces
  have hevaluate (s : Setting) (vars : Vars) :
      evaluateIn s text vars = evaluateIn s expression vars := by
    rw [evaluateIn, evaluateIn, hbareForm, hbracedForm]
  have hvalidate (s : Setting) (vars : Vars) :
      validateIn s text vars = validateIn s expression vars := by
    rw [validateIn, validateIn, hbareForm, hbracedForm]
  refine ⟨⟨?_, ?_⟩, fun s vars => ⟨hevaluate s vars, ?_⟩, fun s vars => ⟨hvalidate s vars, ?_⟩,
    fun s vars error => eq_of_valueOf_error, ?_, ?_, ?_⟩
  · rw [checkSyntax, checkSyntax, hbareForm, hbracedForm]
  · rw [checkSyntax, hbareForm]
  · rw [evaluateIn, hbareForm]
  · rw [validateIn, hbareForm]
  · intro s settings c
    simp only [Settings.holds, Context.validate, standard]
    exact hvalidate s (c.seenBy settings.vars)
  · intro s b w
    apply Builtin.test_inOtherWords
    simp only [Context.validate, standard]
    exact hvalidate s (w.context.seenBy b.vars)
  · intro s b w
    apply Builtin.calculate_sameButLog
    simp only [Context.evaluate, standard]
    exact hevaluate s (w.context.seenBy b.vars)

/-- A map in braces of its own: its last brace stands beside two more, and a no-break space stands outside. -/
theorem braces_change_nothing_map :
    Bare "\x7b1: 2\x7d" ∧ InBraces "\x7b\x7b\x7b1: 2\x7d\x7d\x7d\u00a0" "\x7b1: 2\x7d" ∧
    validateIn {} "\x7b\x7b\x7b1: 2\x7d\x7d\x7d\u00a0" [] = .ok true := by
  have hbare : Bare "\x7b1: 2\x7d" := ⟨by decide, by decide, by decide⟩
  have hbraces : InBraces "\x7b\x7b\x7b1: 2\x7d\x7d\x7d\u00a0" "\x7b1: 2\x7d" :=
    ⟨"", "", "", "\u00a0", by decide, by decide, by decide, by decide, by decide⟩
  refine ⟨hbare, hbraces, ?_⟩
  obtain ⟨-, -, hvalidate, -⟩ := braces_change_nothing hbare hbraces
  obtain ⟨hsame, hvalue⟩ := hvalidate {} []
  rw [hsame, hvalue]
  with_unfolding_all rfl

end Runsheet
