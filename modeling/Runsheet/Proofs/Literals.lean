import Mathlib.Data.Nat.Digits.Defs
import Runsheet.Proofs.Braces
import Runsheet.Proofs.Builtins

/-!
# Integers in assignments

Digits on the right side of an assignment stand for themselves, and digits in braces are an expression.  The two
are read by readers of their own: the first keeps to integers of 64 bits with a sign, and the second goes far
beyond them.  They agree, with leading zeros and without, on all integers that the first one has.

* `Decimal.numberOf` — the number that digits write;
* `Expression.Expr.read_digits` — digits as an expression;
* `Builtin.literalOf_digits` — digits that stand for themselves;
* `Builtin.Assigned` — what an assignment does that is completed;
* `digits_are_assigned` — the result;
* `literal_outside_signed_range` — the first integer on which the two readers part.
-/

namespace Runsheet

open Runsheet.Expression

namespace Decimal

/-- **The number that decimal digits write**: the last digit counts ones, the one before it tens, and so on. -/
def numberOf (cs : List Char) : Nat :=
  Nat.ofDigits 10 (cs.reverse.map fun c => c.toNat - '0'.toNat)

theorem numberOf_concat (cs : List Char) (c : Char) :
    numberOf (cs ++ [c]) = 10 * numberOf cs + (c.toNat - '0'.toNat) := by
  rw [numberOf, List.reverse_append, List.reverse_singleton, List.singleton_append, List.map_cons,
    Nat.ofDigits_cons, ← numberOf, Nat.add_comm]

theorem digit_bounds {c : Char} (h : c.isDigit = true) : 48 ≤ c.toNat ∧ c.toNat ≤ 57 := by
  simp only [Char.isDigit, ge_iff_le, Bool.and_eq_true, decide_eq_true_eq] at h
  exact ⟨UInt32.le_iff_toNat_le.mp h.1, UInt32.le_iff_toNat_le.mp h.2⟩

theorem digitValue?_of_isDigit {c : Char} (h : c.isDigit = true) :
    digitValue? c = some (c.toNat - '0'.toNat) := by
  obtain ⟨hlow, hhigh⟩ := digit_bounds h
  simp [digitValue?, hlow, hhigh]

/-- Reading digits after others goes on with the number of these. -/
theorem digitsFrom?_digits {cs : List Char} (h : ∀ c ∈ cs, c.isDigit = true) (before : List Char) :
    digitsFrom? 10 (numberOf before) cs = some (numberOf (before ++ cs)) := by
  induction cs generalizing before with
  | nil => simp [digitsFrom?]
  | cons c cs ih =>
      have hc : c.isDigit = true := h c List.mem_cons_self
      obtain ⟨hlow, hhigh⟩ := digit_bounds hc
      have hdigit : c.toNat - '0'.toNat < 10 := by
        have hzero : '0'.toNat = 48 := rfl
        omega
      have hnext : numberOf before * 10 + (c.toNat - '0'.toNat) = numberOf (before ++ [c]) := by
        rw [numberOf_concat]
        omega
      have hrest := ih (fun d hd => h d (List.mem_cons_of_mem c hd)) (before ++ [c])
      rw [List.append_assoc, List.singleton_append] at hrest
      rw [digitsFrom?, digitValue?_of_isDigit hc]
      dsimp only [Option.bind_eq_bind, Option.bind_some]
      rw [if_pos hdigit, hnext, hrest]

/-- **Digits are read as the number that they write.** -/
theorem natural?_digits {cs : List Char} (hne : cs ≠ []) (h : ∀ c ∈ cs, c.isDigit = true) :
    natural? 10 cs = some (numberOf cs) := by
  have hread := digitsFrom?_digits h []
  cases cs with
  | nil => exact absurd rfl hne
  | cons c cs => exact hread

end Decimal

/-! ### Digits as an expression -/

namespace Expression

theorem next?_of_isDigit {c : Char} (h : c.isDigit = true) : NumberPart.whole.next? c = some .whole := by
  have hdot : c ≠ '.' := by
    rintro rfl
    cases h
  have hlower : c ≠ 'e' := by
    rintro rfl
    cases h
  have hupper : c ≠ 'E' := by
    rintro rfl
    cases h
  simp [NumberPart.next?, hdot, hlower, hupper, h]

theorem numberChars_digits {cs : List Char} (h : ∀ c ∈ cs, c.isDigit = true) :
    numberChars .whole cs = (cs, .whole, []) := by
  induction cs with
  | nil => rfl
  | cons c cs ih =>
      rw [numberChars, next?_of_isDigit (h c List.mem_cons_self)]
      dsimp only
      rw [ih fun d hd => h d (List.mem_cons_of_mem c hd)]

/-- A leading zero is no mark of a base where a digit follows. -/
theorem numberBase_digits {cs : List Char} (h : ∀ c ∈ cs, c.isDigit = true) :
    numberBase cs = (.whole, cs) := by
  have hletter {c : Char} (hc : c ∈ cs) (letter : Char) (hnot : letter.isDigit = false) : c ≠ letter := by
    rintro rfl
    rw [h c hc] at hnot
    cases hnot
  unfold numberBase
  split
  next c rest =>
    have hmem : c ∈ '0' :: c :: rest := List.mem_cons_of_mem _ List.mem_cons_self
    simp [hletter hmem _ (by decide : 'x'.isDigit = false), hletter hmem _ (by decide : 'X'.isDigit = false),
      hletter hmem _ (by decide : 'o'.isDigit = false), hletter hmem _ (by decide : 'O'.isDigit = false),
      hletter hmem _ (by decide : 'b'.isDigit = false), hletter hmem _ (by decide : 'B'.isDigit = false)]
  next => rfl

theorem readNumber_digits {cs : List Char} (hne : cs ≠ []) (h : ∀ c ∈ cs, c.isDigit = true)
    (hbound : Decimal.numberOf cs < 2 ^ 128) :
    readNumber cs = (.integer (Decimal.numberOf cs), []) := by
  have hline {c : Char} (hc : c ∈ cs) : c ≠ '_' := by
    rintro rfl
    cases h '_' hc
  have hlast : cs.getLast? ≠ some '_' := fun hlast => hline (List.mem_of_getLast? hlast) rfl
  have hfilter : cs.filter (· ≠ '_') = cs := by
    rw [List.filter_eq_self]
    intro c hc
    exact decide_eq_true (hline hc)
  have hpow : Decimal.numberOf cs < Nat.pow 2 128 := hbound
  unfold readNumber
  dsimp only
  rw [numberBase_digits h]
  dsimp only
  rw [numberChars_digits h]
  dsimp only
  rw [if_neg hlast, hfilter, Decimal.natural?_digits hne h, integerToken, if_pos hpow]

theorem isBlank_of_isDigit {c : Char} (h : c.isDigit = true) : Text.isBlank c = false := by
  obtain ⟨hlow, hhigh⟩ := Decimal.digit_bounds h
  rw [Bool.eq_false_iff]
  intro hblank
  simp only [Text.isBlank, Bool.or_eq_true, Bool.and_eq_true, decide_eq_true_eq, beq_iff_eq] at hblank
  omega

theorem readToken?_digits {c : Char} {cs : List Char} (h : ∀ d ∈ c :: cs, d.isDigit = true)
    (hbound : Decimal.numberOf (c :: cs) < 2 ^ 128) :
    readToken? (c :: cs) = some (.integer (Decimal.numberOf (c :: cs)), []) := by
  have hc : c.isDigit = true := h c List.mem_cons_self
  have hne {mark : Char} (hmark : mark.isDigit = false) : c ≠ mark := by
    rintro rfl
    rw [hc] at hmark
    cases hmark
  have hdouble (d : Char) : doubleMark? c d = none := by
    unfold doubleMark?
    split <;> first | rfl | cases hc
  have hsingle : singleMark? c = none := by
    unfold singleMark?
    split <;> first | rfl | cases hc
  have hquote : ¬ (c = '\'' || c = '"') = true := by
    simp [hne (by decide : '\''.isDigit = false), hne (by decide : '"'.isDigit = false)]
  unfold readToken?
  dsimp only
  rw [hdouble, hsingle]
  dsimp only
  rw [if_neg hquote, if_pos hc, readNumber_digits (List.cons_ne_nil c cs) h hbound]

/-- Digits are one token. -/
theorem tokens_digits {cs : List Char} (hne : cs ≠ []) (h : ∀ c ∈ cs, c.isDigit = true)
    (hbound : Decimal.numberOf cs < 2 ^ 128) : tokens cs = [.integer (Decimal.numberOf cs)] := by
  cases cs with
  | nil => exact absurd rfl hne
  | cons c cs =>
      have hc : c.isDigit = true := h c List.mem_cons_self
      have hstart : (c :: cs).dropWhile Text.isBlank = c :: cs := by
        rw [List.dropWhile_cons_of_neg (by rw [isBlank_of_isDigit hc]; exact Bool.false_ne_true)]
      have hends : Region.value.ends? (c :: cs) = none := by
        have hbrace : Region.value.ending.isPrefixOf (c :: cs) = false := by
          have hne : '\x7d' ≠ c := by
            rintro rfl
            cases hc
          rw [Region.ending, List.isPrefixOf_cons_cons, beq_eq_false_iff_ne.mpr hne, Bool.false_and]
        unfold Region.ends?
        split
        next heq =>
          cases heq
          cases hc
        next heq =>
          cases heq
          cases hc
        next => rw [hbrace]; rfl
      unfold tokens regionTokens
      dsimp only
      rw [hstart, if_pos rfl, hends, readToken?_digits h hbound]
      rfl

/-- **Digits are an expression that is the number which they write.** -/
theorem Expr.read_digits {digits : String} (hne : digits ≠ "") (h : ∀ c ∈ digits.toList, c.isDigit = true)
    (hbound : Decimal.numberOf digits.toList < 2 ^ 128) :
    Expr.read digits = .ok (.literal (.int (Decimal.numberOf digits.toList))) := by
  have hlist : digits.toList ≠ [] := fun hnil => hne (String.toList_eq_nil_iff.mp hnil)
  rw [Expr.read, tokens_digits hlist h hbound]
  generalize Decimal.numberOf digits.toList = n
  with_unfolding_all rfl

end Expression

/-! ### Digits that stand for themselves -/

namespace Builtin

theorem integerOf?_digits {cs : List Char} (hne : cs ≠ []) (h : ∀ c ∈ cs, c.isDigit = true) :
    integerOf? cs = if Decimal.numberOf cs < 2 ^ 63 then some (Decimal.numberOf cs : Int) else none := by
  rw [integerOf?, Decimal.natural?_digits hne h]
  rfl

/-- **Digits stand for the number that they write** if it is below the sixty-third power of two, and for the
text that they are from there on. -/
theorem literalOf_digits {digits : String} (hne : digits ≠ "")
    (h : ∀ c ∈ digits.toList, c.isDigit = true) :
    literalOf digits = if Decimal.numberOf digits.toList < 2 ^ 63
      then .ofInt (Decimal.numberOf digits.toList) else .string digits := by
  have hlist : digits.toList ≠ [] := fun hnil => hne (String.toList_eq_nil_iff.mp hnil)
  have htrue : digits ≠ "true" := by
    rintro rfl
    cases h 't' (by decide)
  have hfalse : digits ≠ "false" := by
    rintro rfl
    cases h 'f' (by decide)
  rw [literalOf, if_neg htrue, if_neg hfalse, integerOf?_digits hlist h]
  by_cases hsigned : Decimal.numberOf digits.toList < 2 ^ 63
  · rw [if_pos hsigned, if_pos hsigned]
  · rw [if_neg hsigned, if_neg hsigned]

/-- **An assignment is completed**, and all that it does to the context is that it stores a value under a key. -/
structure Assigned (e : Evaluator) (b : Brief) (w : World) (data key : String) (value : Json) : Prop where
  completed : (assign e { b with data := some data } w).1 = .ok .completed
  context : (assign e { b with data := some data } w).2.context = w.context.put key value

variable {e : Evaluator} {b : Brief} {w : World} {name right data : String} {value : Json}

/-- An assignment whose right side has a value is completed. -/
theorem assigned_of_value (hname : '=' ∉ name.toList) (hsome : Text.isBlankText name = false)
    (hvalue : Source.valueIn e b w.context (sourceOf (Text.trim right)) = .ok value) :
    Assigned e b w (name ++ " = " ++ right) (Text.trim name) value := by
  have hread : readAssignment? (name ++ " = " ++ right) =
      some (Text.trim name, sourceOf (Text.trim right)) := by
    refine readAssignment?_eq_some_iff.mpr
      ⟨(name ++ " ").toList, (" " ++ right).toList, by simp, ?_, ?_, ?_, ?_⟩
    · simpa using hname
    · rw [String.ofList_toList]
      have htrim : Text.trim ("" ++ name ++ " ") = Text.trim name :=
        Text.trim_append (by decide) (by decide) name
      rw [← htrim, String.empty_append]
    · intro hempty
      have hblank := Text.isBlankText_iff.mpr (Text.trim_eq_empty_iff.mp hempty)
      rw [hsome] at hblank
      cases hblank
    · have htrim : Text.trim (" " ++ right ++ "") = Text.trim right :=
        Text.trim_append (by decide) (by decide) right
      rw [String.ofList_toList, ← htrim, String.append_empty]
  have hassign : assign e { b with data := some (name ++ " = " ++ right) } w =
      assign.stored w (Text.trim name) value := by
    unfold assign
    dsimp only
    rw [hread]
    unfold sourceOf at hvalue ⊢
    split at hvalue
    next hplain =>
      cases hvalue
      rw [if_pos hplain]
    next hplain =>
      have hevaluate : w.context.evaluate e (Text.trim right) b.vars = .ok value := hvalue
      rw [if_neg hplain]
      dsimp only
      rw [hevaluate]
  exact ⟨congrArg Prod.fst hassign, congrArg (fun r => r.2.context) hassign⟩

end Builtin

namespace Text

/-- A text without blanks is trimmed to itself. -/
theorem trim_eq_self {s : String} (h : ∀ c ∈ s.toList, isBlank c = false) : trim s = s := by
  have hnothing {cs : List Char} (hcs : ∀ c ∈ cs, isBlank c = false) : cs.dropWhile isBlank = cs := by
    cases cs with
    | nil => rfl
    | cons c cs =>
        rw [List.dropWhile_cons_of_neg (by rw [hcs c List.mem_cons_self]; exact Bool.false_ne_true)]
  have hreverse : ∀ c ∈ s.toList.reverse, isBlank c = false := fun c hc => h c (List.mem_reverse.mp hc)
  rw [trim, trimChars, dropRightWhile, hnothing h, hnothing hreverse, List.reverse_reverse,
    String.ofList_toList]

end Text

namespace Evaluator

/-- **Digits in braces** have the integer that they write for their value. -/
theorem evaluateIn_digits {digits : String} (hne : digits ≠ "") (h : ∀ c ∈ digits.toList, c.isDigit = true)
    (hbound : Decimal.numberOf digits.toList < 2 ^ 64) (s : Setting) (vars : Vars) :
    evaluateIn s (openMark ++ (" " ++ digits ++ " ") ++ closeMark) vars =
      .ok (.ofInt (Decimal.numberOf digits.toList)) := by
  have hblank : ∀ c ∈ digits.toList, Text.isBlank c = false := fun c hc => isBlank_of_isDigit (h c hc)
  have htrim : Text.trim digits = digits := Text.trim_eq_self hblank
  have hbrace {part : String} (mark : Char) (hpart : mark ∈ part.toList) (hmark : mark.isDigit = false) :
      Text.contains digits part = false := by
    rw [Bool.eq_false_iff]
    intro hcontains
    have hmem : mark ∈ digits.toList := (Text.contains_iff_infix.mp hcontains).subset hpart
    rw [h mark hmem] at hmark
    cases hmark
  have hbare : Bare digits := by
    refine ⟨?_, hbrace '\x7b' (by decide) (by decide), hbrace '\x7d' (by decide) (by decide)⟩
    rw [Bool.eq_false_iff]
    intro hall
    have hempty := Text.trim_eq_empty_iff.mpr (Text.isBlankText_iff.mp hall)
    exact hne (htrim.symm.trans hempty)
  have hbraces : InBraces (openMark ++ (" " ++ digits ++ " ") ++ closeMark) digits :=
    ⟨"", " ", " ", "", by decide, by decide, by decide, by decide, by simp⟩
  have hread : Expr.read digits = .ok (.literal (.int (Decimal.numberOf digits.toList))) :=
    Expr.read_digits hne h (by omega)
  have hholds : Json.holdsInt (Decimal.numberOf digits.toList) = true := by
    have hlow : Int.pow 2 63 = 9223372036854775808 := rfl
    have hhigh : Int.pow 2 64 = 18446744073709551616 := rfl
    rw [Json.holdsInt_iff]
    omega
  have hvalue : valueOf s digits vars = .ok (.int (Decimal.numberOf digits.toList)) := by
    rw [valueOf, hread]
    rfl
  have hdata : dataOf (.int (Decimal.numberOf digits.toList)) =
      .ok (.ofInt (Decimal.numberOf digits.toList)) := by
    rw [dataOf, Value.toJson, if_pos hholds]
    rfl
  rw [evaluateIn, formOf_of_inBraces hbare hbraces, htrim]
  exact bind_eq_ok.mpr ⟨_, hvalue, hdata⟩

end Evaluator

open Builtin

/-- **Digits are assigned alike, in braces and without, as far as integers of 64 bits with a sign go.**  Let there
be a text of decimal digits, with leading zeros or without, that writes a number below the sixty-fourth power of
two.  For every name that an assignment can have, in every setting, for every task and over every context:

* the digits in braces are an expression: the assignment is completed and stores the number as an integer;
* the digits alone stand for themselves: below the sixty-third power of two the assignment is completed and stores
  the same integer;
* from there on the assignment of the digits alone is completed as well, and stores them as the text that they
  are. -/
theorem digits_are_assigned {name digits : String} (hname : '=' ∉ name.toList)
    (hsome : Text.isBlankText name = false) (hdigits : digits ≠ "")
    (hall : ∀ c ∈ digits.toList, c.isDigit = true)
    (hbound : Decimal.numberOf digits.toList < 2 ^ 64) (s : Setting) (b : Brief) (w : World) :
    Assigned (.standard s) b w (name ++ " = " ++ ("\x7b\x7b " ++ digits ++ " \x7d\x7d")) (Text.trim name)
      (.ofInt (Decimal.numberOf digits.toList)) ∧
    (Decimal.numberOf digits.toList < 2 ^ 63 →
      Assigned (.standard s) b w (name ++ " = " ++ digits) (Text.trim name)
        (.ofInt (Decimal.numberOf digits.toList))) ∧
    (2 ^ 63 ≤ Decimal.numberOf digits.toList →
      Assigned (.standard s) b w (name ++ " = " ++ digits) (Text.trim name) (.string digits)) := by
  have hblank : ∀ c ∈ digits.toList, Text.isBlank c = false := fun c hc => isBlank_of_isDigit (hall c hc)
  have hplain : digits.toList.all Text.isAlphanumeric = true :=
    List.all_eq_true.mpr fun c hc => Text.isAlphanumeric_of_isDigit c (hall c hc)
  have hliteral : sourceOf (Text.trim digits) = .literal (literalOf digits) := by
    rw [Text.trim_eq_self hblank, sourceOf, if_pos hplain]
  have hbraces : "\x7b\x7b " ++ digits ++ " \x7d\x7d" =
      Evaluator.openMark ++ (" " ++ digits ++ " ") ++ Evaluator.closeMark := by
    rw [← String.toList_inj]
    simp [Evaluator.openMark, Evaluator.closeMark]
  have htrim : Text.trim ("\x7b\x7b " ++ digits ++ " \x7d\x7d") = "\x7b\x7b " ++ digits ++ " \x7d\x7d" := by
    have hchars : ("\x7b\x7b " ++ digits ++ " \x7d\x7d").toList =
        '\x7b' :: ('\x7b' :: ' ' :: digits.toList ++ [' ', '\x7d']) ++ ['\x7d'] := by simp
    rw [Text.trim, hchars, Text.trimChars_eq_self_of_not_blank_ends Text.isBlank _ _ _ (by decide) (by decide),
      ← hchars, String.ofList_toList]
  have hexpression : ¬ ("\x7b\x7b " ++ digits ++ " \x7d\x7d").toList.all Text.isAlphanumeric = true := by
    simp [show Text.isAlphanumeric '\x7b' = false by decide]
  have hbraced : Source.valueIn (.standard s) b w.context
      (sourceOf (Text.trim ("\x7b\x7b " ++ digits ++ " \x7d\x7d"))) =
      .ok (.ofInt (Decimal.numberOf digits.toList)) := by
    rw [htrim, sourceOf, if_neg hexpression, hbraces]
    simp only [Source.valueIn, Context.evaluate, Evaluator.standard]
    exact Evaluator.evaluateIn_digits hdigits hall hbound s (w.context.seenBy b.vars)
  have hbare : Source.valueIn (.standard s) b w.context (sourceOf (Text.trim digits)) =
      .ok (literalOf digits) := by
    rw [hliteral, Source.valueIn]
  rw [literalOf_digits hdigits hall] at hbare
  refine ⟨assigned_of_value hname hsome hbraced, fun hsigned => ?_, fun hlarge => ?_⟩
  · rw [if_pos hsigned] at hbare
    exact assigned_of_value hname hsome hbare
  · rw [if_neg (Nat.not_lt.mpr hlarge)] at hbare
    exact assigned_of_value hname hsome hbare

/-- Leading zeros do not count, and the greatest integer of 64 bits with a sign is the last that is stored alike. -/
theorem digits_are_assigned_last :
    '=' ∉ "x".toList ∧ Text.isBlankText "x" = false ∧ "009223372036854775807" ≠ "" ∧
    (∀ c ∈ "009223372036854775807".toList, c.isDigit = true) ∧
    Decimal.numberOf "009223372036854775807".toList < 2 ^ 63 ∧
    Assigned (.standard {}) { label := "set" } {} "x = 009223372036854775807" "x" (.ofInt 9223372036854775807) ∧
    Assigned (.standard {}) { label := "set" } {} "x = \x7b\x7b 009223372036854775807 \x7d\x7d" "x"
      (.ofInt 9223372036854775807) := by
  have hname : '=' ∉ "x".toList := by decide
  have hsome : Text.isBlankText "x" = false := by decide
  have hdigits : "009223372036854775807" ≠ "" := by decide
  have hall : ∀ c ∈ "009223372036854775807".toList, c.isDigit = true :=
    List.all_eq_true.mp (by decide)
  have hnumber : Decimal.numberOf "009223372036854775807".toList = 9223372036854775807 := by
    decide +kernel
  have hsigned : Decimal.numberOf "009223372036854775807".toList < 2 ^ 63 := by
    rw [hnumber]
    decide
  obtain ⟨hbraced, hbare, -⟩ := digits_are_assigned hname hsome hdigits hall (by omega) {} { label := "set" } {}
  have hliteral := hbare hsigned
  rw [hnumber] at hbraced hliteral
  exact ⟨hname, hsome, hdigits, hall, hsigned, hliteral, hbraced⟩

/-- **The first integer on which the two readers part**: in braces it is stored as the integer that it is, and
without them as a text. -/
theorem literal_outside_signed_range :
    Assigned (.standard {}) { label := "set" } {} "x = \x7b\x7b 9223372036854775808 \x7d\x7d" "x"
      (.ofInt 9223372036854775808) ∧
    Assigned (.standard {}) { label := "set" } {} "x = 9223372036854775808" "x" (.string "9223372036854775808") ∧
    Json.string "9223372036854775808" ≠ .ofInt 9223372036854775808 := by
  have hdigits : "9223372036854775808" ≠ "" := by decide
  have hall : ∀ c ∈ "9223372036854775808".toList, c.isDigit = true :=
    List.all_eq_true.mp (by decide)
  have hnumber : Decimal.numberOf "9223372036854775808".toList = 9223372036854775808 := by
    decide +kernel
  have hvalue := Evaluator.evaluateIn_digits hdigits hall (by omega) {} []
  have hliteral := literalOf_digits hdigits hall
  rw [hnumber] at hvalue hliteral
  have hbraced : Assigned (.standard {}) { label := "set" } {}
      ("x" ++ " = " ++ "\x7b\x7b 9223372036854775808 \x7d\x7d") (Text.trim "x") (.ofInt 9223372036854775808) :=
    assigned_of_value (by decide) (by decide) hvalue
  have hbare : Assigned (.standard {}) { label := "set" } {} ("x" ++ " = " ++ "9223372036854775808")
      (Text.trim "x") (.string "9223372036854775808") :=
    assigned_of_value (by decide) (by decide) (congrArg Except.ok hliteral)
  exact ⟨hbraced, hbare, nofun⟩

end Runsheet
