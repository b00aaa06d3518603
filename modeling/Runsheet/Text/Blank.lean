/-!
# White space

The characters of the Unicode property White_Space, and the operations on text that are defined
by them: trimming and cutting into words.  `trim` removes exactly the blank characters at the two
ends: `trimChars_eq_self_of_not_blank_ends` says when it changes nothing, and `trim_append` that
blanks put around a text are removed again.
-/

namespace Runsheet.Text

/-- The Unicode property White_Space. -/
def isBlank (c : Char) : Bool :=
  let n := c.toNat
  (9 ≤ n && n ≤ 13) || n == 0x20 || n == 0x85 || n == 0xA0 || n == 0x1680 ||
    (0x2000 ≤ n && n ≤ 0x200A) || n == 0x2028 || n == 0x2029 || n == 0x202F ||
    n == 0x205F || n == 0x3000

/-- Drops the characters of a class at the end of a text. -/
def dropRightWhile (p : Char → Bool) (cs : List Char) : List Char :=
  (cs.reverse.dropWhile p).reverse

/-- Drops the characters of a class at both ends of a text. -/
def trimChars (p : Char → Bool) (cs : List Char) : List Char :=
  dropRightWhile p (cs.dropWhile p)

/-- The text without the white space at its two ends. -/
def trim (s : String) : String :=
  String.ofList (trimChars isBlank s.toList)

/-- A text is blank when it holds nothing but white space. -/
def isBlankText (s : String) : Bool :=
  s.toList.all isBlank

/-- Collects words; `word` is the reversed part of the current word. -/
def wordsFrom : List Char → List Char → List (List Char)
  | [], [] => []
  | [], word => [word.reverse]
  | c :: cs, word =>
    if isBlank c then
      match word with
      | [] => wordsFrom cs []
      | _ => word.reverse :: wordsFrom cs []
    else wordsFrom cs (c :: word)

/-- The maximal runs of characters that are not blank, in order. -/
def words (cs : List Char) : List (List Char) :=
  wordsFrom cs []

theorem dropRightWhile_append_singleton (p : Char → Bool) (cs : List Char) (c : Char)
    (h : p c = false) : dropRightWhile p (cs ++ [c]) = cs ++ [c] := by
  simp [dropRightWhile, h]

/-- A text whose first and last characters are outside the class is trimmed to itself. -/
theorem trimChars_eq_self_of_not_blank_ends (p : Char → Bool) (a : Char) (cs : List Char) (b : Char)
    (ha : p a = false) (hb : p b = false) :
    trimChars p (a :: cs ++ [b]) = a :: cs ++ [b] := by
  have h : (a :: cs ++ [b]).dropWhile p = a :: cs ++ [b] := by simp [ha]
  rw [trimChars, h, dropRightWhile_append_singleton p (a :: cs) b hb]

theorem dropRightWhile_append {p : Char → Bool} {after : List Char} (h : ∀ c ∈ after, p c = true)
    (cs : List Char) : dropRightWhile p (cs ++ after) = dropRightWhile p cs := by
  have hreverse : ∀ c ∈ after.reverse, p c = true := fun c hc => h c (List.mem_reverse.mp hc)
  rw [dropRightWhile, List.reverse_append, List.dropWhile_append_of_pos hreverse, dropRightWhile]

/-- Characters of the class that are put around a text are trimmed off again. -/
theorem trimChars_append {p : Char → Bool} {before after : List Char}
    (hbefore : ∀ c ∈ before, p c = true) (hafter : ∀ c ∈ after, p c = true) (cs : List Char) :
    trimChars p (before ++ cs ++ after) = trimChars p cs := by
  rw [trimChars, List.append_assoc, List.dropWhile_append_of_pos hbefore, List.dropWhile_append,
    trimChars]
  cases hcs : cs.dropWhile p with
  | nil =>
    have hnothing : (after ++ []).dropWhile p = [] := List.dropWhile_append_of_pos hafter
    rw [List.append_nil] at hnothing
    rw [hnothing]
    rfl
  | cons c rest => exact dropRightWhile_append hafter (c :: rest)

/-- What is left of a trimmed text is a part of it. -/
theorem infix_trimChars (p : Char → Bool) (cs : List Char) : trimChars p cs <:+: cs := by
  have hright : trimChars p cs <+: cs.dropWhile p := by
    rw [← List.reverse_suffix, trimChars, dropRightWhile, List.reverse_reverse]
    exact List.dropWhile_suffix p
  exact hright.isInfix.trans (List.dropWhile_suffix p).isInfix

theorem isBlankText_iff {s : String} : isBlankText s = true ↔ ∀ c ∈ s.toList, isBlank c = true :=
  List.all_eq_true

/-- Blanks that are put around a text are trimmed off again. -/
theorem trim_append {before after : String} (hbefore : isBlankText before = true)
    (hafter : isBlankText after = true) (s : String) : trim (before ++ s ++ after) = trim s := by
  have hchars : trimChars isBlank (before ++ s ++ after).toList = trimChars isBlank s.toList := by
    rw [String.toList_append, String.toList_append]
    exact trimChars_append (isBlankText_iff.mp hbefore) (isBlankText_iff.mp hafter) s.toList
  rw [trim, hchars, trim]

end Runsheet.Text
