/-!
# Searching in text

Cutting a text at every occurrence of a separator, and the operations defined by it: replacing is
cutting at the old text and joining the pieces with the new one.  `eq_of_cutAt` says what a cut at
the first occurrence of a character gives.
-/

namespace Runsheet.Text

/-- Does `part` occur in the text as a run of neighbouring characters? -/
def occursIn (part : List Char) : List Char → Bool
  | [] => part.isEmpty
  | c :: cs => part.isPrefixOf (c :: cs) || occursIn part cs

/-- Does the text `s` contain the text `part`? -/
def contains (s part : String) : Bool :=
  occursIn part.toList s.toList

theorem occursIn_iff_infix {part cs : List Char} : occursIn part cs = true ↔ part <:+: cs := by
  induction cs with
  | nil => simp [occursIn]
  | cons c cs ih =>
    rw [occursIn, Bool.or_eq_true, List.isPrefixOf_iff_prefix, ih, List.infix_cons_iff]

theorem contains_iff_infix {s part : String} : contains s part = true ↔ part.toList <:+: s.toList :=
  occursIn_iff_infix

/-- A part of which no character occurs in `before` occurs behind it. -/
theorem infix_of_infix_append {part before cs : List Char} (hbefore : ∀ c ∈ before, c ∉ part)
    (h : part <:+: before ++ cs) : part <:+: cs := by
  induction before with
  | nil => exact h
  | cons c before ih =>
    have hc : c ∉ part := hbefore c List.mem_cons_self
    rcases List.infix_cons_iff.mp h with hhere | hlater
    · cases part with
      | nil => exact List.nil_infix
      | cons d part =>
        have hhead : d = c := (List.cons_prefix_cons.mp hhere).1
        exact (hc (hhead ▸ List.mem_cons_self)).elim
    · exact ih (fun d hd => hbefore d (List.mem_cons_of_mem c hd)) hlater

/-- Characters around a text that a part does not have hold nothing of the part. -/
theorem infix_append_iff {part before after : List Char} (hbefore : ∀ c ∈ before, c ∉ part)
    (hafter : ∀ c ∈ after, c ∉ part) (cs : List Char) :
    part <:+: before ++ cs ++ after ↔ part <:+: cs := by
  constructor
  · intro h
    rw [List.append_assoc] at h
    have hfront : part <:+: cs ++ after := infix_of_infix_append hbefore h
    have hreverse : part.reverse <:+: after.reverse ++ cs.reverse := by
      rw [← List.reverse_append]
      exact List.reverse_infix.mpr hfront
    have hdisjoint : ∀ c ∈ after.reverse, c ∉ part.reverse := by
      intro c hc hpart
      exact hafter c (List.mem_reverse.mp hc) (List.mem_reverse.mp hpart)
    exact List.reverse_infix.mp (infix_of_infix_append hdisjoint hreverse)
  · intro h
    exact h.trans ⟨before, after, rfl⟩

/-- Cuts at every occurrence of a separator that is not empty; `skip` characters belong to the
separator just found, and `piece` is the reversed beginning of the current piece. -/
def splitFrom (sep : List Char) : List Char → Nat → List Char → List (List Char)
  | [], _, piece => [piece.reverse]
  | _ :: cs, skip + 1, piece => splitFrom sep cs skip piece
  | c :: cs, 0, piece =>
    if sep.isPrefixOf (c :: cs) then piece.reverse :: splitFrom sep cs (sep.length - 1) []
    else splitFrom sep cs 0 (c :: piece)

/-- The pieces between the occurrences of the separator, from left to right.  The empty separator
occurs between any two characters and at both ends. -/
def splitAll (sep cs : List Char) : List (List Char) :=
  if sep.isEmpty then [] :: cs.map ([·]) ++ [[]] else splitFrom sep cs 0 []

/-- At most `n + 1` pieces: the text is cut at the first `n` occurrences of the separator only. -/
def splitFirst (sep cs : List Char) (n : Nat) : List (List Char) :=
  let pieces := splitAll sep cs
  if pieces.length ≤ n + 1 then pieces
  else pieces.take n ++ [sep.intercalate (pieces.drop n)]

/-- Every occurrence of `old`, from left to right, is replaced by `new`. -/
def replaceAll (old new cs : List Char) : List Char :=
  new.intercalate (splitAll old cs)

/-- The text before the first occurrence of a character and the text after it. -/
def cutAt (mark : Char) : List Char → Option (List Char × List Char)
  | [] => none
  | c :: cs =>
    if c = mark then some ([], cs)
    else (cutAt mark cs).map fun parts => (c :: parts.1, parts.2)

theorem eq_of_cutAt {mark : Char} {cs before after : List Char}
    (h : cutAt mark cs = some (before, after)) :
    cs = before ++ mark :: after ∧ mark ∉ before := by
  induction cs generalizing before with
  | nil => simp [cutAt] at h
  | cons c cs ih =>
    simp only [cutAt] at h
    split at h
    · simp only [Option.some.injEq, Prod.mk.injEq] at h
      obtain ⟨rfl, rfl⟩ := h
      simp_all
    · next hc =>
      obtain ⟨⟨b, a⟩, hb, he⟩ := Option.map_eq_some_iff.1 h
      simp only [Prod.mk.injEq] at he
      obtain ⟨rfl, rfl⟩ := he
      obtain ⟨rfl, hm⟩ := ih hb
      simp [hm, Ne.symm hc]

/-- There is one cut at the first occurrence of a character. -/
theorem cutAt_append {mark : Char} {before : List Char} (h : mark ∉ before) (after : List Char) :
    cutAt mark (before ++ mark :: after) = some (before, after) := by
  induction before with
  | nil => simp [cutAt]
  | cons c cs ih =>
    have hc : c ≠ mark := Ne.symm (List.ne_of_not_mem_cons h)
    have hcs : mark ∉ cs := List.not_mem_of_not_mem_cons h
    rw [List.cons_append, cutAt, if_neg hc, ih hcs]
    rfl

theorem cutAt_eq_none_iff {mark : Char} {cs : List Char} : cutAt mark cs = none ↔ mark ∉ cs := by
  induction cs with
  | nil => simp [cutAt]
  | cons c cs ih =>
    simp only [cutAt]
    split
    · simp_all
    · next hc => simp [ih, Ne.symm hc]

end Runsheet.Text
