import Runsheet.Yaml.Token

/-!
# Scalars on one line

A text can stand as a plain scalar if nothing in it ends the scalar or gives it another meaning: a colon before
white space, a number sign after white space, or a mark at its beginning.  Between quotation marks other
characters count: the quotation mark itself and the backslash, which begins an escape.

* `isPlainLine` — the texts that stand for themselves;
* `PlainEnd`, `readPlain_line` — where such a text ends as a scalar, and that it is read up to there;
* `unquoted?` — what a text between quotation marks stands for;
* `quotedToken_line` — such a text as a scalar.
-/

namespace Runsheet.Yaml

/-! ### Places -/

namespace Cursor

variable {c : Cursor} {a b : List Char}

theorem rest_advance (h : c.rest = a ++ b) : (c.advance a.length).rest = b := by
  simp only [advance, h, List.drop_left]

theorem advance_advance (c : Cursor) (m n : Nat) : (c.advance m).advance n = c.advance (m + n) := by
  simp [advance, Nat.add_assoc]

theorem atDocumentEdge_inside (h : 0 < c.column) : c.atDocumentEdge = false := by
  have hcolumn : (c.column == 0) = false := beq_eq_false_iff_ne.mpr (by omega)
  simp only [atDocumentEdge, atDocumentMark, hcolumn, Bool.false_and, Bool.or_self]

theorem sees_cons {ch mark : Char} {cs : List Char} (h : c.rest = ch :: cs) :
    c.sees mark = decide (ch = mark) := by
  simp only [sees, h, List.head?_cons, Option.some_beq_some]
  exact Bool.beq_eq_decide_eq ch mark

end Cursor

/-! ### White space -/

/-- **A character that is part of a word**: neither a gap nor the end of a line. -/
def isSolid (c : Char) : Bool :=
  !(isGap c || isBreak c)

section

variable {c : Char}

theorem isGap_of_isSolid (h : isSolid c = true) : isGap c = false := by
  simp [isSolid] at h
  exact h.1

theorem isBreak_of_isSolid (h : isSolid c = true) : isBreak c = false := by
  simp [isSolid] at h
  exact h.2

theorem blank_of_not_isSolid (h : isSolid c = false) : (isGap c || isBreak c) = true := by
  simpa only [isSolid, Bool.not_eq_false'] using h

theorem isBreak_of_isGap (h : isGap c = true) : isBreak c = false := by
  simp only [isGap, Bool.or_eq_true, decide_eq_true_eq] at h
  rcases h with rfl | rfl <;> decide

end

/-- White space at the beginning of a text, and what comes after it. -/
theorem exists_gap (cs : List Char) : ∃ gap solid, cs = gap ++ solid ∧ (∀ b ∈ gap, isGap b = true) ∧
    ∀ a ∈ solid.head?, isGap a = false := by
  refine ⟨cs.takeWhile isGap, cs.dropWhile isGap, List.takeWhile_append_dropWhile.symm,
    List.all_eq_true.mp List.all_takeWhile, fun a ha => ?_⟩
  have hnot := List.head?_dropWhile_not isGap cs
  rw [Option.mem_def.mp ha] at hnot
  simpa using hnot

/-- White space on one line stays as it is. -/
theorem readGap_gap {gap tail : List Char} (hgap : ∀ ch ∈ gap, isGap ch = true)
    (htail : ∃ ch rest, tail = ch :: rest ∧ isSolid ch = true) (indent fuel : Nat) (hfuel : gap.length < fuel)
    (c : Cursor) (hc : c.rest = gap ++ tail) (blanks : List Char) :
    readGap indent fuel c blanks none [] =
      some ⟨blanks.reverse ++ gap, false, c.advance gap.length⟩ := by
  induction gap generalizing fuel c blanks with
  | nil =>
    obtain ⟨ch, rest, rfl, hch⟩ := htail
    obtain ⟨fuel, rfl⟩ : ∃ n, fuel = n + 1 := ⟨fuel - 1, by simp at hfuel; omega⟩
    rw [readGap, hc, List.nil_append]
    dsimp only
    rw [isGap_of_isSolid hch, isBreak_of_isSolid hch]
    simp [foldGap, Cursor.advance]
  | cons b gap ih =>
    obtain ⟨fuel, rfl⟩ : ∃ n, fuel = n + 1 := ⟨fuel - 1, by simp at hfuel; omega⟩
    rw [readGap, hc, List.cons_append]
    dsimp only
    rw [hgap b List.mem_cons_self]
    have hnext : (c.advance 1).rest = gap ++ tail := Cursor.rest_advance (a := [b]) hc
    have hmore := ih (fun ch hch => hgap ch (List.mem_cons_of_mem _ hch)) fuel
      (by simp at hfuel; omega) (c.advance 1) hnext (b :: blanks)
    simp only [if_true, Option.isSome_none, Bool.false_eq_true, if_false]
    rw [hmore, Cursor.advance_advance]
    simp [Nat.add_comm]

/-! ### Plain scalars -/

/-- **A word of a plain scalar**: it has no white space in it, and it does not end in a colon. -/
structure IsWord (w : List Char) : Prop where
  solid : ∀ ch ∈ w, isSolid ch = true
  noColon : w.getLast? ≠ some ':'

/-- Does a word end before the text: at white space, at a colon before it, or at the end of the document? -/
def EndsWord : List Char → Prop
  | [] => True
  | ch :: rest => isSolid ch = false ∨ (ch = ':' ∧ ∀ d ∈ rest.head?, isSolid d = false)

theorem plainPart_word {w tail : List Char} (hw : IsWord w) (htail : EndsWord tail) :
    plainPart false (w ++ tail) = some w := by
  induction w with
  | nil =>
    cases tail with
    | nil => rfl
    | cons ch rest =>
      rw [List.nil_append, plainPart]
      rcases htail with hblank | ⟨rfl, hrest⟩
      · rw [if_pos (blank_of_not_isSolid hblank)]
      · have hrest' : (rest.head?.all fun d => isGap d || isBreak d) = true := by
          cases rest with
          | nil => rfl
          | cons d rest => exact blank_of_not_isSolid (hrest d rfl)
        rw [if_neg (by decide), hrest']
        rfl
  | cons ch w ih =>
    have hsolid := hw.solid ch List.mem_cons_self
    have hmore : IsWord w := by
      refine ⟨fun d hd => hw.solid d (List.mem_cons_of_mem ch hd), fun hlast => hw.noColon ?_⟩
      rw [List.getLast?_cons, hlast]
      rfl
    have hcolon : (decide (ch = ':') && (w ++ tail).head?.all fun d => isGap d || isBreak d) = false := by
      rw [Bool.and_eq_false_iff]
      cases w with
      | nil => exact Or.inl (decide_eq_false fun h => hw.noColon (by rw [h]; rfl))
      | cons d w =>
        have hd := hw.solid d (List.mem_cons_of_mem ch List.mem_cons_self)
        exact Or.inr (by simpa [isSolid] using hd)
    rw [List.cons_append, plainPart, isGap_of_isSolid hsolid, isBreak_of_isSolid hsolid, hcolon, ih hmore]
    rfl

/-- Does a plain scalar on one line go on after a character?  A colon must not come before white space, nor a
number sign after it, and the last character is part of a word. -/
def isPlainAfter (before : Char) : List Char → Bool
  | [] => isSolid before && before != ':'
  | ch :: rest =>
    !isBreak ch && !(before == ':' && isGap ch) && !(isGap before && ch == '#') && isPlainAfter ch rest

/-- Can a plain scalar on one line begin with a character? -/
def beginsPlain (ch : Char) (rest : List Char) : Bool :=
  isSolid ch && (!isIndicator ch || (['-', '?', ':'].contains ch && rest.head?.any isSolid))

/-- **Can a text stand as a plain scalar on one line?** -/
def isPlainLine : List Char → Bool
  | [] => false
  | ch :: rest => beginsPlain ch rest && isPlainAfter ch rest

/-- The words of a plain scalar after its first one. -/
inductive Words : List Char → Prop
  | nil : Words []
  | cons {gap w more : List Char} {ch : Char} (hgap : ∀ b ∈ gap, isGap b = true) (hsome : gap ≠ [])
      (hword : IsWord (ch :: w)) (hnumber : ch ≠ '#') (hmore : Words more) :
      Words (gap ++ ch :: (w ++ more))

/-- The words of the rest of a plain scalar, after a character of a word or after a gap. -/
theorem exists_words {rest : List Char} : ∀ {before : Char}, isPlainAfter before rest = true →
    (isSolid before = true → ∃ w more, rest = w ++ more ∧ IsWord (before :: w) ∧ Words more) ∧
    (isGap before = true → ∃ gap ch w more, rest = gap ++ ch :: (w ++ more) ∧
      (∀ b ∈ gap, isGap b = true) ∧ IsWord (ch :: w) ∧ ch ≠ '#' ∧ Words more) := by
  induction rest with
  | nil =>
    intro before h
    rw [isPlainAfter, Bool.and_eq_true, bne_iff_ne] at h
    constructor
    · intro hsolid
      exact ⟨[], [], rfl, ⟨by simpa using hsolid, by simpa using h.2⟩, .nil⟩
    · intro hgap
      rw [isSolid, hgap] at h
      cases h.1
  | cons d rest ih =>
    intro before h
    simp only [isPlainAfter, Bool.and_eq_true, Bool.not_eq_true', Bool.and_eq_false_iff, beq_eq_false_iff_ne,
      ne_eq] at h
    obtain ⟨⟨⟨hbreak, hcolon⟩, hnumber⟩, hrest⟩ := h
    by_cases hgap : isGap d = true
    · obtain ⟨gap, ch, w, more, rfl, hall, hword, hch, hmore⟩ := (ih hrest).2 hgap
      have hall' : ∀ b ∈ d :: gap, isGap b = true := by
        intro b hb
        rcases List.mem_cons.mp hb with rfl | hb
        · exact hgap
        · exact hall b hb
      refine ⟨fun hsolid => ⟨[], _, rfl, ⟨by simpa using hsolid, ?_⟩, ?_⟩, fun _ => ?_⟩
      · have hne : before ≠ ':' := hcolon.resolve_right (by simp [hgap])
        simpa using hne
      · exact Words.cons hall' (List.cons_ne_nil d gap) hword hch hmore
      · exact ⟨d :: gap, ch, w, more, rfl, hall', hword, hch, hmore⟩
    · have hsolid : isSolid d = true := by simp [isSolid, hgap, hbreak]
      obtain ⟨w, more, rfl, hword, hmore⟩ := (ih hrest).1 hsolid
      refine ⟨fun hbefore => ⟨d :: w, more, rfl, ⟨?_, ?_⟩, hmore⟩, fun hbefore => ?_⟩
      · intro b hb
        rcases List.mem_cons.mp hb with rfl | hb
        · exact hbefore
        · exact hword.solid b hb
      · rw [List.getLast?_cons_cons]
        exact hword.noColon
      · have hne : d ≠ '#' := hnumber.resolve_left (by simp [hbefore])
        exact ⟨[], d, w, more, rfl, fun b hb => absurd hb List.not_mem_nil, hword, hne, hmore⟩

/-- **A plain scalar ends**: before a colon, or at the end of a line that no line further in follows.  The place
after it and whether a line has ended come out. -/
inductive PlainEnd (indent : Nat) (c : Cursor) : Cursor → Bool → Prop
  | colon {rest : List Char} (hc : c.rest = ':' :: rest) (hrest : ∀ d ∈ rest.head?, isSolid d = false) :
      PlainEnd indent c c false
  | line {ch : Char} {rest : List Char} {gap : Gap} (hc : c.rest = ch :: rest) (hch : isSolid ch = false)
      (hgap : readGap indent (c.rest.length + 1) c [] none [] = some gap)
      (hout : gap.after.column < indent) : PlainEnd indent c gap.after gap.broken

theorem PlainEnd.endsWord {indent : Nat} {c after : Cursor} {broken : Bool}
    (h : PlainEnd indent c after broken) : EndsWord c.rest := by
  cases h with
  | colon hc hrest =>
    rw [hc]
    exact Or.inr ⟨rfl, hrest⟩
  | line hc hch hgap hout =>
    rw [hc]
    exact Or.inl hch

/-- One word of a plain scalar, and what comes after it. -/
theorem readPlain_word {ch : Char} {w tail : List Char} {c : Cursor} (hword : IsWord (ch :: w))
    (hnumber : ch ≠ '#') (hedge : c.atDocumentEdge = false) (hc : c.rest = ch :: w ++ tail)
    (htail : EndsWord tail)
    (indent fuel : Nat) (text : List Char) (gap : Gap) :
    readPlain false indent (fuel + 1) c text gap =
      if tail.head?.any fun d => isGap d || isBreak d then
        (readGap indent (tail.length + 1) (c.advance (w.length + 1)) [] none []).bind fun next =>
          if next.after.column < indent then
            some ⟨text ++ gap.text ++ ch :: w, next.after, next.broken⟩
          else readPlain false indent fuel next.after (text ++ gap.text ++ ch :: w) next
      else some ⟨text ++ gap.text ++ ch :: w, c.advance (w.length + 1), false⟩ := by
  have hafter : (c.advance (w.length + 1)).rest = tail := Cursor.rest_advance hc
  have hpart : plainPart false c.rest = some (ch :: w) := by
    rw [hc]
    exact plainPart_word hword htail
  rw [readPlain, hedge, Cursor.sees_cons hc, decide_eq_false hnumber, hpart]
  simp only [Option.bind_eq_bind, Option.bind_some, List.isEmpty_cons, List.length_cons, hafter, Bool.or_self,
    Bool.false_eq_true, if_false, Bool.not_false, Bool.true_and, decide_eq_true_eq]

/-- **A plain scalar is read word by word.** -/
theorem readPlain_words {more : List Char} (hmore : Words more) : ∀ {ch : Char} {w tail : List Char}
    {indent : Nat} {c after : Cursor} {broken : Bool} {fuel : Nat} (text : List Char) (gap : Gap),
    IsWord (ch :: w) → ch ≠ '#' → c.atDocumentEdge = false → indent ≤ c.column + 1 → more.length < fuel →
    c.rest = ch :: w ++ (more ++ tail) →
    PlainEnd indent (c.advance (w.length + 1 + more.length)) after broken →
    readPlain false indent fuel c text gap =
      some ⟨text ++ gap.text ++ ch :: (w ++ more), after, broken⟩ := by
  induction hmore with
  | nil =>
    intro ch w tail indent c after broken fuel text gap hword hnumber hedge hindent hfuel hc hend
    obtain ⟨fuel, rfl⟩ : ∃ n, fuel = n + 1 := ⟨fuel - 1, by simp at hfuel; omega⟩
    rw [List.nil_append] at hc
    rw [List.length_nil, Nat.add_zero] at hend
    have hafter : (c.advance (w.length + 1)).rest = tail := Cursor.rest_advance hc
    have hends := hend.endsWord
    rw [hafter] at hends
    rw [readPlain_word hword hnumber hedge hc hends, List.append_nil]
    cases hend with
    | colon htail hrest =>
      rw [hafter] at htail
      rw [htail]
      rfl
    | line htail hd hgap hout =>
      rw [hafter] at htail hgap
      rw [htail] at hgap ⊢
      rw [List.head?_cons, Option.any_some, if_pos (blank_of_not_isSolid hd), hgap, Option.bind_some,
        if_pos hout]
  | @cons space u more d hspace hsome hnext hd hmore ih =>
    intro ch w tail indent c after broken fuel text gap hword hnumber hedge hindent hfuel hc hend
    obtain ⟨fuel, rfl⟩ : ∃ n, fuel = n + 1 := ⟨fuel - 1, by omega⟩
    have hsplit : c.rest = ch :: w ++ (space ++ (d :: u ++ (more ++ tail))) := by simp [hc]
    have hafter : (c.advance (w.length + 1)).rest = space ++ (d :: u ++ (more ++ tail)) :=
      Cursor.rest_advance hsplit
    obtain ⟨b, space', hb⟩ := List.exists_cons_of_ne_nil hsome
    have hblank : isSolid b = false := by
      rw [isSolid, hspace b (hb ▸ List.mem_cons_self)]
      rfl
    have hends : EndsWord (space ++ (d :: u ++ (more ++ tail))) := by
      rw [hb]
      exact Or.inl hblank
    have hsolid : ∃ ch rest, d :: u ++ (more ++ tail) = ch :: rest ∧ isSolid ch = true :=
      ⟨d, u ++ (more ++ tail), rfl, hnext.solid d List.mem_cons_self⟩
    have hgap := readGap_gap hspace hsolid indent ((space ++ (d :: u ++ (more ++ tail))).length + 1)
      (by rw [List.length_append]; omega) _ hafter []
    have hfar : (c.advance (w.length + 1)).advance space.length = c.advance (w.length + 1 + space.length) :=
      Cursor.advance_advance ..
    rw [hfar] at hgap
    have hcolumn' : (c.advance (w.length + 1 + space.length)).column = c.column + (w.length + 1 + space.length) :=
      rfl
    have hhere : ((space ++ (d :: u ++ (more ++ tail))).head?.any fun d => isGap d || isBreak d) = true := by
      rw [hb]
      exact blank_of_not_isSolid hblank
    have hrest : (c.advance (w.length + 1 + space.length)).rest = d :: u ++ (more ++ tail) := by
      rw [← hfar]
      exact Cursor.rest_advance hafter
    have hend' : PlainEnd indent ((c.advance (w.length + 1 + space.length)).advance (u.length + 1 + more.length))
        after broken := by
      have hlength : w.length + 1 + (space ++ d :: (u ++ more)).length =
          w.length + 1 + space.length + (u.length + 1 + more.length) := by
        simp only [List.length_append, List.length_cons]
        omega
      rw [Cursor.advance_advance, ← hlength]
      exact hend
    have hfuel' : more.length < fuel := by
      simp only [List.length_append, List.length_cons] at hfuel
      omega
    have hread := ih (text ++ gap.text ++ ch :: w) ⟨space, false, c.advance (w.length + 1 + space.length)⟩
      hnext hd (Cursor.atDocumentEdge_inside (by omega)) (by omega) hfuel' hrest hend'
    rw [readPlain_word hword hnumber hedge hsplit hends, if_pos hhere, hgap, Option.bind_some]
    dsimp only
    rw [if_neg (by omega)]
    exact hread.trans (by simp)

theorem not_number_of_begins {ch : Char} {rest : List Char} (h : beginsPlain ch rest = true) : ch ≠ '#' := by
  rintro rfl
  rw [beginsPlain, Bool.and_eq_true] at h
  cases h.2

/-- **A text that can stand as a plain scalar is read as it is.** -/
theorem readPlain_line {cs tail : List Char} (h : isPlainLine cs = true) {indent : Nat} {c after : Cursor}
    {broken : Bool} (hedge : c.atDocumentEdge = false) (hindent : indent ≤ c.column + 1) (hc : c.rest = cs ++ tail)
    (hend : PlainEnd indent (c.advance cs.length) after broken) :
    readPlain false indent (c.rest.length + 1) c [] ⟨[], false, c⟩ = some ⟨cs, after, broken⟩ := by
  cases cs with
  | nil => cases h
  | cons ch rest =>
    rw [isPlainLine, Bool.and_eq_true] at h
    obtain ⟨hbegins, hafter⟩ := h
    have hsolid : isSolid ch = true := by
      rw [beginsPlain, Bool.and_eq_true] at hbegins
      exact hbegins.1
    obtain ⟨w, more, rfl, hword, hmore⟩ := (exists_words hafter).1 hsolid
    have hsplit : c.rest = ch :: w ++ (more ++ tail) := by
      rw [hc]
      simp
    have hlength : (ch :: (w ++ more)).length = w.length + 1 + more.length := by
      simp only [List.length_cons, List.length_append]
      omega
    have hfuel : more.length < c.rest.length + 1 := by
      rw [hsplit]
      simp only [List.length_append, List.length_cons]
      omega
    rw [hlength] at hend
    exact readPlain_words hmore [] ⟨[], false, c⟩ hword (not_number_of_begins hbegins) hedge hindent hfuel
      hsplit hend

/-! ### Quoted scalars -/

/-- **What a text between quotation marks on one line stands for**; none if it is malformed.  The first `skip`
characters belong to an escape that was read. -/
def unquoted? (skip : Nat) : List Char → Option (List Char)
  | [] => if skip = 0 then some [] else none
  | ch :: rest =>
    match skip with
    | skip + 1 => unquoted? skip rest
    | 0 =>
      if ch = '"' || isBreak ch then none
      else if ch = '\\' then
        match readEscape rest with
        | some (d, n) => (d :: ·) <$> unquoted? n rest
        | none => none
      else (ch :: ·) <$> unquoted? 0 rest

section

variable {cs tail text : List Char} {ch d : Char} {n : Nat}

theorem unquoted?_gap {gap : List Char} (hgap : ∀ b ∈ gap, isGap b = true) (rest : List Char) :
    unquoted? 0 (gap ++ rest) = (gap ++ ·) <$> unquoted? 0 rest := by
  induction gap with
  | nil => simp
  | cons b gap ih =>
    have hb := hgap b List.mem_cons_self
    have hquote : b ≠ '"' := by
      rintro rfl
      cases hb
    have hback : b ≠ '\\' := by
      rintro rfl
      cases hb
    rw [List.cons_append, unquoted?, isBreak_of_isGap hb, decide_eq_false hquote, if_neg hback,
      ih fun a ha => hgap a (List.mem_cons_of_mem b ha)]
    simp [Function.comp_def]

theorem isSolid_of_unquoted? {rest : List Char} (h : unquoted? 0 (ch :: rest) = some text)
    (hgap : isGap ch = false) : isSolid ch = true := by
  rw [unquoted?] at h
  split at h
  next => cases h
  next hplain =>
    rw [Bool.or_eq_true, not_or] at hplain
    simp [isSolid, hgap, hplain.2]

/-- An escape is read the same whatever comes behind. -/
theorem readEscape_append (h : readEscape cs = some (d, n)) (tail : List Char) :
    readEscape (cs ++ tail) = some (d, n) := by
  cases cs with
  | nil => cases h
  | cons letter rest =>
    unfold readEscape at h ⊢
    simp only [List.cons_append, List.head?_cons, Option.bind_eq_bind, Option.bind_some, List.drop_one,
      List.tail_cons] at h ⊢
    cases hdigits : escapeDigits? letter with
    | none =>
      rw [hdigits] at h
      exact h
    | some k =>
      rw [hdigits] at h
      dsimp only at h ⊢
      by_cases hshort : (rest.take k).length < k
      · rw [if_pos hshort] at h
        cases h
      · have hlong : k ≤ rest.length := by
          rw [List.length_take] at hshort
          omega
        rw [List.take_append_of_le_length hlong]
        exact h

/-- A text between quotation marks is read part by part. -/
theorem unquoted?_append {a : List Char} (b : List Char) : ∀ {skip : Nat} {text : List Char},
    unquoted? skip a = some text → unquoted? skip (a ++ b) = (text ++ ·) <$> unquoted? 0 b := by
  induction a with
  | nil =>
    intro skip text h
    rw [unquoted?] at h
    split at h
    next hskip =>
      cases h
      rw [hskip]
      simp
    next => cases h
  | cons ch rest ih =>
    intro skip text h
    cases skip with
    | succ skip => exact ih h
    | zero =>
      have hcons {d : Char} {n : Nat} (hd : (d :: ·) <$> unquoted? n rest = some text) :
          (d :: ·) <$> unquoted? n (rest ++ b) = (text ++ ·) <$> unquoted? 0 b := by
        obtain ⟨more, hmore, rfl⟩ := Option.map_eq_some_iff.mp hd
        rw [ih hmore]
        simp [Function.comp_def]
      rw [unquoted?] at h
      rw [List.cons_append, unquoted?]
      split at h
      next => cases h
      next hmark =>
        rw [if_neg hmark]
        split at h
        next hback =>
          rw [if_pos hback]
          cases hread : readEscape rest with
          | none =>
            rw [hread] at h
            cases h
          | some r =>
            rw [hread] at h
            rw [readEscape_append hread]
            exact hcons h
        next hback =>
          rw [if_neg hback]
          exact hcons h

/-- No escape begins with a line break. -/
theorem not_isBreak_of_readEscape (h : readEscape (ch :: cs) = some (d, n)) : isBreak ch = false := by
  unfold readEscape at h
  rw [List.head?_cons, Option.bind_eq_bind, Option.bind_some] at h
  cases hdigits : escapeDigits? ch with
  | some k =>
    unfold escapeDigits? at hdigits
    split at hdigits
    all_goals first | decide | cases hdigits
  | none =>
    rw [hdigits] at h
    cases hletter : escapeLetter? ch with
    | none =>
      rw [hletter] at h
      cases h
    | some c =>
      unfold escapeLetter? at hletter
      split at hletter
      all_goals first | decide | cases hletter

variable {c : Cursor} {rest acc : List Char} {fuel : Nat}

theorem quotedPart_mark (hc : c.rest = '"' :: rest) :
    quotedPart .double (fuel + 1) c acc = some (acc, c, false) := by
  rw [quotedPart, hc]
  rfl

theorem quotedPart_gap (hc : c.rest = ch :: rest) (hgap : isGap ch = true) (q : Quoting) :
    quotedPart q (fuel + 1) c acc = some (acc, c, false) := by
  rw [quotedPart, hc]
  dsimp only
  rw [hgap, Bool.true_or, if_pos rfl]

theorem quotedPart_solid (hc : c.rest = ch :: rest) (hsolid : isSolid ch = true) (hquote : ch ≠ '"')
    (hback : ch ≠ '\\') :
    quotedPart .double (fuel + 1) c acc = quotedPart .double fuel (c.advance 1) (ch :: acc) := by
  rw [quotedPart, hc]
  dsimp only
  rw [isGap_of_isSolid hsolid, isBreak_of_isSolid hsolid, decide_eq_false hback, Bool.and_false]
  exact if_neg hquote

theorem quotedPart_escape (hc : c.rest = '\\' :: rest) (hread : readEscape rest = some (d, n)) :
    quotedPart .double (fuel + 1) c acc = quotedPart .double fuel (c.advance (n + 1)) (d :: acc) := by
  have hbreak : rest.head?.any isBreak = false := by
    cases rest with
    | nil => rfl
    | cons letter rest => exact not_isBreak_of_readEscape hread
  rw [quotedPart, hc]
  dsimp only
  rw [hbreak, hread]
  rfl

/-- **One part of a quoted scalar**, up to white space or to the mark at its end. -/
theorem quotedPart_line (cs : List Char) : ∀ {skip : Nat} {text : List Char}, unquoted? skip cs = some text →
    ∃ skipped part more t₁ t₂, cs = skipped ++ (part ++ more) ∧ skipped.length = skip ∧ text = t₁ ++ t₂ ∧
      unquoted? 0 more = some t₂ ∧ (∀ b ∈ more.head?, isGap b = true) ∧
      ∀ fuel (c : Cursor) acc tail, part.length < fuel → c.rest = part ++ (more ++ '"' :: tail) →
        quotedPart .double fuel c acc = some (t₁.reverse ++ acc, c.advance part.length, false) := by
  induction cs with
  | nil =>
    intro skip text h
    rw [unquoted?] at h
    split at h
    next hskip =>
      cases h
      refine ⟨[], [], [], [], [], rfl, hskip.symm, rfl, rfl, by simp, fun fuel c acc tail hfuel hc => ?_⟩
      obtain ⟨fuel, rfl⟩ : ∃ n, fuel = n + 1 := ⟨fuel - 1, by simp at hfuel; omega⟩
      rw [quotedPart_mark hc]
      rfl
    next => cases h
  | cons ch rest ih =>
    intro skip text h
    cases skip with
    | succ skip =>
      rw [unquoted?] at h
      obtain ⟨skipped, part, more, t₁, t₂, rfl, rfl, htext, hmore, hgap, hread⟩ := ih h
      exact ⟨ch :: skipped, part, more, t₁, t₂, rfl, rfl, htext, hmore, hgap, hread⟩
    | zero =>
      by_cases hgap : isGap ch = true
      · refine ⟨[], [], ch :: rest, [], text, rfl, rfl, rfl, h, ?_, fun fuel c acc tail hfuel hc => ?_⟩
        · rintro b ⟨⟩
          exact hgap
        · obtain ⟨fuel, rfl⟩ : ∃ n, fuel = n + 1 := ⟨fuel - 1, by simp at hfuel; omega⟩
          rw [quotedPart_gap hc hgap]
          rfl
      · rw [unquoted?] at h
        split at h
        next => cases h
        next hplain =>
          rw [Bool.or_eq_true, decide_eq_true_eq, not_or] at hplain
          split at h
          next hback =>
            subst hback
            split at h
            next d n hescape =>
              obtain ⟨t, ht, rfl⟩ := Option.map_eq_some_iff.mp h
              obtain ⟨skipped, part, more, t₁, t₂, rfl, hn, rfl, hmore, hhead, hread⟩ := ih ht
              refine ⟨[], '\\' :: (skipped ++ part), more, d :: t₁, t₂, by simp, rfl, rfl, hmore, hhead,
                fun fuel c acc tail hfuel hc => ?_⟩
              obtain ⟨fuel, rfl⟩ : ∃ n, fuel = n + 1 := ⟨fuel - 1, by simp at hfuel; omega⟩
              have hsplit : c.rest = '\\' :: skipped ++ (part ++ (more ++ '"' :: tail)) := by simp [hc]
              have hescape' : readEscape (skipped ++ (part ++ (more ++ '"' :: tail))) = some (d, n) := by
                have happend := readEscape_append hescape ('"' :: tail)
                simpa using happend
              have hnext : (c.advance (n + 1)).rest = part ++ (more ++ '"' :: tail) := by
                rw [← hn]
                exact Cursor.rest_advance hsplit
              have hpart : part.length < fuel := by
                simp only [List.length_cons, List.length_append] at hfuel
                omega
              rw [quotedPart_escape hsplit hescape', hread fuel _ _ _ hpart hnext, Cursor.advance_advance, ← hn]
              simp [Nat.add_comm, Nat.add_left_comm, Nat.add_assoc]
            next => cases h
          next hback =>
            obtain ⟨t, ht, rfl⟩ := Option.map_eq_some_iff.mp h
            obtain ⟨skipped, part, more, t₁, t₂, rfl, hn, rfl, hmore, hhead, hread⟩ := ih ht
            rw [List.length_eq_zero_iff.mp hn, List.nil_append]
            refine ⟨[], ch :: part, more, ch :: t₁, t₂, by simp, rfl, rfl, hmore, hhead,
              fun fuel c acc tail hfuel hc => ?_⟩
            obtain ⟨fuel, rfl⟩ : ∃ n, fuel = n + 1 := ⟨fuel - 1, by simp at hfuel; omega⟩
            have hsolid : isSolid ch = true := by simp [isSolid, hgap, hplain.2]
            have hnext : (c.advance 1).rest = part ++ (more ++ '"' :: tail) :=
              Cursor.rest_advance (a := [ch]) hc
            rw [quotedPart_solid hc hsolid hplain.1 hback, hread fuel _ _ _ (by simpa using hfuel) hnext,
              Cursor.advance_advance]
            simp [Nat.add_comm]

/-- **A text on one line is read up to the quotation mark at its end.** -/
theorem readQuoted_line {src text : List Char} (h : unquoted? 0 src = some text) {fuel : Nat} {c : Cursor}
    {acc tail : List Char} (hfuel : src.length < fuel) (hcolumn : 0 < c.column)
    (hc : c.rest = src ++ '"' :: tail) :
    readQuoted .double fuel c acc = some ⟨acc.reverse ++ text, c.advance (src.length + 1), false⟩ := by
  induction hlength : src.length using Nat.strongRecOn generalizing src text fuel c acc with
  | ind k ih =>
    obtain ⟨fuel, rfl⟩ : ∃ n, fuel = n + 1 := ⟨fuel - 1, by omega⟩
    obtain ⟨skipped, part, more, t₁, t₂, rfl, hskipped, rfl, hmore, hhead, hread⟩ := quotedPart_line src h
    obtain rfl := List.length_eq_zero_iff.mp hskipped
    rw [List.nil_append] at hc hfuel hlength
    have hsplit : c.rest = part ++ (more ++ '"' :: tail) := by simp [hc]
    have hafter : (c.advance part.length).rest = more ++ '"' :: tail := Cursor.rest_advance hsplit
    have hpart := hread (c.rest.length + 1) c acc tail (by rw [hsplit, List.length_append]; omega) hsplit
    have hmarked : c.rest.isEmpty = false := by
      rw [hsplit]
      simp
    rw [readQuoted, Cursor.atDocumentEdge_inside hcolumn, hmarked, hpart]
    simp only [Bool.or_self, Bool.false_eq_true, if_false, Option.bind_eq_bind, Option.bind_some,
      Bool.not_false, Bool.true_and]
    cases more with
    | nil =>
      cases hmore
      rw [List.append_nil] at hlength
      rw [Cursor.sees_cons hafter, if_pos (by decide), Cursor.advance_advance, ← hlength]
      simp
    | cons b more =>
      have hb : isGap b = true := hhead b rfl
      have hquote : b ≠ '"' := by
        rintro rfl
        cases hb
      obtain ⟨gap, solid, hgap, hall, hsolid⟩ := exists_gap (b :: more)
      have hsome : gap ≠ [] := by
        rintro rfl
        rw [List.nil_append] at hgap
        rw [hsolid b (hgap ▸ rfl)] at hb
        cases hb
      rw [hgap] at hmore hafter hlength
      rw [unquoted?_gap hall] at hmore
      obtain ⟨t₃, hrest, rfl⟩ := Option.map_eq_some_iff.mp hmore
      -- The white space goes up to a character of the text, or to the mark at its end.
      have hnext : ∃ ch rest, solid ++ '"' :: tail = ch :: rest ∧ isSolid ch = true := by
        cases solid with
        | nil => exact ⟨'"', tail, rfl, by decide⟩
        | cons a solid => exact ⟨a, solid ++ '"' :: tail, rfl, isSolid_of_unquoted? hrest (hsolid a rfl)⟩
      have hsplit : (c.advance part.length).rest = gap ++ (solid ++ '"' :: tail) := by simp [hafter]
      have hread := readGap_gap hall hnext 0 ((c.advance part.length).rest.length + 1)
        (by rw [hsplit, List.length_append]; omega) _ hsplit []
      have hseen : (c.advance part.length).sees Quoting.double.mark = false := by
        rw [← hgap, List.cons_append] at hafter
        rw [Cursor.sees_cons hafter]
        exact decide_eq_false hquote
      have hlonger : 0 < gap.length := List.length_pos_iff.mpr hsome
      simp only [List.length_append] at hlength hfuel
      have hcolumn' : 0 < ((c.advance part.length).advance gap.length).column := by
        change 0 < c.column + part.length + gap.length
        omega
      have hfuel' : solid.length < fuel := by
        rw [hgap, List.length_append] at hfuel
        omega
      have hfar := Cursor.rest_advance hsplit
      rw [hseen, if_neg Bool.false_ne_true, hread, Option.bind_some]
      refine (ih solid.length (by omega) hrest hfuel' hcolumn' hfar rfl).trans ?_
      rw [Cursor.advance_advance, Cursor.advance_advance, ← hlength]
      simp [Nat.add_assoc]

/-- **A text between quotation marks is read as a scalar.** -/
theorem quotedToken_line {src : List Char} (h : unquoted? 0 src = some text)
    (hc : c.rest = '"' :: (src ++ '"' :: tail)) :
    Scan.quotedToken .double c = some (.scalar (String.ofList text) false, c.advance (src.length + 2)) := by
  have hnext : (c.advance 1).rest = src ++ '"' :: tail := Cursor.rest_advance (a := ['"']) hc
  have hfuel : src.length < c.rest.length + 1 := by
    rw [hc]
    simp
    omega
  have hcolumn : 0 < (c.advance 1).column := Nat.succ_pos c.column
  have hread : readQuoted .double (c.rest.length + 1) (c.advance 1) [] =
      some ⟨text, (c.advance 1).advance (src.length + 1), false⟩ :=
    readQuoted_line h hfuel hcolumn hnext
  rw [Scan.quotedToken, hread, Cursor.advance_advance, Nat.add_comm 1]
  rfl

end

end Runsheet.Yaml
