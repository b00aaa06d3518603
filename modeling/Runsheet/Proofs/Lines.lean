import Runsheet.Proofs.Scalars

/-!
# Documents of lines

Many documents are made of lines of one form: a key with a colon, with the mark of an item before it or without,
and with a scalar behind it or nothing.  What is read of such a line depends on its column and on the blocks that
are open, and not on where in the text it stands.

* `Line`, `Outline` — a line, and what has been read: the tokens and the columns of the open blocks;
* `Outline.addLine` — what one line adds;
* `Scan.Run` — reading token after token;
* `run_line` — one line is read as it says;
* `tokens_ofLines` — the tokens of a document of lines.
-/

namespace Runsheet.Yaml

/-! ### Outlines -/

/-- **What has been read of a document in blocks**: the tokens in reverse, and the columns of the open blocks, the
innermost one first. -/
structure Outline where
  tokens : List Token := []
  columns : List Nat := []

namespace Outline

/-- The indentation of the innermost block. -/
def indentOf : List Nat → Int
  | [] => -1
  | n :: _ => n

/-- The indentations around the innermost block. -/
def outerOf : List Nat → List Int
  | [] => []
  | _ :: rest => indentOf rest :: outerOf rest

/-- Adds a token. -/
def push (o : Outline) (t : Token) : Outline :=
  { o with tokens := t :: o.tokens }

/-- Closes those of the blocks that are further in than a column. -/
def closeFrom (column : Int) (tokens : List Token) : List Nat → Outline
  | [] => ⟨tokens, []⟩
  | n :: rest =>
    if column < n then closeFrom column (.closeBlock :: tokens) rest else ⟨tokens, n :: rest⟩

/-- Closes the blocks that are further in than a column. -/
def close (o : Outline) (column : Int) : Outline :=
  closeFrom column o.tokens o.columns

/-- Opens a block at a column if it is further in. -/
def enter (o : Outline) (column : Nat) (t : Token) : Outline :=
  if indentOf o.columns < column then ⟨t :: o.tokens, column :: o.columns⟩ else o

/-- The state of reading that has come to a place, with a place where a key may have begun. -/
def scan (o : Outline) (c : Cursor) (keyAllowed : Bool) (key : Option KeyPlace) : Scan :=
  { cursor := c, tokens := o.tokens, count := o.tokens.length, indent := indentOf o.columns,
    outer := outerOf o.columns, keyAllowed, keys := [key] }

variable (o : Outline) (c : Cursor) (keyAllowed : Bool) (key : Option KeyPlace)

theorem scan_closeBlocks (column : Int) :
    (o.scan c keyAllowed key).closeBlocks column = (o.close column).scan c keyAllowed key := by
  have hclose (columns : List Nat) : ∀ tokens, Scan.closeAll column (outerOf columns)
      ((⟨tokens, columns⟩ : Outline).scan c keyAllowed key) =
        (closeFrom column tokens columns).scan c keyAllowed key := by
    induction columns with
    | nil => exact fun tokens => rfl
    | cons n rest ih =>
      intro tokens
      rw [outerOf, Scan.closeAll, closeFrom]
      by_cases hn : column < n
      · rw [if_pos hn, ← ih]
        exact if_pos hn
      · rw [if_neg hn]
        exact if_neg hn
  exact hclose o.columns o.tokens

/-- A token is put before the later ones. -/
theorem scan_insertAt (later : List Token) (t : Token) :
    ((⟨later ++ o.tokens, o.columns⟩ : Outline).scan c keyAllowed key).insertAt o.tokens.length t =
      (⟨later ++ t :: o.tokens, o.columns⟩ : Outline).scan c keyAllowed key := by
  simp [Scan.insertAt, scan, Nat.add_assoc]

/-- A block is opened before the later tokens. -/
theorem scan_openBlock (later : List Token) (column : Nat) (t : Token) :
    ((⟨later ++ o.tokens, o.columns⟩ : Outline).scan c keyAllowed key).openBlock column o.tokens.length t =
      (⟨later ++ (o.enter column t).tokens, (o.enter column t).columns⟩ : Outline).scan c keyAllowed key := by
  have hcondition (o : Outline) : ((o.scan c keyAllowed key).inFlow ||
      decide ((column : Int) ≤ (o.scan c keyAllowed key).indent)) =
        decide ((column : Int) ≤ indentOf o.columns) := rfl
  rw [Scan.openBlock, enter, hcondition, scan_insertAt]
  dsimp only
  by_cases hn : indentOf o.columns < column
  · rw [if_pos hn, decide_eq_false (by omega), if_neg Bool.false_ne_true]
    rfl
  · rw [if_neg hn, decide_eq_true (by omega), if_pos rfl]

theorem scan_dropStale : (o.scan c keyAllowed none).dropStale = some (o.scan c keyAllowed none) :=
  rfl

end Outline

/-! ### Lines -/

/-- What stands behind the colon of a line. -/
inductive Line.Value
  | nothing
  | plain (text : String)
  | quoted (source text : String)

/-- **A line of a document in blocks**: a key with a colon, at a column and after the mark of an item or not, with
a scalar behind the colon or nothing. -/
structure Line where
  column : Nat
  item : Bool := false
  key : String
  value : Line.Value := .nothing

namespace Line

/-- The characters behind the colon. -/
def Value.chars : Value → List Char
  | .nothing => []
  | .plain text => ' ' :: text.toList
  | .quoted source _ => ' ' :: '"' :: (source.toList ++ ['"'])

/-- The column of the key. -/
def keyColumn (l : Line) : Nat :=
  if l.item then l.column + 2 else l.column

/-- The characters from the key on. -/
def keyed (l : Line) : List Char :=
  l.key.toList ++ ':' :: (l.value.chars ++ ['\n'])

/-- The characters after the indentation. -/
def content (l : Line) : List Char :=
  (if l.item then ['-', ' '] else []) ++ l.keyed

/-- The characters of a line. -/
def chars (l : Line) : List Char :=
  List.replicate l.column ' ' ++ l.content

/-- The scalar behind the colon. -/
def Value.add (o : Outline) : Value → Outline
  | .nothing => o
  | .plain text => o.push (.scalar text true)
  | .quoted _ text => o.push (.scalar text false)

/-- Can the scalar stand behind the colon? -/
def Value.Sound : Value → Prop
  | .nothing => True
  | .plain text => isPlainLine text.toList = true
  | .quoted source text => unquoted? 0 source.toList = some text.toList

/-- **A line that is read as it says.** -/
structure Sound (l : Line) : Prop where
  word : ∀ ch ∈ l.key.toList, isWordChar ch = true
  plain : isPlainLine l.key.toList = true
  short : l.key.toList.length ≤ 1024
  value : l.value.Sound

/-- May a line come next at a column?  A line further in would go on with a plain scalar. -/
def Admits (l : Line) (column : Nat) : Prop :=
  match l.value with
  | .plain _ => column ≤ l.keyColumn
  | .nothing | .quoted .. => True

instance (v : Value) : Decidable v.Sound :=
  match v with
  | .nothing => isTrue trivial
  | .plain text => inferInstanceAs (Decidable (isPlainLine text.toList = true))
  | .quoted source text => inferInstanceAs (Decidable (unquoted? 0 source.toList = some text.toList))

theorem Sound.put {l : Line} (h : l.Sound) {v : Value} (hv : v.Sound) : ({ l with value := v } : Line).Sound :=
  ⟨h.word, h.plain, h.short, hv⟩

theorem sound_iff (l : Line) : (l.key.toList.all isWordChar = true ∧ isPlainLine l.key.toList = true ∧
    l.key.toList.length ≤ 1024 ∧ l.value.Sound) ↔ l.Sound :=
  ⟨fun ⟨word, plain, short, value⟩ => ⟨List.all_eq_true.mp word, plain, short, value⟩,
    fun h => ⟨List.all_eq_true.mpr h.word, h.plain, h.short, h.value⟩⟩

instance (l : Line) : Decidable l.Sound :=
  decidable_of_iff _ l.sound_iff

instance (l : Line) (column : Nat) : Decidable (l.Admits column) :=
  match l with
  | ⟨c, item, key, .plain text⟩ =>
    inferInstanceAs (Decidable (column ≤ (⟨c, item, key, .plain text⟩ : Line).keyColumn))
  | ⟨_, _, _, .nothing⟩ | ⟨_, _, _, .quoted ..⟩ => isTrue trivial

end Line

/-- The column of the first line; the end of a document is at the margin. -/
def firstColumn : List Line → Nat
  | [] => 0
  | l :: _ => l.column

/-- The characters of lines from the content of the first one on. -/
def contents : List Line → List Char
  | [] => []
  | l :: rest => l.content ++ rest.flatMap Line.chars

theorem chars_eq_contents (lines : List Line) :
    lines.flatMap Line.chars = List.replicate (firstColumn lines) ' ' ++ contents lines := by
  cases lines with
  | nil => rfl
  | cons l rest => simp [Line.chars, contents, firstColumn]

/-- **Lines that can follow each other.** -/
def SoundLines : List Line → Prop
  | [] => True
  | l :: rest => l.Sound ∧ l.Admits (firstColumn rest) ∧ SoundLines rest

instance decidableSoundLines : (lines : List Line) → Decidable (SoundLines lines)
  | [] => isTrue trivial
  | l :: rest =>
    have := decidableSoundLines rest
    inferInstanceAs (Decidable (l.Sound ∧ l.Admits (firstColumn rest) ∧ SoundLines rest))

/-- The key of a line and its colon are read, at the column of the key. -/
def Outline.addKey (o : Outline) (column : Nat) (key : String) : Outline :=
  (((o.enter column .openBlockMap).push .key).push (.scalar key true)).push .value

/-- The blocks that are open at a line, and the mark of an item. -/
def Outline.addMark (o : Outline) (l : Line) : Outline :=
  let o := o.close l.column
  if l.item then (o.enter l.column .openBlockList).push .item else o

/-- **What a line adds**: it closes the blocks that are further in, opens the blocks of its item and of its key,
and gives the key and the scalar. -/
def Outline.addLine (o : Outline) (l : Line) : Outline :=
  l.value.add ((o.addMark l).addKey l.keyColumn l.key)

/-- The end of a document closes all blocks. -/
def Outline.finish (o : Outline) : List Token :=
  (((o.close 0).close (-1)).push .streamEnd).tokens.reverse

/-! ### Steps -/

/-- **Reading token after token**: a number of steps from a state to another one. -/
inductive Scan.Run : Nat → Scan → Scan → Prop
  | none (s : Scan) : Scan.Run 0 s s
  | step {n : Nat} {s s' s'' : Scan} (hdone : s.done = false) (hstep : s.step = some s')
      (hmore : Scan.Run n s' s'') : Scan.Run (n + 1) s s''

namespace Scan.Run

variable {m n : Nat} {s s' s'' : Scan}

theorem one (hdone : s.done = false) (hstep : s.step = some s') : Scan.Run 1 s s' :=
  .step hdone hstep (.none s')

theorem trans (h : Scan.Run m s s') (h' : Scan.Run n s' s'') : Scan.Run (m + n) s s'' := by
  induction h with
  | none => simpa using h'
  | step hdone hstep hmore ih =>
    rw [Nat.add_right_comm]
    exact .step hdone hstep (ih h')

theorem run (h : Scan.Run n s s') (fuel : Nat) : s.run (n + fuel) = s'.run fuel := by
  induction h with
  | none => rw [Nat.zero_add]
  | step hdone hstep hmore ih =>
    rw [Nat.add_right_comm, Scan.run, hdone, hstep]
    exact ih

end Scan.Run

/-- **A text begins with a token** if it begins neither with white space nor with a comment. -/
def Begins (cs : List Char) : Prop :=
  ∀ ch ∈ cs.head?, isSolid ch = true ∧ ch ≠ '#'

theorem isSolid_of_isWordChar {ch : Char} (h : isWordChar ch = true) : isSolid ch = true := by
  have hne {mark : Char} (hmark : isWordChar mark = false) : ch ≠ mark := by
    rintro rfl
    rw [h] at hmark
    cases hmark
  have hcode {n : Nat} (hmark : isWordChar (Char.ofNat n) = false) : ch.toNat ≠ n := by
    intro hn
    apply hne hmark
    rw [← hn, Char.ofNat_toNat]
  have hgap : isGap ch = false := by
    rw [isGap, decide_eq_false (hne (by decide)), decide_eq_false (hne (by decide))]
    rfl
  have hbreak : isBreak ch = false := by
    rw [isBreak, decide_eq_false (hne (by decide)), decide_eq_false (hne (by decide)),
      decide_eq_false (hcode (by decide)), decide_eq_false (hcode (by decide)),
      decide_eq_false (hcode (by decide))]
    rfl
  rw [isSolid, hgap, hbreak]
  rfl

theorem Line.Sound.begins_keyed {l : Line} (h : l.Sound) (tail : List Char) : Begins (l.keyed ++ tail) := by
  intro ch hch
  cases hkey : l.key.toList with
  | nil =>
    have hplain := h.plain
    rw [hkey] at hplain
    cases hplain
  | cons letter rest =>
    rw [Line.keyed, hkey] at hch
    cases hch
    have hword := h.word ch (hkey ▸ List.mem_cons_self)
    refine ⟨isSolid_of_isWordChar hword, ?_⟩
    rintro rfl
    exact absurd hword (by decide)

theorem Line.Sound.begins_content {l : Line} (h : l.Sound) (tail : List Char) : Begins (l.content ++ tail) := by
  unfold Line.content
  split
  next =>
    rintro ch ⟨⟩
    decide
  next => exact h.begins_keyed tail

theorem begins_contents {lines : List Line} (h : SoundLines lines) : Begins (contents lines) := by
  cases lines with
  | nil => exact fun ch hch => by cases hch
  | cons l rest => exact h.1.begins_content _

section

variable {o : Outline} {c : Cursor} {keyAllowed : Bool} {key : Option KeyPlace} {cs : List Char} {n : Nat}

theorem sees_of_begins {mark : Char} (hc : c.rest = cs) (h : ∀ ch ∈ cs.head?, ch ≠ mark) :
    c.sees mark = false := by
  cases cs with
  | nil => rw [Cursor.sees, hc, List.head?_nil]; rfl
  | cons ch cs => rw [Cursor.sees_cons hc, decide_eq_false (h ch rfl)]

/-- White space before a token is skipped, and a line break with it. -/
theorem skipSpace_eq (horder : (c.index == 0 && c.sees (Char.ofNat 0xFEFF)) = false)
    (hnumber : (c.advance n).sees '#' = false)
    (hskip : ∀ p : Char → Bool, p ' ' = true → (∀ ch, isGap ch = false → p ch = false) →
      c.skipWhile p = c.advance n) (fuel : Nat) :
    (o.scan c keyAllowed key).skipSpace (fuel + 1) =
      if (c.advance n).rest.head?.any isBreak then
        (o.scan (c.advance n).takeBreak.2 true key).skipSpace fuel
      else o.scan (c.advance n) keyAllowed key := by
  have hspaces : (c.skipWhile fun ch => ch = ' ' || ((false || !keyAllowed) && ch = '\t')) = c.advance n := by
    refine hskip _ rfl fun ch hch => ?_
    rw [isGap, Bool.or_eq_false_iff] at hch
    rw [hch.1, hch.2, Bool.and_false]
    rfl
  have hflow : (o.scan c keyAllowed key).inFlow = false := rfl
  rw [Scan.skipSpace, hflow]
  dsimp only [Outline.scan]
  simp only [horder, Bool.false_eq_true, if_false, hspaces, Cursor.skipComment, hnumber,
    Bool.not_false, Bool.or_true]

theorem skipWhile_spaces (hc : c.rest = List.replicate n ' ' ++ cs) (hcs : ∀ ch ∈ cs.head?, isGap ch = false)
    {p : Char → Bool} (hspace : p ' ' = true) (hgap : ∀ ch, isGap ch = false → p ch = false) :
    c.skipWhile p = c.advance n := by
  have hrest : cs.takeWhile p = [] := by
    cases cs with
    | nil => rfl
    | cons ch cs =>
      rw [List.takeWhile_cons, hgap ch (hcs ch rfl)]
      rfl
  have hall : ∀ ch ∈ List.replicate n ' ', p ch = true := by
    intro ch hch
    rw [(List.mem_replicate.mp hch).2]
    exact hspace
  rw [Cursor.skipWhile, Cursor.takeWhile, hc, List.takeWhile_append_of_pos hall, hrest, List.append_nil,
    List.length_replicate]

/-- Spaces before a token are skipped. -/
theorem skipSpace_spaces (horder : (c.index == 0 && c.sees (Char.ofNat 0xFEFF)) = false)
    (hc : c.rest = List.replicate n ' ' ++ cs) (hbegins : Begins cs) (fuel : Nat) :
    (o.scan c keyAllowed key).skipSpace (fuel + 1) = o.scan (c.advance n) keyAllowed key := by
  have hafter : (c.advance n).rest = cs := by
    have hrest := Cursor.rest_advance hc
    rwa [List.length_replicate] at hrest
  have hbreak : (c.advance n).rest.head?.any isBreak = false := by
    rw [hafter]
    cases cs with
    | nil => rfl
    | cons ch cs => exact isBreak_of_isSolid (hbegins ch rfl).1
  rw [skipSpace_eq horder (sees_of_begins hafter fun ch hch => (hbegins ch hch).2)
    fun p => skipWhile_spaces hc fun ch hch => isGap_of_isSolid (hbegins ch hch).1, hbreak,
    if_neg Bool.false_ne_true]

/-- A line break before a token is skipped with the spaces after it, and a key may come next. -/
theorem skipSpace_break (hc : c.rest = '\n' :: (List.replicate n ' ' ++ cs)) (hbegins : Begins cs) (fuel : Nat) :
    (o.scan c keyAllowed key).skipSpace (fuel + 2) = o.scan ((c.nextLine 1).advance n) true key := by
  have hzero : c.advance 0 = c := rfl
  have hlines : c.rest = List.replicate 0 ' ' ++ '\n' :: (List.replicate n ' ' ++ cs) := hc
  have horder : (c.index == 0 && c.sees (Char.ofNat 0xFEFF)) = false := by
    rw [Cursor.sees_cons hc, Bool.and_eq_false_iff]
    exact Or.inr (by decide)
  have hnumber : (c.advance 0).sees '#' = false := by
    rw [hzero, Cursor.sees_cons hc]
    decide
  have hnext : c.takeBreak.2 = c.nextLine 1 := by
    rw [Cursor.takeBreak, hc]
    rfl
  have hrest : (c.nextLine 1).rest = List.replicate n ' ' ++ cs := by
    rw [Cursor.nextLine, hc]
    rfl
  rw [skipSpace_eq horder hnumber fun p => skipWhile_spaces hlines (by rintro ch ⟨⟩; decide), hzero, hc, hnext]
  exact skipSpace_spaces rfl hrest hbegins fuel

/-- The first token after white space. -/
theorem step_token {s : Scan} {ch : Char} (hskip : s.skipSpace (s.cursor.rest.length + 1) = o.scan c keyAllowed key)
    (hstale : (o.scan c keyAllowed key).dropStale = some (o.scan c keyAllowed key)) (hc : c.rest = ch :: cs) :
    s.step = ((o.close c.column).scan c keyAllowed key).readToken ch := by
  have hhere (o : Outline) : (o.scan c keyAllowed key).cursor = c := rfl
  rw [Scan.step, hskip, hstale, Option.bind_eq_bind, Option.bind_some]
  dsimp only
  rw [hhere, Outline.scan_closeBlocks, hhere, hc]

/-- The end of the document. -/
theorem step_end {s : Scan} (hskip : s.skipSpace (s.cursor.rest.length + 1) = o.scan c keyAllowed none)
    (hc : c.rest = []) : s.step = ((o.close c.column).scan c keyAllowed none).finish := by
  have hhere (o : Outline) : (o.scan c keyAllowed none).cursor = c := rfl
  rw [Scan.step, hskip, Outline.scan_dropStale, Option.bind_eq_bind, Option.bind_some]
  dsimp only
  rw [hhere, Outline.scan_closeBlocks, hhere, hc]

theorem endsAt_one {ch d : Char} (hc : c.rest = ch :: d :: cs) : c.endsAt 1 = !isSolid d := by
  simp [Cursor.endsAt, Cursor.at?, hc, isSolid]

theorem readToken_item (hc : c.rest = '-' :: ' ' :: cs) :
    (o.scan c true none).readToken '-' =
      some (((o.enter c.column .openBlockList).push .item).scan (c.advance 1) true none) := by
  have hedge : c.atDocumentEdge = false := by
    simp [Cursor.atDocumentEdge, Cursor.atDocumentMark, hc]
  have hspaced : c.endsAt 1 = true := endsAt_one hc
  have hitem : (o.scan c true none).readToken '-' = (o.scan c true none).readItem := by
    simp [Scan.readToken, Outline.scan, hedge, hspaced]
  have hopen : (o.scan c true none).openBlock c.column o.tokens.length .openBlockList =
      (o.enter c.column .openBlockList).scan c true none := o.scan_openBlock c true none [] c.column _
  rw [hitem, Scan.readItem]
  change ((o.scan c true none).openBlock c.column o.tokens.length .openBlockList).dropKey.bind _ = _
  rw [hopen]
  rfl

theorem readToken_plain {s : Scan} {ch : Char} (hflow : s.inFlow = false)
    (hedge : s.cursor.atDocumentEdge = false) (hc : s.cursor.rest = ch :: cs)
    (h : beginsPlain ch cs = true) : s.readToken ch = s.readPlainScalar := by
  rw [beginsPlain, Bool.and_eq_true, Bool.or_eq_true, Bool.not_eq_true', Bool.and_eq_true] at h
  obtain ⟨hsolid, hindicator | ⟨hmark, hnext⟩⟩ := h
  · have hne (mark : Char) (hmark : isIndicator mark = true) : ch ≠ mark := by
      rintro rfl
      rw [hmark] at hindicator
      cases hindicator
    have hstarts : startsPlain false s.cursor ch = true := by
      simp [startsPlain, isGap_of_isSolid hsolid, isBreak_of_isSolid hsolid, hindicator]
    simp [Scan.readToken, hflow, hedge, hstarts, hne '%' rfl, hne '[' rfl,
      hne '\x7b' rfl, hne ']' rfl, hne '\x7d' rfl, hne ',' rfl,
      hne '-' rfl, hne '?' rfl, hne ':' rfl, hne '*' rfl,
      hne '&' rfl, hne '!' rfl, hne '|' rfl, hne '>' rfl,
      hne '\'' rfl, hne '"' rfl]
  · cases cs with
    | nil => cases hnext
    | cons d cs =>
      have hd : isSolid d = true := hnext
      have hends : s.cursor.endsAt 1 = false := by
        rw [endsAt_one hc, hd]
        rfl
      have hgap : (s.cursor.at? 1).any isGap = false := by
        simp [Cursor.at?, hc, isGap_of_isSolid hd]
      simp only [List.contains_cons, List.contains_nil, Bool.or_false, Bool.or_eq_true, beq_iff_eq] at hmark
      rcases hmark with rfl | rfl | rfl
      all_goals simp [Scan.readToken, hflow, hedge, hends, hgap, startsPlain]

/-- No document begins or ends at a word with a colon. -/
theorem atDocumentEdge_word {w rest : List Char} (hw : ∀ ch ∈ w, isWordChar ch = true)
    (hc : c.rest = w ++ ':' :: rest) : c.atDocumentEdge = false := by
  have hends {a b d : Char} {more : List Char} (hword : w = a :: b :: d :: more) : c.endsAt 3 = false := by
    subst hword
    cases more with
    | nil => simp [Cursor.endsAt, Cursor.at?, hc, isGap, isBreak]
    | cons ch more =>
      have hsolid := isSolid_of_isWordChar (hw ch (by simp))
      simp [Cursor.endsAt, Cursor.at?, hc, isGap_of_isSolid hsolid, isBreak_of_isSolid hsolid]
  have hmark (mark : Char) (hcolon : mark ≠ ':') : c.atDocumentMark mark = false := by
    unfold Cursor.atDocumentMark
    rcases w with _ | ⟨a, _ | ⟨b, _ | ⟨d, more⟩⟩⟩
    · simp [hc, hcolon]
    · simp [hc, hcolon]
    · simp [hc, hcolon]
    · rw [hends rfl, Bool.and_false]
  rw [Cursor.atDocumentEdge, hmark '-' (by decide), hmark '.' (by decide)]
  rfl

/-- **A key is read** as a scalar that may turn out to be a key. -/
theorem readPlainScalar_key {w rest : List Char} (hword : ∀ ch ∈ w, isWordChar ch = true)
    (hplain : isPlainLine w = true) (hindent : Outline.indentOf o.columns ≤ c.column)
    (hc : c.rest = w ++ ':' :: rest) (hrest : ∀ d ∈ rest.head?, isSolid d = false) :
    ∃ required, (o.scan c true none).readPlainScalar =
      some ((o.push (.scalar (String.ofList w) true)).scan (c.advance w.length) false
        (some ⟨o.tokens.length, required, c⟩)) := by
  have hafter : (c.advance w.length).rest = ':' :: rest := Cursor.rest_advance hc
  have hread : readPlain false (Outline.indentOf o.columns + 1).toNat (c.rest.length + 1) c [] ⟨[], false, c⟩ =
      some ⟨w, c.advance w.length, false⟩ :=
    readPlain_line hplain (atDocumentEdge_word hword hc) (by omega) hc (.colon hafter hrest)
  refine ⟨Outline.indentOf o.columns == c.column, ?_⟩
  change (readPlain false (Outline.indentOf o.columns + 1).toNat (c.rest.length + 1) c []
    ⟨[], false, c⟩).bind _ = _
  rw [hread]
  rfl

theorem close_eq_self {column : Int} (h : Outline.indentOf o.columns ≤ column) : o.close column = o := by
  obtain ⟨tokens, columns⟩ := o
  cases columns with
  | nil => rfl
  | cons n rest =>
    have hn : ¬ column < n := by
      change (n : Int) ≤ column at h
      omega
    exact if_neg hn

/-- **A colon after a key** makes it one, and opens the block that the key is in. -/
theorem step_colon {k : KeyPlace} {t : Token} {d : Char} (hc : c.rest = ':' :: d :: cs)
    (hd : isSolid d = false) (hbefore : k.before = o.tokens.length) (hline : k.start.line = c.line)
    (hindex : c.index ≤ k.start.index + 1024) (hindent : Outline.indentOf o.columns ≤ k.start.column)
    (hcolumn : k.start.column ≤ c.column) :
    ((o.push t).scan c false (some k)).step =
      some (((((o.enter k.start.column .openBlockMap).push .key).push t).push .value).scan (c.advance 1) false
        none) := by
  have horder : (c.index == 0 && c.sees (Char.ofNat 0xFEFF)) = false := by
    rw [Cursor.sees_cons hc, Bool.and_eq_false_iff]
    exact Or.inr (by decide)
  have hskip : ((o.push t).scan c false (some k)).skipSpace (c.rest.length + 1) =
      (o.push t).scan c false (some k) :=
    skipSpace_spaces (n := 0) horder hc (by rintro ch ⟨⟩; decide) _
  have hfresh : Scan.isStale k c = false := by
    simp only [Scan.isStale, Bool.or_eq_false_iff, decide_eq_false_iff_not]
    omega
  have hstale : ((o.push t).scan c false (some k)).dropStale = some ((o.push t).scan c false (some k)) := by
    simp [Scan.dropStale, Outline.scan, hfresh]
  have hclose : (o.push t).close c.column = o.push t := by
    refine close_eq_self ?_
    change Outline.indentOf o.columns ≤ _
    omega
  have hedge : c.atDocumentEdge = false := atDocumentEdge_word (w := [])
    (fun ch hch => absurd hch List.not_mem_nil) hc
  have hspaced : c.endsAt 1 = true := by
    rw [endsAt_one hc, hd]
    rfl
  have hvalue : ((o.push t).scan c false (some k)).readToken ':' =
      ((o.push t).scan c false (some k)).readValue := by
    simp [Scan.readToken, Outline.scan, hedge, hspaced]
  have hkey : ((o.push t).scan c false none).insertAt k.before .key =
      ((o.push .key).push t).scan c false none := by
    rw [hbefore]
    exact o.scan_insertAt c false none [t] .key
  have hopen : (((o.push .key).push t).scan c false none).openBlock k.start.column k.before .openBlockMap =
      (((o.enter k.start.column .openBlockMap).push .key).push t).scan c false none := by
    rw [hbefore]
    exact o.scan_openBlock c false none [t, .key] k.start.column .openBlockMap
  rw [step_token hskip hstale hc, hclose, hvalue, Scan.readValue]
  change some (((((((o.push t).scan c false none).insertAt k.before .key).openBlock k.start.column k.before
    .openBlockMap)).allowKey false).take 1 .value) = _
  rw [hkey, hopen]
  rfl

theorem readGap_spaces {indent : Nat} (hcs : ∀ ch ∈ cs.head?, isSolid ch = true) :
    ∀ (n fuel : Nat) (c : Cursor), n < fuel → c.rest = List.replicate n ' ' ++ cs →
      readGap indent fuel c [] (some ['\n']) [] = some ⟨[' '], true, c.advance n⟩ := by
  intro n
  induction n with
  | zero =>
    intro fuel c hfuel hc
    obtain ⟨fuel, rfl⟩ : ∃ n, fuel = n + 1 := ⟨fuel - 1, by omega⟩
    have hrest : c.rest = cs := hc
    rw [readGap, hrest]
    cases cs with
    | nil => rfl
    | cons ch cs =>
      dsimp only
      rw [isGap_of_isSolid (hcs ch rfl), isBreak_of_isSolid (hcs ch rfl)]
      rfl
  | succ n ih =>
    intro fuel c hfuel hc
    obtain ⟨fuel, rfl⟩ : ∃ n, fuel = n + 1 := ⟨fuel - 1, by omega⟩
    rw [List.replicate_succ, List.cons_append] at hc
    have hnext : (c.advance 1).rest = List.replicate n ' ' ++ cs := Cursor.rest_advance (a := [' ']) hc
    have hmore := ih fuel (c.advance 1) (by omega) hnext
    rw [Cursor.advance_advance, Nat.add_comm] at hmore
    rw [readGap, hc]
    exact hmore

/-- **A line break in a scalar**, with the spaces after it, becomes one space. -/
theorem readGap_break (indent : Nat) (hc : c.rest = '\n' :: (List.replicate n ' ' ++ cs))
    (hcs : ∀ ch ∈ cs.head?, isSolid ch = true) :
    readGap indent (c.rest.length + 1) c [] none [] = some ⟨[' '], true, (c.nextLine 1).advance n⟩ := by
  have hrest : (c.nextLine 1).rest = List.replicate n ' ' ++ cs := by
    rw [Cursor.nextLine, hc]
    rfl
  have hnext : c.takeBreak = (['\n'], c.nextLine 1) := by
    rw [Cursor.takeBreak, hc]
    rfl
  have hfuel : n < c.rest.length := by
    rw [hc, List.length_cons, List.length_append, List.length_replicate]
    omega
  rw [readGap, hc]
  dsimp only
  rw [hnext, ← hc]
  exact readGap_spaces hcs n c.rest.length (c.nextLine 1) hfuel hrest

theorem beginsPlain_append {ch : Char} {rest : List Char} (h : beginsPlain ch rest = true) (tail : List Char) :
    beginsPlain ch (rest ++ tail) = true := by
  cases rest with
  | nil =>
    simp only [beginsPlain, List.head?_nil, Option.any_none, Bool.and_false, Bool.or_false] at h
    rw [Bool.and_eq_true] at h
    rw [beginsPlain, h.1, h.2]
    rfl
  | cons d rest => exact h

/-- The first token after a colon and a space. -/
theorem step_after_colon {ch : Char} (hc : c.rest = ' ' :: ch :: cs) (hch : isSolid ch = true)
    (hnumber : ch ≠ '#') (hcolumn : Outline.indentOf o.columns < c.column) :
    (o.scan c false none).step = (o.scan (c.advance 1) false none).readToken ch := by
  have horder : (c.index == 0 && c.sees (Char.ofNat 0xFEFF)) = false := by
    rw [Cursor.sees_cons hc, Bool.and_eq_false_iff]
    exact Or.inr (by decide)
  have hspace : c.rest = List.replicate 1 ' ' ++ ch :: cs := hc
  have hbegins : Begins (ch :: cs) := by
    rintro d ⟨⟩
    exact ⟨hch, hnumber⟩
  have hnext : (c.advance 1).rest = ch :: cs := Cursor.rest_advance (a := [' ']) hc
  have hclose : o.close (c.advance 1).column = o := by
    refine close_eq_self ?_
    change _ ≤ ((c.column + 1 : Nat) : Int)
    omega
  rw [step_token (skipSpace_spaces horder hspace hbegins _) (Outline.scan_dropStale ..) hnext, hclose]

/-- **A plain scalar behind a colon** is read to the end of the line. -/
theorem step_plain {text : List Char} (hplain : isPlainLine text = true)
    (hc : c.rest = ' ' :: (text ++ '\n' :: (List.replicate n ' ' ++ cs))) (hbegins : Begins cs)
    (hcolumn : Outline.indentOf o.columns < c.column) (hn : n ≤ Outline.indentOf o.columns) :
    (o.scan c false none).step =
      some ((o.push (.scalar (String.ofList text) true)).scan
        (((c.advance (text.length + 1)).nextLine 1).advance n) true none) := by
  cases text with
  | nil => cases hplain
  | cons ch rest =>
    have hnext : (c.advance 1).rest = ch :: rest ++ '\n' :: (List.replicate n ' ' ++ cs) :=
      Cursor.rest_advance (a := [' ']) hc
    have hbeginsPlain : beginsPlain ch rest = true := by
      rw [isPlainLine, Bool.and_eq_true] at hplain
      exact hplain.1
    have hsolid : isSolid ch = true := by
      rw [beginsPlain, Bool.and_eq_true] at hbeginsPlain
      exact hbeginsPlain.1
    have hedge : (c.advance 1).atDocumentEdge = false := Cursor.atDocumentEdge_inside (Nat.succ_pos c.column)
    have hend : ((c.advance 1).advance (ch :: rest).length).rest = '\n' :: (List.replicate n ' ' ++ cs) :=
      Cursor.rest_advance hnext
    have hgap := readGap_break (Outline.indentOf o.columns + 1).toNat hend
      fun d hd => (hbegins d hd).1
    have hread : readPlain false (Outline.indentOf o.columns + 1).toNat ((c.advance 1).rest.length + 1)
        (c.advance 1) [] ⟨[], false, c.advance 1⟩ =
          some ⟨ch :: rest, (((c.advance 1).advance (ch :: rest).length).nextLine 1).advance n, true⟩ := by
      refine readPlain_line hplain hedge ?_ hnext (.line hend (by decide) hgap ?_)
      · change _ ≤ c.column + 1 + 1
        omega
      · change 0 + n < _
        omega
    rw [step_after_colon hc hsolid (not_number_of_begins hbeginsPlain) hcolumn,
      readToken_plain rfl hedge hnext (beginsPlain_append hbeginsPlain _)]
    change (readPlain false (Outline.indentOf o.columns + 1).toNat ((c.advance 1).rest.length + 1)
      (c.advance 1) [] ⟨[], false, c.advance 1⟩).bind _ = _
    rw [hread, Cursor.advance_advance, Nat.add_comm 1]
    rfl

/-- **A quoted scalar behind a colon** is read up to the mark at its end. -/
theorem step_quoted {source text : List Char} (hquoted : unquoted? 0 source = some text)
    (hc : c.rest = ' ' :: '"' :: (source ++ '"' :: cs)) (hcolumn : Outline.indentOf o.columns < c.column) :
    (o.scan c false none).step =
      some ((o.push (.scalar (String.ofList text) false)).scan (c.advance (source.length + 3)) false none) := by
  have hnext : (c.advance 1).rest = '"' :: (source ++ '"' :: cs) := Cursor.rest_advance (a := [' ']) hc
  have hedge : (c.advance 1).atDocumentEdge = false := Cursor.atDocumentEdge_inside (Nat.succ_pos c.column)
  have hmark : (o.scan (c.advance 1) false none).readToken '"' =
      (o.scan (c.advance 1) false none).readMark (Scan.quotedToken .double) := by
    simp [Scan.readToken, Outline.scan, hedge]
  rw [step_after_colon hc (by decide) (by decide) hcolumn, hmark]
  change (Scan.quotedToken .double (c.advance 1)).bind _ = _
  rw [quotedToken_line hquoted hnext, Cursor.advance_advance, Nat.add_comm 1]
  rfl

end

/-! ### Lines -/

namespace Outline

variable (o : Outline)

theorem indentOf_close (column : Nat) : indentOf (o.close column).columns ≤ column := by
  have hclose (columns : List Nat) : ∀ tokens, indentOf (closeFrom column tokens columns).columns ≤ column := by
    induction columns with
    | nil =>
      intro tokens
      change (-1 : Int) ≤ column
      omega
    | cons n rest ih =>
      intro tokens
      rw [closeFrom]
      split
      next => exact ih _
      next hn =>
        change (n : Int) ≤ column
        omega
  exact hclose o.columns o.tokens

theorem indentOf_enter {o : Outline} {column : Nat} (h : indentOf o.columns ≤ column) (t : Token) :
    indentOf (o.enter column t).columns = column := by
  unfold enter
  split
  next => rfl
  next hn => omega

theorem indentOf_addMark (l : Line) : indentOf (o.addMark l).columns ≤ l.keyColumn := by
  have hclose := o.indentOf_close l.column
  unfold addMark Line.keyColumn
  split
  next =>
    have henter := indentOf_enter hclose .openBlockList
    change indentOf ((o.close l.column).enter l.column .openBlockList).columns ≤ _
    omega
  next => exact hclose

end Outline

/-- **A state of reading stands before lines**: after white space comes the content of the first line. -/
structure AtLines (s : Scan) (o : Outline) (lines : List Line) (c : Cursor) : Prop where
  done : s.done = false
  skip : s.skipSpace (s.cursor.rest.length + 1) = o.scan c true none
  rest : c.rest = contents lines
  column : c.column = firstColumn lines

variable {s : Scan} {o : Outline} {lines : List Line} {l : Line} {c : Cursor}

/-- The end of a line comes before the next lines. -/
theorem atLines_of_break (hc : c.rest = '\n' :: lines.flatMap Line.chars) (hbegins : Begins (contents lines))
    (keyAllowed : Bool) :
    AtLines (o.scan c keyAllowed none) o lines ((c.nextLine 1).advance (firstColumn lines)) := by
  rw [chars_eq_contents] at hc
  have hrest : (c.nextLine 1).rest = List.replicate (firstColumn lines) ' ' ++ contents lines := by
    rw [Cursor.nextLine, hc]
    rfl
  refine ⟨rfl, ?_, ?_, ?_⟩
  · change (o.scan c keyAllowed none).skipSpace (c.rest.length + 1) = _
    rw [hc]
    exact skipSpace_break hc hbegins _
  · have hafter := Cursor.rest_advance hrest
    rwa [List.length_replicate] at hafter
  · exact Nat.zero_add _

/-- The mark of an item is read, if there is one, and the key of the line comes next. -/
theorem run_mark {tail : List Char} (hskip : s.skipSpace (s.cursor.rest.length + 1) = o.scan c true none)
    (hdone : s.done = false) (hc : c.rest = l.content ++ tail) (hcolumn : c.column = l.column)
    (hbegins : Begins (l.keyed ++ tail)) :
    ∃ n s' o' c', n + l.keyed.length ≤ l.content.length ∧ Scan.Run n s s' ∧ s'.done = false ∧
      s'.skipSpace (s'.cursor.rest.length + 1) = Outline.scan o' c' true none ∧
      o'.close c'.column = o.addMark l ∧ c'.rest = l.keyed ++ tail ∧ c'.column = l.keyColumn := by
  by_cases hitem : l.item = true
  · rw [Line.content, if_pos hitem] at hc ⊢
    have hmark : c.rest = '-' :: ' ' :: (l.keyed ++ tail) := hc
    have hstep : s.step = some ((o.addMark l).scan (c.advance 1) true none) := by
      rw [step_token hskip (Outline.scan_dropStale ..) hmark, hcolumn, readToken_item hmark, hcolumn,
        Outline.addMark, if_pos hitem]
    have hnext : (c.advance 1).rest = List.replicate 1 ' ' ++ (l.keyed ++ tail) :=
      Cursor.rest_advance (a := ['-']) hmark
    have hclose : (o.addMark l).close ((c.advance 1).advance 1).column = o.addMark l := by
      refine close_eq_self ?_
      have hindent := o.indentOf_addMark l
      rw [Line.keyColumn, if_pos hitem] at hindent
      change _ ≤ ((c.column + 1 + 1 : Nat) : Int)
      omega
    refine ⟨1, _, o.addMark l, (c.advance 1).advance 1, by simp; omega, .one hdone hstep, rfl,
      skipSpace_spaces rfl hnext hbegins _, hclose, Cursor.rest_advance (a := [' ']) hnext, ?_⟩
    rw [Line.keyColumn, if_pos hitem, ← hcolumn]
    rfl
  · rw [Line.content, if_neg hitem, List.nil_append] at hc ⊢
    refine ⟨0, s, o, c, by omega, .none s, hdone, hskip, ?_, hc, ?_⟩
    · rw [hcolumn, Outline.addMark, if_neg hitem]
    · rw [hcolumn, Line.keyColumn, if_neg hitem]

/-- The key of a line is read with its colon. -/
theorem run_key {tail : List Char} (hsound : l.Sound)
    (hskip : s.skipSpace (s.cursor.rest.length + 1) = o.scan c true none)
    (hdone : s.done = false) (hc : c.rest = l.keyed ++ tail) {o' : Outline} (hclose : o.close c.column = o')
    (hindent : Outline.indentOf o'.columns ≤ c.column) :
    Scan.Run 2 s ((o'.addKey c.column l.key).scan (c.advance (l.key.toList.length + 1)) false none) := by
  have hkeyed : c.rest = l.key.toList ++ ':' :: (l.value.chars ++ '\n' :: tail) := by
    rw [hc, Line.keyed]
    simp
  obtain ⟨d, behind, hbehind, hd⟩ : ∃ d behind, l.value.chars ++ '\n' :: tail = d :: behind ∧
      isSolid d = false := by
    cases l.value with
    | nothing => exact ⟨'\n', tail, rfl, by decide⟩
    | plain text => exact ⟨' ', _, rfl, by decide⟩
    | quoted source text => exact ⟨' ', _, rfl, by decide⟩
  rw [hbehind] at hkeyed
  have hedge := atDocumentEdge_word hsound.word hkeyed
  have hrest : ∀ a ∈ (d :: behind).head?, isSolid a = false := by
    rintro a ⟨⟩
    exact hd
  obtain ⟨required, hread⟩ := readPlainScalar_key hsound.word hsound.plain hindent hkeyed hrest
  rw [String.ofList_toList] at hread
  have hkey : s.step = some ((o'.push (.scalar l.key true)).scan (c.advance l.key.toList.length) false
      (some ⟨o'.tokens.length, required, c⟩)) := by
    cases hletters : l.key.toList with
    | nil =>
      have hplain := hsound.plain
      rw [hletters] at hplain
      cases hplain
    | cons ch w =>
      have hplain := hsound.plain
      rw [hletters] at hkeyed hread
      rw [hletters, isPlainLine, Bool.and_eq_true] at hplain
      have hcons : c.rest = ch :: (w ++ ':' :: d :: behind) := hkeyed
      rw [step_token hskip (Outline.scan_dropStale ..) hcons, hclose,
        readToken_plain rfl hedge hcons (beginsPlain_append hplain.1 _), hread]
  have hcolon := step_colon (k := ⟨o'.tokens.length, required, c⟩) (t := .scalar l.key true)
    (Cursor.rest_advance hkeyed) hd rfl rfl (Nat.add_le_add_left hsound.short c.index) hindent
    (Nat.le_add_right c.column l.key.toList.length)
  rw [Cursor.advance_advance] at hcolon
  exact .step hdone hkey (.one rfl hcolon)

theorem indentOf_addKey {column : Nat} (h : Outline.indentOf o.columns ≤ column) (key : String) :
    Outline.indentOf (o.addKey column key).columns = column :=
  Outline.indentOf_enter h .openBlockMap

/-- The scalar behind a colon is read, if there is one, and the next lines come. -/
theorem run_value (v : Line.Value) (hsound : v.Sound) (hbegins : Begins (contents lines))
    (hc : c.rest = v.chars ++ '\n' :: lines.flatMap Line.chars)
    (hcolumn : Outline.indentOf o.columns < c.column)
    (hadmits : ∀ text, v = .plain text → firstColumn lines ≤ Outline.indentOf o.columns) :
    ∃ n s' c', n ≤ v.chars.length ∧ Scan.Run n (o.scan c false none) s' ∧
      AtLines s' (v.add o) lines c' := by
  cases v with
  | nothing => exact ⟨0, _, _, Nat.le_refl 0, .none _, atLines_of_break hc hbegins false⟩
  | plain text =>
    have hlines : c.rest =
        ' ' :: (text.toList ++ '\n' :: (List.replicate (firstColumn lines) ' ' ++ contents lines)) := by
      rw [hc, chars_eq_contents]
      rfl
    have hstep := step_plain hsound hlines hbegins hcolumn (hadmits text rfl)
    rw [String.ofList_toList] at hstep
    have hbreak : (c.advance (text.toList.length + 1)).rest =
        '\n' :: (List.replicate (firstColumn lines) ' ' ++ contents lines) :=
      Cursor.rest_advance (a := ' ' :: text.toList) hlines
    have hnext : (((c.advance (text.toList.length + 1)).nextLine 1).advance (firstColumn lines)).rest =
        contents lines := by
      have hrest : ((c.advance (text.toList.length + 1)).nextLine 1).rest =
          List.replicate (firstColumn lines) ' ' ++ contents lines := by
        rw [Cursor.nextLine, hbreak]
        rfl
      have hafter := Cursor.rest_advance hrest
      rwa [List.length_replicate] at hafter
    have hindex : ((((c.advance (text.toList.length + 1)).nextLine 1).advance (firstColumn lines)).index == 0) =
        false := by
      rw [beq_eq_false_iff_ne]
      change c.index + (text.toList.length + 1) + 1 + firstColumn lines ≠ 0
      omega
    refine ⟨1, _, _, by simp [Line.Value.chars], .one rfl hstep, rfl, ?_, hnext, Nat.zero_add _⟩
    exact skipSpace_spaces (n := 0) (by rw [hindex]; rfl) hnext hbegins _
  | quoted source text =>
    have hquoted : c.rest = ' ' :: '"' :: (source.toList ++ '"' :: '\n' :: lines.flatMap Line.chars) := by
      rw [hc]
      simp [Line.Value.chars]
    have hstep := step_quoted hsound hquoted hcolumn
    rw [String.ofList_toList] at hstep
    have hbreak : (c.advance (source.toList.length + 3)).rest = '\n' :: lines.flatMap Line.chars := by
      have hsplit : c.rest = (' ' :: '"' :: (source.toList ++ ['"'])) ++ '\n' :: lines.flatMap Line.chars := by
        rw [hquoted]
        simp
      have hafter := Cursor.rest_advance hsplit
      simpa using hafter
    exact ⟨1, _, _, by simp [Line.Value.chars], .one rfl hstep, atLines_of_break hbreak hbegins false⟩

/-- **One line is read as it says.** -/
theorem run_line {rest : List Line} (h : AtLines s o (l :: rest) c) (hsound : l.Sound)
    (hadmits : l.Admits (firstColumn rest)) (hbegins : Begins (contents rest)) :
    ∃ n s' c', n ≤ l.content.length ∧ Scan.Run n s s' ∧ AtLines s' (o.addLine l) rest c' := by
  obtain ⟨m, s₁, o₁, c₁, hm, hmark, hdone, hskip, hclose, hc₁, hcolumn⟩ :=
    run_mark h.skip h.done h.rest h.column (hsound.begins_keyed _)
  have hindent := o.indentOf_addMark l
  have hkey := run_key hsound hskip hdone hc₁ hclose (by rw [hcolumn]; exact hindent)
  rw [hcolumn] at hkey
  have hafter : (c₁.advance (l.key.toList.length + 1)).rest =
      l.value.chars ++ '\n' :: rest.flatMap Line.chars := by
    have hsplit : c₁.rest = (l.key.toList ++ [':']) ++ (l.value.chars ++ '\n' :: rest.flatMap Line.chars) := by
      rw [hc₁, Line.keyed]
      simp
    have hafter := Cursor.rest_advance hsplit
    rwa [List.length_append] at hafter
  have hblock := indentOf_addKey hindent l.key
  have hbehind : Outline.indentOf ((o.addMark l).addKey l.keyColumn l.key).columns <
      (c₁.advance (l.key.toList.length + 1)).column := by
    rw [hblock]
    change (l.keyColumn : Int) < ((c₁.column + (l.key.toList.length + 1) : Nat) : Int)
    omega
  have hout : ∀ text, l.value = .plain text →
      firstColumn rest ≤ Outline.indentOf ((o.addMark l).addKey l.keyColumn l.key).columns := by
    intro text htext
    rw [Line.Admits, htext] at hadmits
    rw [hblock]
    exact Int.ofNat_le.mpr hadmits
  obtain ⟨n, s', c', hn, hvalue, hnext⟩ := run_value l.value hsound.value hbegins hafter hbehind hout
  have hletters : 0 < l.key.toList.length := by
    refine List.length_pos_iff.mpr fun hnil => ?_
    have hplain := hsound.plain
    rw [hnil] at hplain
    cases hplain
  refine ⟨m + (2 + n), s', c', ?_, hmark.trans (hkey.trans hvalue), hnext⟩
  simp only [Line.keyed, List.length_append, List.length_cons, List.length_nil] at hm
  omega

/-- **Lines are read as they say**, one after the other. -/
theorem run_lines (lines : List Line) : ∀ {s : Scan} {o : Outline} {c : Cursor}, SoundLines lines →
    AtLines s o lines c → ∃ n s' c', n ≤ (lines.flatMap Line.chars).length ∧ Scan.Run n s s' ∧
      AtLines s' (lines.foldl Outline.addLine o) [] c' := by
  induction lines with
  | nil => exact fun _ h => ⟨0, _, _, Nat.le_refl 0, .none _, h⟩
  | cons l rest ih =>
    intro s o c hsound h
    obtain ⟨m, s₁, c₁, hm, hline, hnext⟩ := run_line h hsound.1 hsound.2.1 (begins_contents hsound.2.2)
    obtain ⟨n, s', c', hn, hlines, hend⟩ := ih hsound.2.2 hnext
    refine ⟨m + n, s', c', ?_, hline.trans hlines, hend⟩
    rw [List.flatMap_cons, List.length_append, Line.chars, List.length_append]
    omega

/-- At the end of the document the open blocks are closed. -/
theorem run_end (h : AtLines s o [] c) (fuel : Nat) : s.run (fuel + 2) = o.finish := by
  have hfinish : ((o.close c.column).scan c true none).finish =
      some { (((o.close c.column).close (-1)).push .streamEnd).scan c true none with done := true } := by
    change ((((o.close c.column).scan c true none).closeBlocks (-1)).dropKey).bind _ = _
    rw [Outline.scan_closeBlocks]
    rfl
  rw [Scan.run, h.done, step_end h.skip h.rest, hfinish, h.column]
  rfl

/-- **The tokens of a document of lines** are those that the lines say. -/
theorem tokens_ofLines {text : String} (htext : text.toList = lines.flatMap Line.chars)
    (hsound : SoundLines lines) (hallowed : text.toList.all isAllowed = true)
    (horder : text.toList.head? ≠ some (Char.ofNat 0xFEFF)) :
    tokens text = (lines.foldl Outline.addLine {}).finish := by
  have hrest : (Cursor.start text.toList).rest =
      List.replicate (firstColumn lines) ' ' ++ contents lines := by
    rw [← chars_eq_contents, ← htext]
    rfl
  have hfirst : (Cursor.start text.toList).sees (Char.ofNat 0xFEFF) = false := by
    rw [Cursor.sees, beq_eq_false_iff_ne]
    exact horder
  have hstart : AtLines { cursor := .start text.toList } {} lines
      ((Cursor.start text.toList).advance (firstColumn lines)) := by
    refine ⟨rfl, ?_, ?_, Nat.zero_add _⟩
    · exact skipSpace_spaces (o := {}) (by rw [hfirst, Bool.and_false]) hrest (begins_contents hsound) _
    · have hafter := Cursor.rest_advance hrest
      rwa [List.length_replicate] at hafter
  obtain ⟨n, s', c', hn, hrun, hend⟩ := run_lines lines hsound hstart
  rw [← htext] at hn
  obtain ⟨fuel, hfuel⟩ := Nat.exists_eq_add_of_le hn
  rw [tokens, if_pos hallowed, hfuel, Nat.add_assoc]
  exact (hrun.run (fuel + 2)).trans (run_end hend fuel)

end Runsheet.Yaml
