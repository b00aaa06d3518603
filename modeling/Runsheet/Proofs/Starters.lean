import Runsheet.CommandLine.Commands
import Runsheet.Proofs.Lines
import Runsheet.Proofs.Trees

/-!
# New playbooks

A new playbook file holds the same lines for every name, with the name in two of them: as a plain scalar, which
is the identifier, and between the quotation marks of a message.  So whether the file can be used depends on what
the name is as a scalar.

* `CommandLine.Disk.read_write` — a file that was written is read;
* `CommandLine.read_starterPlaybook` — what a new playbook file holds;
* `CommandLine.StandsForItself` — the names that are read as they are written;
* `new_playbook_usable_iff` — the result;
* `null_playbook_unusable` — a name that stands for nothing.
-/

namespace Runsheet

namespace CommandLine

open Yaml

/-! ### Files -/

namespace Disk

variable {d d' : Disk} {p q : Place} {path text : String}

/-- The disk with a file. -/
def put (d : Disk) (p : Place) (text : String) : Disk :=
  { d with files := (p, text) :: d.files.filter fun file => file.1 ≠ p }

theorem text?_put_self : (d.put p text).text? p = some text := by
  simp [text?, put]

/-- The other files stay as they are. -/
theorem text?_put_of_ne (h : q ≠ p) : (d.put p text).text? q = d.text? q := by
  have hfilter (files : List (Place × String)) :
      (files.filter fun file => file.1 ≠ p).lookup q = files.lookup q := by
    induction files with
    | nil => rfl
    | cons file files ih =>
      obtain ⟨r, other⟩ := file
      by_cases hr : r = p
      · have hq : (q == r) = false := beq_eq_false_iff_ne.mpr (hr ▸ h)
        rw [List.filter_cons_of_neg (by simp [hr]), ih, List.lookup_cons, hq]
      · rw [List.filter_cons_of_pos (by simpa using hr), List.lookup_cons, List.lookup_cons, ih]
  have hq : (q == p) = false := beq_eq_false_iff_ne.mpr h
  rw [text?, put, List.lookup_cons, hq]
  exact hfilter d.files

/-- No folder goes away. -/
theorem isFolder_put (h : d.isFolder q = true) : (d.put p text).isFolder q = true := by
  rw [isFolder, Bool.or_eq_true] at h ⊢
  refine h.imp id fun hfile => ?_
  obtain ⟨file, hfile, hq⟩ := List.any_eq_true.mp hfile
  rw [List.any_eq_true]
  by_cases hp : file.1 = p
  · exact ⟨(p, text), List.mem_cons_self, by rwa [← hp]⟩
  · exact ⟨file, List.mem_cons_of_mem _ (List.mem_filter.mpr ⟨hfile, by simpa using hp⟩), hq⟩

/-- A file is not in its own way. -/
theorem obstacle?_put (names : List String) : ∀ {before : Place}, before ++ names = p →
    d.obstacle? before names = none → (d.put p text).obstacle? before names = none := by
  induction names with
  | nil => exact fun _ _ => rfl
  | cons name rest ih =>
    intro before hp h
    rw [obstacle?] at h ⊢
    by_cases hlong : maxName < name.utf8ByteSize
    · rw [if_pos hlong] at h
      cases h
    · rw [if_neg hlong] at h ⊢
      by_cases hlast : rest = []
      · rw [if_pos hlast]
      · rw [if_neg hlast] at h ⊢
        have hhere : before ++ [name] ≠ p := by
          rw [← hp]
          simpa using Ne.symm hlast
        rw [text?_put_of_ne hhere]
        by_cases hfile : (d.text? (before ++ [name])).isSome = true
        · rw [if_pos hfile] at h
          cases h
        · rw [if_neg hfile] at h ⊢
          by_cases hfolder : d.isFolder (before ++ [name]) = true
          · rw [if_pos hfolder] at h
            rw [if_pos (isFolder_put hfolder)]
            exact ih (by rw [List.append_assoc]; exact hp) h
          · rw [if_neg hfolder] at h
            cases h

/-- **A file that was written is read.** -/
theorem read_write (h : d.write path text = .ok d') : d'.read path = .ok text := by
  unfold write at h
  dsimp only at h
  cases hway : d.obstacle? [] (Place.ofPath path) with
  | some problem =>
    rw [hway] at h
    cases h
  | none =>
    rw [hway] at h
    dsimp only at h
    by_cases hfolder : d.isFolder (Place.ofPath path) = true
    · rw [if_pos hfolder] at h
      cases h
    · rw [if_neg hfolder] at h
      by_cases hname : Place.namesFolder path = true
      · rw [if_pos hname] at h
        cases h
      · rw [if_neg hname] at h
        have hd' : d.put (Place.ofPath path) text = d' := Except.ok.inj h
        have hway' : (d.put (Place.ofPath path) text).obstacle? [] (Place.ofPath path) = none :=
          obstacle?_put _ rfl hway
        unfold read
        dsimp only
        rw [← hd', hway', text?_put_self]
        exact if_neg hname

end Disk

section

variable {α β : Type} {x : ExceptT String (StateM Desk) α} {k : α → ExceptT String (StateM Desk) β}
variable {desk desk' : Desk} {name folder : String}

/-- Both parts of a command that has succeeded have succeeded. -/
theorem exists_of_run_bind {b : β} (h : (x >>= k).run desk = (.ok b, desk')) :
    ∃ a between, x.run desk = (.ok a, between) ∧ (k a).run between = (.ok b, desk') := by
  have hbind : (x >>= k).run desk = ExceptT.bindCont k (x.run desk).1 (x.run desk).2 := rfl
  rw [hbind] at h
  cases hx : x.run desk with
  | mk r between =>
    rw [hx] at h
    cases r with
    | ok a => exact ⟨a, between, rfl, h⟩
    | error problem => cases h

/-- Writing that has succeeded has changed the disk and nothing else. -/
theorem disk_of_write {path text : String} {done : Unit}
    (h : (liftM (Shell.onDisk.write path text) : ExceptT String (StateM Desk) _).run desk =
      (.ok (.ok done), desk')) : desk.disk.write path text = .ok desk'.disk := by
  have hchange : (liftM (Shell.onDisk.write path text) : ExceptT String (StateM Desk) _).run desk =
      (.ok (Desk.change (·.write path text) desk).1, (Desk.change (·.write path text) desk).2) := rfl
  rw [hchange, Desk.change] at h
  cases hwrite : desk.disk.write path text with
  | error problem =>
    rw [hwrite] at h
    cases h
  | ok disk =>
    rw [hwrite] at h
    cases h
    rfl

/-- **The file of a new playbook** holds the starter playbook of its name. -/
theorem read_initPlaybook (h : (initPlaybook Shell.onDisk name folder).run desk = (.ok (), desk')) :
    desk'.disk.read (joinPath folder (name ++ ".yaml")) = .ok (starterPlaybook name) := by
  unfold initPlaybook at h
  obtain ⟨r, d₁, hmake, h⟩ := exists_of_run_bind h
  obtain ⟨_, d₂, hmade, h⟩ := exists_of_run_bind h
  dsimp only at h
  obtain ⟨found, d₃, hfound, h⟩ := exists_of_run_bind h
  cases found with
  | true => cases h
  | false =>
    obtain ⟨r', d₄, hwrite, h⟩ := exists_of_run_bind h
    obtain ⟨_, d₅, hwritten, h⟩ := exists_of_run_bind h
    cases r' with
    | error problem => cases hwritten
    | ok written =>
      cases hwritten
      cases h
      have hdisk := disk_of_write hwrite
      exact Disk.read_write hdisk

end

/-! ### The starter playbook -/

namespace Starter

/-- The message that a new playbook logs. -/
def saying (name : String) : String :=
  "\x7b\x7b greeting \x7d\x7d from " ++ name

/-- **The lines of a new playbook.**  The message is written as `source`. -/
def lines (name source message : String) : List Line :=
  [{ column := 0, key := "id", value := .plain name },
   { column := 0, key := "name", value := .plain "A starter playbook" },
   { column := 0, key := "vars" },
   { column := 2, key := "greeting", value := .plain "hello" },
   { column := 0, key := "workflow" },
   { column := 2, item := true, key := "log", value := .quoted source message },
   { column := 2, item := true, key := "set", value := .plain "started = true" },
   { column := 2, item := true, key := "parallel" },
   { column := 4, key := "threads", value := .plain "2" },
   { column := 4, key := "timeout", value := .plain "10" },
   { column := 4, key := "tasks" },
   { column := 6, item := true, key := "log", value := .plain "first branch" },
   { column := 6, item := true, key := "log", value := .plain "second branch" },
   { column := 2, item := true, key := "block" },
   { column := 6, item := true, key := "when", value := .plain "started == true" },
   { column := 6, item := true, key := "log", value := .plain "inside the block" },
   { column := 2, item := true, key := "log", value := .plain "done" },
   { column := 4, key := "repeat", value := .plain "2" }]

/-- A plain scalar. -/
def plain (text : String) : Node :=
  .scalar {} true text

/-- What stands under a plain key. -/
def field (key : String) (n : Node) : Node × Node :=
  (plain key, n)

/-- **The root of a new playbook.** -/
def node (name message : String) : Node :=
  .map {} [
    field "id" (plain name),
    field "name" (plain "A starter playbook"),
    field "vars" (.map {} [field "greeting" (plain "hello")]),
    field "workflow" (.list {} [
      .map {} [field "log" (.scalar {} false message)],
      .map {} [field "set" (plain "started = true")],
      .map {} [
        field "parallel" (plain ""),
        field "threads" (plain "2"),
        field "timeout" (plain "10"),
        field "tasks" (.list {} [
          .map {} [field "log" (plain "first branch")],
          .map {} [field "log" (plain "second branch")]])],
      .map {} [field "block" (.list {} [
        .map {} [field "when" (plain "started == true")],
        .map {} [field "log" (plain "inside the block")]])],
      .map {} [field "log" (plain "done"), field "repeat" (plain "2")]])]

/-- The value under a key. -/
def entry (key : String) (v : Value) : Value × Value :=
  (.string key, v)

/-- **The value of a new playbook.** -/
def value (id : Value) (message : String) : Value :=
  .map [
    entry "id" id,
    entry "name" (.string "A starter playbook"),
    entry "vars" (.map [entry "greeting" (.string "hello")]),
    entry "workflow" (.list [
      .map [entry "log" (.string message)],
      .map [entry "set" (.string "started = true")],
      .map [
        entry "parallel" .null,
        entry "threads" (.number (.int 2)),
        entry "timeout" (.number (.int 10)),
        entry "tasks" (.list [
          .map [entry "log" (.string "first branch")],
          .map [entry "log" (.string "second branch")]])],
      .map [entry "block" (.list [
        .map [entry "when" (.string "started == true")],
        .map [entry "log" (.string "inside the block")]])],
      .map [entry "log" (.string "done"), entry "repeat" (.number (.int 2))]])]

/-- **The starter playbook** with an identifier. -/
def playbook (id message : String) : Playbook :=
  { id,
    name := some "A starter playbook",
    vars := [("greeting", .string "hello")],
    tasks := [
      { id := "log", data := some message },
      { id := "set", data := some "started = true" },
      { id := "parallel", threads := 2, timeout := 10, children := [
        { id := "log", data := some "first branch" },
        { id := "log", data := some "second branch" }] },
      { id := "block", children := [
        { id := "when", data := some "started == true" },
        { id := "log", data := some "inside the block" }] },
      { id := "log", data := some "done", repetitions := 2 }] }

section

variable {name said message : String}

set_option maxRecDepth 8000 in
/-- A new playbook file is made of its lines. -/
theorem toList_eq_lines (name message : String) : (starterPlaybook name).toList =
    (lines name (saying name) message).flatMap Line.chars := by
  unfold starterPlaybook lines saying
  simp only [List.flatMap_cons, List.flatMap_nil, Line.chars, Line.content, Line.keyed, Line.Value.chars,
    String.toList_append]
  -- The name is left as it is, and both sides give the same characters around it.
  generalize name.toList = cs
  simp only [List.append_assoc, List.cons_append, List.nil_append, List.replicate, Bool.false_eq_true, if_false,
    if_true]
  rfl

theorem unquoted?_saying (hsaid : unquoted? 0 name.toList = some said.toList) :
    unquoted? 0 (saying name).toList = some (saying said).toList := by
  have hbefore : unquoted? 0 "\x7b\x7b greeting \x7d\x7d from ".toList =
      some "\x7b\x7b greeting \x7d\x7d from ".toList := by decide
  have hwhole := unquoted?_append name.toList hbefore
  rw [hsaid] at hwhole
  unfold saying
  rw [String.toList_append, String.toList_append]
  exact hwhole

/-- The lines can be read if the name can stand where it does. -/
theorem soundLines (hplain : isPlainLine name.toList = true)
    (hsaid : unquoted? 0 name.toList = some said.toList) :
    SoundLines (lines name (saying name) (saying said)) := by
  have hid : ({ column := 0, key := "id" } : Line).Sound := by decide
  have hlog : ({ column := 2, item := true, key := "log" } : Line).Sound := by decide
  have hbehind : SoundLines ((lines name (saying name) (saying said)).drop 6) := by
    change SoundLines ((lines "" "" "").drop 6)
    decide
  exact ⟨hid.put hplain, Nat.le_refl 0, by decide, Nat.le_refl 0, by decide, trivial, by decide, Nat.zero_le 2,
    by decide, trivial, hlog.put (unquoted?_saying hsaid), trivial, hbehind⟩

/-- The lines of a new playbook give the marks of its tree. -/
theorem exists_spells (name source message : String) : ∃ ts, Compose.Spells (node name message) ts ∧
    ((lines name source message).foldl Outline.addLine {}).finish = ts ++ [.streamEnd] := by
  have hlog (text : String) : Compose.Spells (.map {} [field "log" (plain text)]) _ :=
    .map <| .field (.plain text) .nil
  have hvars : Compose.Spells (.map {} [field "greeting" (plain "hello")]) _ :=
    .map <| .field (.plain "hello") .nil
  have hmessage : Compose.Spells (.map {} [field "log" (.scalar {} false message)]) _ :=
    .map <| .field (.node (.scalar false message)) .nil
  have hset : Compose.Spells (.map {} [field "set" (plain "started = true")]) _ :=
    .map <| .field (.plain "started = true") .nil
  have hbranches : Compose.Spells (.list {} [
      .map {} [field "log" (plain "first branch")], .map {} [field "log" (plain "second branch")]]) _ :=
    .list <| .cons (.node (hlog "first branch")) <| .cons (.node (hlog "second branch")) .nil
  have hparallel : Compose.Spells (.map {} [field "parallel" (plain ""), field "threads" (plain "2"),
      field "timeout" (plain "10"), field "tasks" _]) _ :=
    .map <| .field .empty <| .field (.plain "2") <| .field (.plain "10") <| .field (.node hbranches) .nil
  have hwhen : Compose.Spells (.map {} [field "when" (plain "started == true")]) _ :=
    .map <| .field (.plain "started == true") .nil
  have hblock : Compose.Spells (.map {} [field "block" _]) _ :=
    .map <| .field (.node <| .list <| .cons (.node hwhen) <| .cons (.node (hlog "inside the block")) .nil) .nil
  have hdone : Compose.Spells (.map {} [field "log" (plain "done"), field "repeat" (plain "2")]) _ :=
    .map <| .field (.plain "done") <| .field (.plain "2") .nil
  have hworkflow := Compose.Spells.list <| .cons (.node hmessage) <| .cons (.node hset) <|
    .cons (.node hparallel) <| .cons (.node hblock) <| .cons (.node hdone) .nil
  have hroot : Compose.Spells (node name message) _ :=
    .map <| .field (.plain name) <| .field (.plain "A starter playbook") <| .field (.node hvars) <|
      .field (.node hworkflow) .nil
  refine ⟨_, hroot, ?_⟩
  -- Which blocks a line opens and closes is seen from the columns alone.
  simp [lines, Outline.addLine, Outline.addMark, Outline.close, Outline.closeFrom, Outline.enter, Outline.addKey,
    Outline.push, Outline.finish, Outline.indentOf, Line.Value.add, Line.keyColumn]

/-- The tree of a new playbook has a value if the name has one as a scalar. -/
theorem ofDocument?_node (name message : String) :
    Value.ofDocument? (some (node name message)) = (Value.ofPlain name).map (value · message) := by
  have hroot (anchors : List (Nat × Node)) (limit : Nat) :
      (Value.ofNode anchors limit Value.maxDepth (node name message)).run 0 =
        (Value.ofPlain name).map fun id => (value id message, 0) := by
    have hid : Value.ofNode anchors limit 127 (plain name) = StateT.lift (Value.ofPlain name) :=
      Value.ofNode_scalar ..
    rw [node, Value.maxDepth, Value.ofNode_map, List.mapM_cons, field, hid]
    cases Value.ofPlain name with
    | none => rfl
    | some id => rfl
  rw [Value.ofDocument?, hroot, Option.map_map]
  rfl

/-- The whole file holds only characters that a document may hold if the name does. -/
theorem all_isAllowed (name : String) :
    (starterPlaybook name).toList.all isAllowed = name.toList.all isAllowed := by
  unfold starterPlaybook
  simp only [String.toList_append, List.all_append]
  cases name.toList.all isAllowed <;> rfl

/-- A new playbook file holds one tree. -/
theorem ofText_starterPlaybook (hplain : isPlainLine name.toList = true)
    (hsaid : unquoted? 0 name.toList = some said.toList) (hallowed : name.toList.all isAllowed = true) :
    Stream.ofText (starterPlaybook name) = ⟨[some (node name (saying said))], true⟩ := by
  have horder : (starterPlaybook name).toList.head? ≠ some (Char.ofNat 0xFEFF) := by
    intro h
    have hhead : (starterPlaybook name).toList.head? = some 'i' := by
      unfold starterPlaybook
      simp only [String.toList_append, List.append_assoc]
      rfl
    have hletter : 'i' = Char.ofNat 0xFEFF := Option.some.inj (hhead.symm.trans h)
    exact absurd hletter (by decide)
  obtain ⟨ts, hspells, hmarks⟩ := exists_spells name (saying name) (saying said)
  rw [Stream.ofText, tokens_ofLines (toList_eq_lines name (saying said)) (soundLines hplain hsaid)
    (by rw [all_isAllowed, hallowed]) horder, hmarks, List.length_append]
  exact Stream.read_spelled hspells ts.length

/-- A text with one map in it describes one playbook. -/
theorem read_of_map {text : String} {entries : List (Value × Value)}
    (h : Values.ofText text = ⟨[.map entries], true⟩) :
    Playbook.read text = Loader.playbook (.map entries) := by
  have hdocument : Loader.document (.map entries) = (fun p => [p]) <$> Loader.playbook (.map entries) := rfl
  rw [Playbook.read, Playbook.readAll, h, Loader.stream, Loader.documents, hdocument]
  cases Loader.playbook (.map entries) <;> rfl

/-- The tasks of a new playbook are read, whatever its identifier is. -/
theorem playbook_value (v : Value) (message : String) :
    Loader.playbook (value v message) = (do
      let id ← Loader.scalarText "id" v
      if Text.isBlankText id then throw (.missing .id)
      pure (playbook id message)) :=
  rfl

/-- The starter playbook has a plan of five steps. -/
theorem exists_plan (id message : String) :
    ∃ plan, ({} : Engine).plan (playbook id message) = .ok plan ∧ plan.id = id ∧ plan.steps.length = 5 :=
  ⟨_, rfl, rfl, rfl⟩

end

end Starter

open Starter

/-- **What a new playbook file holds**: nothing that can be read if the name has no value as a scalar, and
otherwise the starter playbook, with the text of that value as its identifier if it is one. -/
theorem read_starterPlaybook {name said : String} (hplain : isPlainLine name.toList = true)
    (hsaid : unquoted? 0 name.toList = some said.toList) (hallowed : name.toList.all isAllowed = true) :
    Playbook.read (starterPlaybook name) =
      match Value.ofPlain name with
      | none => .error .malformed
      | some v => (do
        let id ← Loader.scalarText "id" v
        if Text.isBlankText id then throw (.missing .id)
        pure (playbook id (saying said))) := by
  have hvalues : Values.ofText (starterPlaybook name) =
      match Value.ofPlain name with
      | none => ⟨[], false⟩
      | some v => ⟨[value v (saying said)], true⟩ := by
    rw [Values.ofText, ofText_starterPlaybook hplain hsaid hallowed]
    dsimp only
    rw [Values.ofDocuments, ofDocument?_node]
    cases Value.ofPlain name <;> rfl
  cases hid : Value.ofPlain name with
  | none =>
    rw [hid] at hvalues
    rw [Playbook.read, Playbook.readAll, hvalues]
    rfl
  | some v =>
    rw [hid] at hvalues
    exact (read_of_map hvalues).trans (playbook_value v (saying said))

/-- A name with a character that no document may hold makes a file that cannot be read. -/
theorem read_starterPlaybook_of_not_allowed {name : String} (h : name.toList.all isAllowed = false) :
    Playbook.read (starterPlaybook name) = .error .malformed := by
  have htokens : tokens (starterPlaybook name) = [.broken] := by
    rw [tokens, all_isAllowed, h]
    rfl
  rw [Playbook.read, Playbook.readAll, Values.ofText, Stream.ofText, htokens]
  rfl

/-- The playbook that a new file holds, if it holds one. -/
theorem read_starterPlaybook_eq_ok_iff {name said : String} (hplain : isPlainLine name.toList = true)
    (hsaid : unquoted? 0 name.toList = some said.toList) {p : Playbook} :
    Playbook.read (starterPlaybook name) = .ok p ↔
      name.toList.all isAllowed = true ∧ ∃ v id, Value.ofPlain name = some v ∧
        Loader.scalarText "id" v = .ok id ∧ Text.isBlankText id = false ∧ playbook id (saying said) = p := by
  cases hallowed : name.toList.all isAllowed with
  | false =>
    rw [read_starterPlaybook_of_not_allowed hallowed]
    simp
  | true =>
    rw [read_starterPlaybook hplain hsaid hallowed]
    cases Value.ofPlain name with
    | none => simp
    | some v =>
      cases htext : Loader.scalarText "id" v with
      | error problem => simp [htext, bind, Except.bind]
      | ok id =>
        cases hblank : Text.isBlankText id <;>
          simp [htext, hblank, bind, Except.bind, pure, Except.pure, throw, throwThe, MonadExceptOf.throw]

/-- **A text can be used as a playbook** with an identifier if it describes exactly one, with that identifier, and
the standard tasks are enough for its plan. -/
def IsUsable (id text : String) : Prop :=
  ∃ p plan, Playbook.read text = .ok p ∧ p.id = id ∧ ({} : Engine).plan p = .ok plan

/-- **A name stands for itself** if it is read as a scalar whose text is the name again. -/
def StandsForItself (name : String) : Prop :=
  ∃ v, Value.ofPlain name = some v ∧ Loader.scalarText "id" v = .ok name

/-- **A new playbook can be used** if and only if its name may stand in a document, stands for itself and is not
blank. -/
theorem isUsable_starterPlaybook_iff {name : String} (hplain : isPlainLine name.toList = true)
    (hsaid : (unquoted? 0 name.toList).isSome = true) :
    IsUsable name (starterPlaybook name) ↔
      name.toList.all isAllowed = true ∧ StandsForItself name ∧ Text.isBlankText name = false := by
  obtain ⟨said, hsaid⟩ := Option.isSome_iff_exists.mp hsaid
  rw [← String.toList_ofList (l := said)] at hsaid
  constructor
  · rintro ⟨p, plan, hread, hid, -⟩
    obtain ⟨hallowed, v, id, hv, htext, hblank, rfl⟩ := (read_starterPlaybook_eq_ok_iff hplain hsaid).mp hread
    cases hid
    exact ⟨hallowed, ⟨v, hv, htext⟩, hblank⟩
  · rintro ⟨hallowed, ⟨v, hv, htext⟩, hblank⟩
    obtain ⟨plan, hplan, -, -⟩ := exists_plan name (saying (String.ofList said))
    exact ⟨_, plan, (read_starterPlaybook_eq_ok_iff hplain hsaid).mpr ⟨hallowed, v, name, hv, htext, hblank, rfl⟩,
      rfl, hplan⟩

end CommandLine

open CommandLine Yaml

/-- **When a new playbook can be used.**  Creating the file has succeeded, and it holds the starter playbook.  Let
the name be a text that can stand as a plain scalar and between quotation marks.  The file then describes exactly one
playbook, with the name as its identifier and with a plan, if and only if the name holds only characters that a
document may hold, is read as a scalar with the same text, and is not blank.  Names like `null` or `1.50` are not
read so: the name is put into the file as it is. -/
theorem new_playbook_usable_iff {name folder : String} {desk desk' : Desk}
    (hinit : (initPlaybook Shell.onDisk name folder).run desk = (.ok (), desk')) :
    desk'.disk.read (joinPath folder (name ++ ".yaml")) = .ok (starterPlaybook name) ∧
      (isPlainLine name.toList = true → (unquoted? 0 name.toList).isSome = true →
        (IsUsable name (starterPlaybook name) ↔
          name.toList.all isAllowed = true ∧ StandsForItself name ∧ Text.isBlankText name = false)) :=
  ⟨read_initPlaybook hinit, isUsable_starterPlaybook_iff⟩

/-- The playbook of a name of two words can be used. -/
theorem new_playbook_usable_iff_words : ∃ desk',
    (initPlaybook Shell.onDisk "nightly build" ".").run {} = (.ok (), desk') ∧
    isPlainLine "nightly build".toList = true ∧ (unquoted? 0 "nightly build".toList).isSome = true ∧
    desk'.disk.read (joinPath "." ("nightly build" ++ ".yaml")) = .ok (starterPlaybook "nightly build") ∧
    IsUsable "nightly build" (starterPlaybook "nightly build") := by
  have hinit : (initPlaybook Shell.onDisk "nightly build" ".").run {} =
      (.ok (), { disk := { files := [(["nightly build.yaml"], starterPlaybook "nightly build")] },
                 lines := ["Created playbook file: ./nightly build.yaml"] }) := by
    rfl
  have hplain : isPlainLine "nightly build".toList = true := by decide
  have hsaid : (unquoted? 0 "nightly build".toList).isSome = true := by decide
  obtain ⟨hread, husable⟩ := new_playbook_usable_iff hinit
  refine ⟨_, hinit, hplain, hsaid, hread, (husable hplain hsaid).mpr ⟨by decide, ?_, by decide⟩⟩
  exact ⟨.string "nightly build", rfl, rfl⟩

/-- **The name `null` makes a file that cannot be used**: its plain scalar is no text. -/
theorem null_playbook_unusable : (∃ desk', (initPlaybook Shell.onDisk "null" ".").run {} = (.ok (), desk') ∧
      desk'.disk.read "./null.yaml" = .ok (starterPlaybook "null")) ∧
    Playbook.read (starterPlaybook "null") = .error (.format (.notScalar "id")) ∧
    ¬ IsUsable "null" (starterPlaybook "null") := by
  have hinit : (initPlaybook Shell.onDisk "null" ".").run {} =
      (.ok (), { disk := { files := [(["null.yaml"], starterPlaybook "null")] },
                 lines := ["Created playbook file: ./null.yaml"] }) := by
    rfl
  have hplain : isPlainLine "null".toList = true := by decide
  have hsaid : unquoted? 0 "null".toList = some "null".toList := by decide
  have hread : Playbook.read (starterPlaybook "null") = .error (.format (.notScalar "id")) :=
    read_starterPlaybook hplain hsaid (by decide)
  refine ⟨⟨_, hinit, read_initPlaybook hinit⟩, hread, ?_⟩
  rintro ⟨p, plan, hp, -, -⟩
  rw [hread] at hp
  cases hp

end Runsheet
