import Runsheet.Playbook.Model
import Runsheet.Playbook.Problem
import Runsheet.Text.Blank
import Runsheet.Yaml.Value

/-!
# Loading playbooks

The playbooks that the documents of a text describe.  A document is empty, a playbook, or a list of
playbooks.  A task is written as its identifier alone or as a map, in which the first key that is
no setting is the identifier; the value under it is the data of the task or the list of its
children, and all further keys that are no settings are variables.
-/

namespace Runsheet.Loader

open Yaml (Value)

/-- The outcome of loading. -/
abbrev Loaded (α : Type) :=
  Except LoadError α

/-- The keys of a task that are settings. -/
def reservedKeys : List String :=
  ["name", "vars", "when", "delay", "repeat", "timeout", "threads", "tasks"]

/-- The text of a scalar. -/
def scalarText (path : String) : Value → Loaded String
  | .string s => .ok s
  | .number n => .ok n.text
  | .bool b => .ok (if b then "true" else "false")
  | .null | .list _ | .map _ | .tagged .. => .error (.format (.notScalar path))

/-- A natural number of 64 bits, whatever its tag. -/
def natural (path key : String) (v : Value) : Loaded Nat :=
  match v.untagged with
  | .number (.int (.ofNat n)) =>
    if n < Nat.pow 2 64 then .ok n else .error (.format (.notNatural path key))
  | _ => .error (.format (.notNatural path key))

/-- A data value. -/
def data (path : String) (v : Value) : Loaded Json :=
  v.toJson.mapError fun problem => .format (.noData path problem)

/-- The entries of variables; the tags of their names do not matter. -/
def varEntries (path : String) : List (Value × Value) → Loaded (List (String × Json))
  | [] => .ok []
  | (k, v) :: rest =>
    match k.untagged with
    | .string name => do
      let value ← data path v
      let more ← varEntries path rest
      pure ((name, value) :: more)
    | _ => .error (.format (.varNameNotText path))

/-- Variables: nothing, or a map from names. -/
def vars (path : String) : Value → Loaded (Roster Json)
  | .null => .ok []
  | .map entries => Roster.ofList <$> varEntries path entries
  | _ => .error (.format (.varsNotMap path))

/-- The keys of a map, which must be strings, whatever their tags. -/
def keyNames (path : String) : List (Value × Value) → Loaded (List String)
  | [] => .ok []
  | (k, _) :: rest =>
    match k.untagged with
    | .string key => (key :: ·) <$> keyNames path rest
    | _ => .error (.format (.keyNotText path))

/-- The place of the key that names the task: the first that is no setting or, if there is none, the
condition. -/
def idPlace? (keys : List String) : Option Nat :=
  (keys.findIdx? fun k => !reservedKeys.contains k).orElse fun _ =>
    keys.findIdx? fun k => k = "when"

/-- The path of an item of a list. -/
def itemPath (path : String) (index : Nat) : String :=
  path ++ "[" ++ toString index ++ "]"

/-- The path of something within. -/
def innerPath (path name : String) : String :=
  path ++ "." ++ name

/-- A setting or a variable that is no list of tasks. -/
def setting (path key : String) (v : Value) (t : Task) : Loaded Task :=
  match key with
  | "name" => do
    let name ← scalarText path v
    pure { t with name := some name }
  | "vars" => do
    let more ← vars path v
    pure { t with vars := Roster.putAll t.vars more }
  | "when" => do
    let guard ← scalarText path v
    pure { t with guard := some guard }
  | "delay" => do
    let n ← natural path key v
    pure { t with delay := n }
  | "repeat" => do
    let n ← natural path key v
    pure { t with repetitions := n }
  | "timeout" => do
    let n ← natural path key v
    pure { t with timeout := n }
  | "threads" => do
    let n ← natural path key v
    pure { t with threads := n }
  | _ => do
    let value ← data path v
    pure { t with vars := Roster.put key value t.vars }

mutual

/-- A task. -/
def task (path : String) : Value → Loaded Task
  | .string id => .ok { id }
  | .map entries => do
    let keys ← keyNames path entries
    match idPlace? keys with
    | none => .error (.missing (.taskId path))
    | some place =>
      let id := keys.getD place ""
      let named ← head path id place entries
      settings (innerPath path id) (some place) named entries
  | _ => .error (.format (.notTask path))

/-- The tasks of a list, from the given index on. -/
def tasks (path : String) (index : Nat) : List Value → Loaded (List Task)
  | [] => .ok []
  | v :: rest => do
    let first ← task (itemPath path index) v
    let more ← tasks path (index + 1) rest
    pure (first :: more)

/-- A list of tasks, or nothing. -/
def taskList (path : String) : Value → Loaded (List Task)
  | .null => .ok []
  | .list items => tasks path 0 items
  | _ => .error (.format (.notTaskList path))

/-- A task with only what stands under its identifier, which is at the given place: data, children
or nothing. -/
def head (path id : String) (place : Nat) : List (Value × Value) → Loaded Task
  | [] => .ok { id }
  | (_, v) :: rest =>
    match place with
    | place + 1 => head path id place rest
    | 0 => headValue path id v

/-- A task with only what its identifier stands for. -/
def headValue (path id : String) : Value → Loaded Task
  | .null => .ok { id }
  | .list items => do
    let children ← tasks (innerPath path id) 0 items
    pure { id, children }
  | v => do
    let data ← scalarText path v
    pure { id, data := some data }

/-- The task with all further settings; the entry at the place `passed` is its identifier. -/
def settings (path : String) (passed : Option Nat) (t : Task) : List (Value × Value) → Loaded Task
  | [] => .ok t
  | (k, v) :: rest =>
    match passed with
    | some 0 => settings path none t rest
    | passed => do
      let left := passed.map (· - 1)
      match k.untagged with
      | .string "tasks" =>
        if t.children.isEmpty then
          let children ← taskList path v
          settings path left { t with children } rest
        else .error (.format (.childrenTwice path))
      | .string key =>
        let t ← setting path key v t
        settings path left t rest
      | _ => .error (.format (.keyNotText path))

end

/-- The value under a key of a map. -/
def entry (key : String) : List (Value × Value) → Option Value
  | [] => none
  | (.string k, v) :: rest => if k = key then some v else entry key rest
  | _ :: rest => entry key rest

/-- A playbook, whatever its tag. -/
def playbook (v : Value) : Loaded Playbook :=
  match v.untagged with
  | .map entries => do
    let id ← match entry "id" entries with
      | some v => scalarText "id" v
      | none => .error (.missing .id)
    if Text.isBlankText id then throw (.missing .id)
    let name ← match entry "name" entries with
      | some v => some <$> scalarText "name" v
      | none => pure none
    let own ← match entry "vars" entries with
      | some v => vars id v
      | none => pure []
    match (entry "workflow" entries).orElse fun _ => entry "tasks" entries with
    | some v =>
      let tasks ← taskList id v
      pure { id, name, vars := own, tasks }
    | none => throw (.missing (.workflow id))
  | _ => .error (.format .playbookNotMap)

/-- The playbooks of a list. -/
def playbooks : List Value → Loaded (List Playbook)
  | [] => .ok []
  | v :: rest => do
    let first ← playbook v
    let more ← playbooks rest
    pure (first :: more)

/-- The playbooks of a document. -/
def document : Value → Loaded (List Playbook)
  | .null => .ok []
  | .list items => playbooks items
  | v => (fun p => [p]) <$> playbook v

/-- The playbooks of documents, in order. -/
def documents : List Value → Loaded (List Playbook)
  | [] => .ok []
  | v :: rest => do
    let first ← document v
    let more ← documents rest
    pure (first ++ more)

/-- The playbooks of a stream of documents.  A problem of an earlier document counts before one of a
later document. -/
def stream (values : Yaml.Values) : Loaded (List Playbook) := do
  let found ← documents values.values
  if values.sound then pure found else throw .malformed

/-- The playbook of a stream that describes exactly one. -/
def single (found : List Playbook) : Loaded Playbook :=
  match found with
  | [p] => .ok p
  | [] => .error (.missing .playbook)
  | _ => .error (.format (.several found.length))

end Loader

namespace Playbook

/-- The playbooks that a text describes. -/
def readAll (text : String) : Except LoadError (List Playbook) :=
  Loader.stream (Yaml.Values.ofText text)

/-- The one playbook that a text describes. -/
def read (text : String) : Except LoadError Playbook := do
  let found ← readAll text
  Loader.single found

end Playbook

end Runsheet
