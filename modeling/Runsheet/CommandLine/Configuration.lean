import Runsheet.Yaml.Value

/-!
# Configuration

Variables for every run, and how the log looks.  A scalar in the file is the text that it is written
with, whatever it might mean elsewhere, and nothing at all counts as an empty map.
-/

namespace Runsheet.CommandLine

open Runsheet.Yaml

/-- The configuration of the program. -/
structure Configuration where
  vars : Table String := []
  level : String := "info"
  format : String := "pretty"
  deriving DecidableEq, Repr

namespace Configuration

/-- The node that a node stands for. -/
def meant (anchors : List (Nat × Node)) : Node → Option Node
  | .reference a => anchors.lookup a
  | n => some n

/-- The text of a scalar. -/
def scalar? (anchors : List (Nat × Node)) (n : Node) : Option String :=
  match meant anchors n with
  | some (.scalar _ _ text) => some text
  | _ => none

/-- The entries of a map. -/
def entries? (anchors : List (Nat × Node)) (n : Node) : Option (List (Node × Node)) :=
  match meant anchors n with
  | some (.map _ entries) => some entries
  | some (.scalar _ true "") => some []
  | _ => none

/-- The fields of a map: entries whose keys are scalars. -/
def fields? (anchors : List (Nat × Node)) (n : Node) : Option (List (String × Node)) := do
  let entries ← entries? anchors n
  entries.mapM fun entry => do
    let key ← scalar? anchors entry.1
    pure (key, entry.2)

/-- The field of a name, if there is not more than one: none for two, and nothing for none. -/
def single? (name : String) (fields : List (String × Node)) : Option (Option Node) :=
  match fields.filter (·.1 = name) with
  | [] => some none
  | [field] => some (some field.2)
  | _ => none

/-- The variables of a configuration. -/
def vars? (anchors : List (Nat × Node)) (n : Node) : Option (Table String) := do
  let fields ← fields? anchors n
  let texts ← fields.mapM fun field => do
    let text ← scalar? anchors field.2
    pure (field.1, text)
  pure (Table.ofList texts)

/-- The level and the format of the log; both are needed. -/
def log? (anchors : List (Nat × Node)) (n : Node) : Option (String × String) := do
  let fields ← fields? anchors n
  let level ← single? "level" fields
  let format ← single? "format" fields
  let level ← scalar? anchors (← level)
  let format ← scalar? anchors (← format)
  pure (level, format)

/-- The configuration of a document. -/
def ofNode? (root : Node) : Option Configuration := do
  let anchors := root.anchored []
  let fields ← fields? anchors root
  let vars ← single? "vars" fields
  let log ← single? "logging" fields
  let vars ← match vars with
    | some n => vars? anchors n
    | none => some []
  match log with
  | none => pure { vars }
  | some n =>
    let (level, format) ← log? anchors n
    pure { vars, level, format }

/-- Reads a configuration: one document. -/
def read? (text : String) : Option Configuration :=
  let stream := Stream.ofText text
  if stream.sound then
    match stream.documents with
    | [none] => some {}
    | [some root] => ofNode? root
    | _ => none
  else none

/-- The variable of the environment that gives the level of the log. -/
def levelName : String :=
  "FLOWBOOK_LOG_LEVEL"

/-- The variable of the environment that gives the format of the log. -/
def formatName : String :=
  "FLOWBOOK_LOG_FORMAT"

/-- The configuration with what the environment says about the log. -/
def withEnvironment (c : Configuration) (environment : Table String) : Configuration :=
  { c with level := (Table.get? levelName environment).getD c.level,
           format := (Table.get? formatName environment).getD c.format }

/-- The configuration with variables over its own. -/
def withVars (c : Configuration) (vars : Table String) : Configuration :=
  { c with vars := Table.override c.vars vars }

end Configuration

/-- The value of a text that is given as a variable: what a document with that text holds if it is
a number, a truth value or a string, and the text itself otherwise. -/
def variableValue (text : String) : Json :=
  match Values.ofText text with
  | ⟨[v], true⟩ =>
    match v with
    | .bool b => .bool b
    | .string s => .string s
    | .number (.int n) => .ofInt n
    | .number (.float x) => if x.isFinite then .number (.float x) else .string text
    | _ => .string text
  | _ => .string text

end Runsheet.CommandLine
