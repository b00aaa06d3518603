import Runsheet.Table
import Runsheet.Text.Search

/-!
# Reading arguments

Switches begin with one dash and a letter or with two dashes and a word; letters can stand behind
one dash together, and a value can follow in the same argument or the next.  After two dashes alone
everything is an operand.  A value is looked at when the next argument that is understood begins, so
of two mistakes the one that is noticed first counts.
-/

namespace Runsheet.CommandLine

/-- Why arguments cannot be used, or what they ask for instead of a command. -/
inductive UsageProblem
  | help
  | version
  | nothingGiven
  | noCommand
  | unknownCommand
  | argumentMissing
  | unknownArgument
  | valueMissing
  | valueUnwanted
  | givenTwice
  deriving DecidableEq, Repr

/-- A value that arguments can give: its name, whether it is a path, which cannot be empty, and
whether it can be given several times. -/
structure Parameter where
  name : String
  isPath : Bool := false
  repeats : Bool := false
  deriving DecidableEq, Repr

/-- What a switch does: it asks for help or the version, is set, or takes a value. -/
inductive SwitchKind
  | help
  | version
  | flag
  | value (parameter : Parameter)
  deriving DecidableEq, Repr

/-- A switch with its word and its letter. -/
structure Switch where
  long : String
  short : Option Char := none
  kind : SwitchKind := .flag
  deriving DecidableEq, Repr

/-- The state of reading: the values so far with the latest first, the value that is still to be
looked at (or to come), the operands that are still missing, and whether all that follows are
operands. -/
structure Scan where
  found : List (String × String) := []
  pending : Option (Parameter × Option String) := none
  operands : List Parameter := []
  trailing : Bool := false
  deriving DecidableEq, Repr

namespace Scan

/-- Keeps a value. -/
def keep (s : Scan) (parameter : Parameter) (value : String) : Except UsageProblem Scan :=
  if !parameter.repeats && Table.contains parameter.name s.found then .error .givenTwice
  else if parameter.isPath && value = "" then .error .valueMissing
  else .ok { s with found := (parameter.name, value) :: s.found, pending := none }

/-- Looks at the value that is pending. -/
def close (s : Scan) : Except UsageProblem Scan :=
  match s.pending with
  | none => .ok s
  | some (_, none) => .error .valueMissing
  | some (parameter, some value) => s.keep parameter value

/-- Is the value of a switch to come? -/
def awaits (s : Scan) : Bool :=
  s.pending matches some (_, none)

/-- Turns a switch without a value on. -/
def turnOn (s : Scan) (switch : Switch) : Except UsageProblem Scan := do
  let s ← s.close
  match switch.kind with
  | .help => .error .help
  | .version => .error .version
  | .flag | .value _ => s.keep { name := switch.long } ""

/-- Gives a switch its value, or waits for it. -/
def give (s : Scan) (parameter : Parameter) (value : Option String) : Except UsageProblem Scan := do
  let s ← s.close
  match value with
  | some v => s.keep parameter v
  | none => pure { s with pending := some (parameter, none) }

/-- Reads a switch of a word; the value stands behind an equals sign. -/
def word (switches : List Switch) (s : Scan) (cs : List Char) : Except UsageProblem Scan :=
  let (name, value) := match Text.cutAt '=' cs with
    | some (name, value) => (String.ofList name, some (String.ofList value))
    | none => (String.ofList cs, none)
  match switches.find? (·.long = name) with
  | none => .error .unknownArgument
  | some switch =>
    match switch.kind, value with
    | .value parameter, _ => s.give parameter value
    | _, some _ => .error .valueUnwanted
    | _, none => s.turnOn switch

/-- The value that stands behind a letter, with or without an equals sign. -/
def attached? : List Char → Option String
  | [] => none
  | '=' :: value => some (String.ofList value)
  | value => some (String.ofList value)

/-- Reads switches of letters. -/
def letters (switches : List Switch) (s : Scan) : List Char → Except UsageProblem Scan
  | [] => .ok s
  | c :: rest =>
    match switches.find? (·.short = some c) with
    | none => .error .unknownArgument
    | some switch =>
      match switch.kind with
      | .value parameter => s.give parameter (attached? rest)
      | _ => do
        let s ← s.turnOn switch
        letters switches s rest

/-- Reads an operand; `extra` is the problem if there is no place for one. -/
def operand (s : Scan) (extra : UsageProblem) (text : String) : Except UsageProblem Scan :=
  match s.operands with
  | [] => .error extra
  | parameter :: rest => do
    let s ← s.close
    pure { s with pending := some (parameter, some text), operands := rest }

/-- Reads one argument. -/
def argument (switches : List Switch) (extra : UsageProblem) (s : Scan) (text : String) :
    Except UsageProblem Scan :=
  if s.trailing then s.operand extra text
  else
    match text.toList with
    | ['-', '-'] => .ok { s with trailing := true }
    | '-' :: '-' :: cs => s.word switches cs
    | '-' :: c :: cs => s.letters switches (c :: cs)
    | _ =>
      match s.pending with
      | some (parameter, none) => .ok { s with pending := some (parameter, some text) }
      | _ => s.operand extra text

/-- Reads all arguments of a command. -/
def all (switches : List Switch) (s : Scan) : List String → Except UsageProblem Scan
  | [] => do
    let s ← s.close
    if s.operands.isEmpty then pure s else .error .argumentMissing
  | text :: rest => do
    let s ← s.argument switches .unknownArgument text
    all switches s rest

/-- The value of a parameter. -/
def value? (s : Scan) (name : String) : Option String :=
  Table.get? name s.found

/-- Is a switch on? -/
def isOn (s : Scan) (name : String) : Bool :=
  Table.contains name s.found

/-- All values of a parameter, in order. -/
def values (s : Scan) (name : String) : List String :=
  ((s.found.filter (·.1 = name)).map (·.2)).reverse

end Scan

end Runsheet.CommandLine
