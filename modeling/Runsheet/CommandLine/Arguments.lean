import Runsheet.CommandLine.Usage
import Runsheet.Text.Blank

/-!
# Arguments

The commands of the program and the switches that all commands share.  A shared switch may stand
before the command or behind it, and behind it counts more.
-/

namespace Runsheet.CommandLine

/-- How a playbook is to be run. -/
structure RunOptions where
  file : String
  playbook : Option String := none
  vars : List String := []
  dryRun : Bool := false
  output : Option String := none
  deriving DecidableEq, Repr

/-- A command. -/
inductive Command
  | run (options : RunOptions)
  | validate (file : String)
  | tasks
  | init (name outputDir : String)
  deriving DecidableEq, Repr

/-- The arguments of the program. -/
structure Arguments where
  command : Command
  verbose : Bool := false
  noColor : Bool := false
  config : Option String := none
  deriving DecidableEq, Repr

namespace Arguments

/-- The switches of every command. -/
def sharedSwitches : List Switch :=
  [⟨"verbose", some 'v', .flag⟩,
   ⟨"config", some 'c', .value { name := "config", isPath := true }⟩,
   ⟨"no-color", none, .flag⟩,
   ⟨"help", some 'h', .help⟩]

/-- The switches that can stand before the command. -/
def mainSwitches : List Switch :=
  sharedSwitches ++ [⟨"version", some 'V', .version⟩]

/-- The switches of the command that runs a playbook. -/
def runSwitches : List Switch :=
  sharedSwitches ++
    [⟨"playbook", some 'p', .value { name := "playbook" }⟩,
     ⟨"var", some 'V', .value { name := "var", repeats := true }⟩,
     ⟨"dry-run", none, .flag⟩,
     ⟨"output", some 'o', .value { name := "output", isPath := true }⟩]

/-- The switches of the command that begins a playbook. -/
def initSwitches : List Switch :=
  sharedSwitches ++ [⟨"output-dir", some 'o', .value { name := "output-dir", isPath := true }⟩]

/-- The operand that names a playbook file. -/
def fileOperand : Parameter :=
  { name := "file", isPath := true }

/-- The operand that names a new playbook. -/
def nameOperand : Parameter :=
  { name := "name" }

/-- The command that arguments name. -/
inductive CommandName
  | run
  | validate
  | tasks
  | init
  | help
  deriving DecidableEq, Repr

/-- The command with a name. -/
def commandName? : String → Option CommandName
  | "run" => some .run
  | "validate" => some .validate
  | "tasks" => some .tasks
  | "init" => some .init
  | "help" => some .help
  | _ => none

/-- What the arguments behind the command for help ask for. -/
def helpProblem : List String → UsageProblem
  | [] => .help
  | [topic] => if (commandName? topic).isSome then .help else .unknownCommand
  | _ => .unknownCommand

/-- Reads the arguments behind the name of a command. -/
def readCommand (name : CommandName) (rest : List String) : Except UsageProblem (Command × Scan) :=
  match name with
  | .run => do
    let s ← Scan.all runSwitches { operands := [fileOperand] } rest
    pure (.run
      { file := (s.value? "file").getD "", playbook := s.value? "playbook", vars := s.values "var",
        dryRun := s.isOn "dry-run", output := s.value? "output" }, s)
  | .validate => do
    let s ← Scan.all sharedSwitches { operands := [fileOperand] } rest
    pure (.validate ((s.value? "file").getD ""), s)
  | .tasks => do
    let s ← Scan.all sharedSwitches {} rest
    pure (.tasks, s)
  | .init => do
    let s ← Scan.all initSwitches { operands := [nameOperand] } rest
    pure (.init ((s.value? "name").getD "") ((s.value? "output-dir").getD "."), s)
  | .help => .error (helpProblem rest)

/-- The problem with a word where a command is expected.  Behind two dashes the name of a command
is none. -/
def wordProblem (s : Scan) (text : String) : UsageProblem :=
  if s.trailing && (commandName? text).isSome then .unknownArgument else .unknownCommand

/-- Reads arguments, of which some have been read. -/
def readFrom (s : Scan) : List String → Except UsageProblem Arguments
  | [] => do
    let s ← s.close
    .error (if s.found.isEmpty then .nothingGiven else .noCommand)
  | text :: rest =>
    let name? := if s.trailing || s.awaits then none else commandName? text
    match name? with
    | some name => do
      let (command, inner) ← readCommand name rest
      let outer ← s.close
      let both : Scan := { found := inner.found ++ outer.found }
      pure { command, verbose := both.isOn "verbose", noColor := both.isOn "no-color",
             config := both.value? "config" }
    | none => do
      let s ← s.argument mainSwitches (wordProblem s text) text
      readFrom s rest

/-- Reads the arguments of the program. -/
def read (args : List String) : Except UsageProblem Arguments :=
  readFrom {} args

end Arguments

/-- The text of a variable that has no name or no value. -/
def variableProblem (text : String) : String :=
  "Invalid variable format '" ++ text ++ "'. Expected 'key=value'"

/-- Reads a variable: a name, an equals sign and a value. -/
def readVariable (text : String) : Except String (String × String) :=
  match Text.cutAt '=' text.toList with
  | none => .error (variableProblem text)
  | some (before, after) =>
    let key := Text.trim (String.ofList before)
    if key = "" then .error (variableProblem text) else .ok (key, String.ofList after)

/-- Reads variables; of two with one name the later one counts, and the first that cannot be read
is the problem. -/
def readVariables (texts : List String) : Except String (Table String) :=
  Table.ofList <$> texts.mapM readVariable

end Runsheet.CommandLine
