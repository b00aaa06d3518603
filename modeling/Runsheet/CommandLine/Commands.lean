import Runsheet.CommandLine.Arguments
import Runsheet.CommandLine.Configuration
import Runsheet.CommandLine.Disk
import Runsheet.Engine.Engine
import Runsheet.Playbook.Loader

/-!
# Commands

What the program does, over any way of reading and writing files: a shell gives the operations on
files, the output and the clock.  Arguments are read first, then the configuration, then the
variables, and then the command is carried out.
-/

namespace Runsheet.CommandLine

/-- The operations by which a command meets the world outside. -/
structure Shell (m : Type → Type) where
  read : String → m (Except FileProblem String)
  holds : String → m Bool
  write : String → String → m (Except FileProblem Unit)
  makeFolders : String → m (Except FileProblem Unit)
  say : String → m Unit
  wait : Nat → m Unit

/-- What a command knows of its surroundings: the setting of expressions and the home folder. -/
structure Surroundings where
  setting : Expression.Setting := {}
  home : Option String := none

/-- The name of the program. -/
def programName : String :=
  "flowbook"

/-- The version of the program. -/
def programVersion : String :=
  "0.1.0"

/-- The playbook that a new file holds. -/
def starterPlaybook (name : String) : String :=
  "id: " ++ name ++ "\n" ++
  "name: A starter playbook\n" ++
  "vars:\n" ++
  "  greeting: hello\n" ++
  "workflow:\n" ++
  "  - log: \"\x7b\x7b greeting \x7d\x7d from " ++ name ++ "\"\n" ++
  "  - set: started = true\n" ++
  "  - parallel:\n" ++
  "    threads: 2\n" ++
  "    timeout: 10\n" ++
  "    tasks:\n" ++
  "      - log: first branch\n" ++
  "      - log: second branch\n" ++
  "  - block:\n" ++
  "      - when: started == true\n" ++
  "      - log: inside the block\n" ++
  "  - log: done\n" ++
  "    repeat: 2\n"

/-- The summary of a run: the playbook, how it ended, and what the context holds. -/
def summary (p : Playbook) (r : Report) (c : Context) : String :=
  let branches := r.branches?.map fun rs => Json.array (rs.map fun b => .string b.status.text)
  Json.prettyRecord
    [("playbook", .string p.id),
     ("status", .string r.status.text),
     ("error", r.error?.elim .null .string),
     ("branches", branches.getD .null),
     ("context", .object c.values)]

/-- The lines that say how a run ended. -/
def endingLines (p : Playbook) (r : Report) : List String :=
  let lines := (r.branches?.getD []).mapIdx fun i b =>
    "  Branch " ++ toString i ++ ": " ++ b.status.text
  let error := match r.error? with
    | some error => ["  Error: " ++ error]
    | none => []
  ("Playbook '" ++ p.label ++ "' finished with status: " ++ r.status.text) :: lines ++ error

/-- The playbook that is to run: the one with an identifier, or the first. -/
def selectPlaybook (ps : List Playbook) : Option String → Except String Playbook
  | none => (ps.head?.map .ok).getD (.error "No playbooks to run")
  | some id =>
    ((ps.find? (·.id = id)).map .ok).getD (.error ("Playbook '" ++ id ++ "' not found"))

/-- The context in which a run begins: the values of the configured variables. -/
def initialContext (c : Configuration) : Context :=
  ({} : Context).seed (c.vars.map fun (key, text) => (key, variableValue text))

/-- The line that says whether a playbook can be compiled, and whether it can. -/
def verdict (g : Engine) (p : Playbook) : String × Bool :=
  match g.plan p with
  | .ok plan =>
    ("✓ Playbook '" ++ p.id ++ "' is valid (" ++ toString plan.steps.length ++ " steps)", true)
  | .error fault => ("✗ Playbook '" ++ p.id ++ "': " ++ fault.message, false)

section

variable {m : Type → Type} [Monad m] (sh : Shell m)

/-- Turns a problem into an error text. -/
def orFail {ε α : Type} (text : ε → String) : Except ε α → ExceptT String m α
  | .ok a => pure a
  | .error e => throw (text e)

/-- Prints lines. -/
def sayAll (lines : List String) : ExceptT String m Unit :=
  lines.forM fun line => sh.say line

/-- The playbooks of a file. -/
def loadPlaybooks (path : String) : ExceptT String m (List Playbook) := do
  let failed := fun (e : LoadError) => "Failed to parse playbook file: " ++ e.message
  let text ← orFail (fun e => failed (.unreadable e)) (← sh.read path)
  let ps ← orFail failed (Playbook.readAll text)
  if ps.isEmpty then throw ("No playbooks found in " ++ path)
  return ps

/-- Runs a playbook of a file, or only compiles it. -/
def runPlaybook (s : Surroundings) (c : Configuration) (o : RunOptions) :
    ExceptT String m Unit := do
  let ps ← loadPlaybooks sh o.file
  let p ← orFail id (selectPlaybook ps o.playbook)
  let g : Engine := { evaluator := .standard s.setting }
  if o.dryRun then
    let _ ← orFail (fun f => "Playbook '" ++ p.id ++ "' is invalid: " ++ f.message) (g.plan p)
    sh.say ("✓ Playbook '" ++ p.id ++ "' is valid")
  else
    match g.run p (initialContext c) with
    | none => throw ("Playbook '" ++ p.id ++ "' gives no outcome")
    | some (outcome, w) =>
      sh.wait w.now
      let r ← orFail (fun f => "Playbook '" ++ p.id ++ "' could not run: " ++ f.message) outcome
      sayAll sh (endingLines p r)
      match o.output with
      | none => pure ()
      | some path =>
        orFail (fun e => "Failed to write output file '" ++ path ++ "': " ++ e.describe)
          (← sh.write path (summary p r w.context))
      if r.isFailed then throw ("Playbook '" ++ p.id ++ "' failed")

/-- Compiles all playbooks of a file. -/
def validatePlaybooks (path : String) : ExceptT String m Unit := do
  let ps ← loadPlaybooks sh path
  let verdicts := ps.map (verdict {})
  sayAll sh (verdicts.map (·.1))
  let invalid := verdicts.countP fun v => !v.2
  if 0 < invalid then
    throw (toString invalid ++ " of " ++ toString ps.length ++ " playbooks failed validation")

/-- Writes a new playbook file. -/
def initPlaybook (name folder : String) : ExceptT String m Unit := do
  orFail FileProblem.describe (← sh.makeFolders folder)
  let path := joinPath folder (name ++ ".yaml")
  if ← sh.holds path then throw ("Playbook file already exists: " ++ path)
  orFail FileProblem.describe (← sh.write path (starterPlaybook name))
  sh.say ("Created playbook file: " ++ path)

/-- The files in which a configuration is looked for, in order. -/
def configurationPaths (home : Option String) : List String :=
  let here := ["flowbook.yaml", "flowbook.yml", ".flowbook.yaml", ".flowbook.yml"]
  match home with
  | some folder => here ++ [joinPath folder ".flowbook/config.yaml"]
  | none => here

/-- The first of some paths that is there. -/
def firstPath : List String → ExceptT String m (Option String)
  | [] => pure none
  | path :: rest => do
    if ← sh.holds path then pure (some path) else firstPath rest

/-- The configuration: of the file that is named, or of the first that is found.  A file that is not
there stands for the standard configuration. -/
def loadConfiguration (s : Surroundings) (path : Option String) :
    ExceptT String m Configuration := do
  let path ← match path with
    | some path => firstPath sh [path]
    | none => firstPath sh (configurationPaths s.home)
  let c ← match path with
    | none => pure {}
    | some path => do
      let text ← orFail FileProblem.describe (← sh.read path)
      match Configuration.read? text with
      | some c => pure c
      | none => throw "invalid configuration"
  return c.withEnvironment s.setting.environment

/-- Carries a command out. -/
def perform (s : Surroundings) (a : Arguments) : ExceptT String m Unit := do
  let c ← loadConfiguration sh s a.config
  match a.command with
  | .run o => do
    let vars ← orFail id (readVariables o.vars)
    runPlaybook sh s (c.withVars vars) o
  | .validate file => validatePlaybooks sh file
  | .tasks => sayAll sh Registry.standard.ids
  | .init name folder => initPlaybook sh name folder

/-- How the program ends: its exit code and what it says on the error output. -/
structure Ending where
  code : Nat
  error : String
  deriving DecidableEq, Repr

/-- The program. -/
def program (s : Surroundings) (args : List String) : m Ending := do
  match Arguments.read args with
  | .error .version =>
    sh.say (programName ++ " " ++ programVersion)
    return ⟨0, ""⟩
  | .error .help =>
    sh.say ("Usage: " ++ programName ++ " [OPTIONS] <COMMAND>")
    return ⟨0, ""⟩
  | .error _ => return ⟨2, "Usage: " ++ programName ++ " [OPTIONS] <COMMAND>\n"⟩
  | .ok a =>
    match ← (perform sh s a).run with
    | .ok () => return ⟨0, ""⟩
    | .error text => return ⟨1, "Error: " ++ text ++ "\n"⟩

end

/-- What a program has done on a disk: the disk, and the lines that it printed, the latest first. -/
structure Desk where
  disk : Disk := {}
  lines : List String := []

/-- The output of a program. -/
def Desk.output (d : Desk) : String :=
  String.join (d.lines.reverse.map fun line => line ++ "\n")

/-- Changes the disk if an operation succeeds. -/
def Desk.change (f : Disk → Except FileProblem Disk) : StateM Desk (Except FileProblem Unit) :=
  fun d =>
    match f d.disk with
    | .ok disk => (.ok (), { d with disk })
    | .error e => (.error e, d)

/-- The shell on a disk that is a value; its clock does not wait. -/
def Shell.onDisk : Shell (StateM Desk) where
  read path := fun d => (d.disk.read path, d)
  holds path := fun d => (d.disk.holds path, d)
  write path text := Desk.change fun disk => disk.write path text
  makeFolders path := Desk.change fun disk => disk.makeFolders path
  say line := fun d => ((), { d with lines := line :: d.lines })
  wait _ := pure ()

/-! ### Commands on a disk -/

section

variable {α β : Type} {x : ExceptT String (StateM Desk) α} {k : α → ExceptT String (StateM Desk) β}
variable {d d' : Desk}

/-- What follows a command that has succeeded. -/
theorem run_bind_ok {a : α} (hx : x.run d = (.ok a, d')) : (x >>= k).run d = (k a).run d' := by
  have hbind : (x >>= k).run d = ExceptT.bindCont k (x.run d).1 (x.run d).2 := rfl
  rw [hbind, hx]
  rfl

/-- Lines are printed one after the other. -/
theorem sayAll_onDisk (lines : List String) (d : Desk) :
    (sayAll Shell.onDisk lines).run d = (.ok (), { d with lines := lines.reverse ++ d.lines }) := by
  induction lines generalizing d with
  | nil => rfl
  | cons line rest ih =>
      have hrest := ih { d with lines := line :: d.lines }
      rw [List.reverse_cons, List.append_assoc, List.singleton_append]
      exact hrest

end

end Runsheet.CommandLine
