import Runsheet.CommandLine.Commands
import Std.Time.DateTime.Timestamp

/-!
# The program

The commands on the files of the machine.  Whatever is decided is decided elsewhere: here files are
read and written, and lines are printed.
-/

namespace Runsheet.CommandLine

/-- What is wrong with a file, by what the machine says. -/
def problemOf : IO.Error → FileProblem
  | .noFileOrDirectory .. => .absent
  | .alreadyExists .. => .occupied
  | error => .other (toString error)

/-- An operation on files with the problem that it may have. -/
def attempt {α : Type} (operation : IO α) : IO (Except FileProblem α) := do
  match ← operation.toBaseIO with
  | .ok a => return .ok a
  | .error e => return .error (problemOf e)

/-- The text of a file. -/
def readFile (path : String) : IO (Except FileProblem String) := do
  match ← attempt (IO.FS.readBinFile path) with
  | .error e => return .error e
  | .ok bytes =>
    match String.fromUTF8? bytes with
    | some text => return .ok text
    | none => return .error .notText

/-- The shell on the files of the machine. -/
def Shell.onMachine : Shell IO where
  read := readFile
  holds path := do
    match ← (IO.FS.Handle.mk path .read).toBaseIO with
    | .ok _ => return true
    | .error _ => return false
  write path text := attempt (IO.FS.writeFile path text)
  makeFolders path := attempt (IO.FS.createDirAll path)
  say := IO.println
  wait ms := IO.sleep ms.toUInt32

/-- The variables of the environment. -/
def environment : IO (Table String) := do
  match ← readFile "/proc/self/environ" with
  | .error _ => return []
  | .ok text =>
    let entries := (Text.splitAll [Char.ofNat 0] text.toList).filterMap (Text.cutAt '=')
    return Table.ofList (entries.map fun (name, value) => (String.ofList name, String.ofList value))

/-- The name of the machine. -/
def machineName : IO String := do
  match ← readFile "/proc/sys/kernel/hostname" with
  | .error _ => return "localhost"
  | .ok text => return Text.trim text

/-- What the program knows of the machine. -/
def surroundings : IO Surroundings := do
  let environment ← environment
  let hostname ← machineName
  let now ← Std.Time.Timestamp.now
  let seconds := now.toSecondsSinceUnixEpoch.val.toNat
  return { setting := { environment, hostname, now := ⟨seconds⟩ },
           home := Table.get? "HOME" environment }

end Runsheet.CommandLine

/-- Runs the program with its arguments. -/
def main (args : List String) : IO UInt32 := do
  let known ← Runsheet.CommandLine.surroundings
  let ending ← Runsheet.CommandLine.program .onMachine known args
  (← IO.getStderr).putStr ending.error
  return UInt32.ofNat ending.code
