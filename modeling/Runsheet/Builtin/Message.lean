import Runsheet.Flow.Step

/-!
# Logging a message

The message is the task's data or, without it, a variable of the task or of the context.  A message
with expressions in double braces is rendered first.
-/

namespace Runsheet.Builtin

/-- Ends with a failure that a warning explains. -/
def warned (w : World) (warning error : String) : Outcome × World :=
  (.ok (.failed error), w.note .warn warning)

/-- Ends with the failure that an error of an evaluator is, if the program does not break off. -/
def refused (w : World) (warning : String) (error : ExpressionError) : Outcome × World :=
  match error.crash? with
  | some text => (.error (.crash (some text)), w)
  | none => warned w warning error.message

/-- The message of a task, before expressions in it are rendered. -/
def message? (b : Brief) (c : Context) : Option String :=
  match b.data with
  | some data => some data
  | none =>
    match textOfVar? b.vars "message" with
    | some text => some text
    | none => c.text? "log-message"

/-- The text of a rendered message; null is no text at all. -/
def messageText : Json → String
  | .null => ""
  | v => v.plainText

/-- The message of a task as it is logged. -/
def rendered (e : Evaluator) (b : Brief) (c : Context) (message : String) :
    Except ExpressionError String :=
  if Evaluator.hasTemplates message then messageText <$> c.evaluate e message b.vars
  else .ok message

/-- Logs a message and puts it into the journal. -/
def logMessage (e : Evaluator) (b : Brief) (w : World) : Outcome × World :=
  match message? b w.context with
  | none => warned w "A message was not found" "no message to log"
  | some message =>
    match rendered e b w.context message with
    | .error error =>
      refused w ("Failed to render log message '" ++ message ++ "': " ++ error.message) error
    | .ok text => (.ok .completed, (w.note .info text).record "log" b.label text)

/-- The task that logs a message. -/
def log : Executable where
  name := "log"
  behave e b := .attempt (logMessage e b)

end Runsheet.Builtin
