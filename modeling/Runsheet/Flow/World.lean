import Runsheet.Context

/-!
# Worlds

What a run reads and changes: the shared context, the clock, the journal of what tasks recorded,
the log of what happened, and the pools that have been closed.
-/

namespace Runsheet

/-- How important an event is. -/
inductive Level
  | debug
  | info
  | warn
  | error
  deriving DecidableEq, Repr

/-- The text of a level. -/
def Level.text : Level → String
  | .debug => "DEBUG"
  | .info => "INFO"
  | .warn => "WARN"
  | .error => "ERROR"

/-- Something that happened, with the time in milliseconds. -/
structure Event where
  time : Nat
  level : Level
  text : String
  deriving DecidableEq, Repr

/-- Something that a task recorded: what kind of task it is, what it is called, and the text. -/
structure Entry where
  time : Nat
  kind : String
  label : String
  text : String
  deriving DecidableEq, Repr

/-- The pool of workers of a parallel flow, named by the flow's place in the tree: the positions
on the way to it, the last one first. -/
abbrev Pool := List Nat

/-- The state of a run.  Entries and events stand with the latest first. -/
structure World where
  context : Context := {}
  now : Nat := 0
  entries : List Entry := []
  events : List Event := []
  closed : List Pool := []
  deriving Inhabited

namespace World

variable (w : World)

/-- What tasks recorded, in order. -/
def journal : List Entry :=
  w.entries.reverse

/-- What happened, in order. -/
def log : List Event :=
  w.events.reverse

/-- Adds an event. -/
def note (level : Level) (text : String) : World :=
  { w with events := ⟨w.now, level, text⟩ :: w.events }

/-- Adds an entry to the journal. -/
def record (kind label text : String) : World :=
  { w with entries := ⟨w.now, kind, label, text⟩ :: w.entries }

/-- Stores a value in the context. -/
def put (key : String) (value : Json) : World :=
  { w with context := w.context.put key value }

/-- Closes a pool. -/
def close (pool : Pool) : World :=
  { w with closed := pool :: w.closed }

/-- Is a pool closed? -/
def isClosed (pool : Pool) : Bool :=
  w.closed.contains pool

/-- Moves the clock. -/
def wait (ms : Nat) : World :=
  { w with now := w.now + ms }

/-- The state in which the next run begins: the context and the closed pools stay, and the clock,
the journal and the log begin anew. -/
def renew : World :=
  { context := w.context, closed := w.closed }

end World

end Runsheet
