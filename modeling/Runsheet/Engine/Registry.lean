import Runsheet.Builtin.Condition

/-!
# Registries

A registry gives the kinds of tasks their identifiers.  The first registration under an identifier
counts, and later ones change nothing.
-/

namespace Runsheet

/-- The kinds of tasks, by identifier. -/
structure Registry where
  tasks : Table Executable := []

namespace Registry

variable (r : Registry)

/-- The kind of task with an identifier. -/
def resolve? (id : String) : Option Executable :=
  Table.get? id r.tasks

/-- Is the identifier taken? -/
def contains (id : String) : Bool :=
  Table.contains id r.tasks

/-- Registers a kind of task, unless the identifier is taken. -/
def register (id : String) (x : Executable) : Registry :=
  if r.contains id then r else ⟨Table.insert id x r.tasks⟩

/-- Registers kinds of tasks under their own names. -/
def registerAll (xs : List Executable) : Registry :=
  xs.foldl (fun r x => r.register x.name x) r

/-- Registers the tasks that are there from the beginning. -/
def registerBuiltins : Registry :=
  r.registerAll Builtin.all

/-- The identifiers, in order. -/
def ids : List String :=
  Table.keys r.tasks

/-- The number of identifiers. -/
def size : Nat :=
  r.tasks.length

/-- A registry in full, for the log. -/
def describe : String :=
  "TaskRegistry \x7b tasks: [" ++ ", ".intercalate (r.ids.map Text.quote) ++ "] \x7d"

theorem resolve?_register (id k : String) (x : Executable) :
    (r.register id x).resolve? k =
      if id = k then some ((r.resolve? id).getD x) else r.resolve? k := by
  unfold register contains resolve? Table.contains
  by_cases hk : id = k
  · subst hk
    cases h : Table.get? id r.tasks <;> simp [h, Table.get?_insert]
  · split <;> simp [hk, Table.get?_insert]

end Registry

/-- The registry of the tasks that are there from the beginning. -/
def Registry.standard : Registry :=
  ({} : Registry).registerBuiltins

end Runsheet
