import Runsheet.Evaluator
import Runsheet.Json.Text

/-!
# Contexts

The values that the tasks of a run share.  A context never gains a null: storing one does nothing.
Expressions are evaluated over the values of the moment, with a task's own variables over them.
-/

namespace Runsheet

/-- The named values that the tasks of a run share. -/
structure Context where
  values : Vars := []
  deriving DecidableEq, Inhabited

namespace Context

variable (c : Context)

/-- The value under a key. -/
def get? (key : String) : Option Json :=
  Table.get? key c.values

/-- Is there a value under the key? -/
def contains (key : String) : Bool :=
  Table.contains key c.values

/-- The number of values. -/
def size : Nat :=
  c.values.length

/-- Stores a value in place of the one that was there; null is not stored. -/
def put (key : String) (value : Json) : Context :=
  if value.isNull then c else ⟨Table.insert key value c.values⟩

/-- The value that storing a value displaces. -/
def displaced? (key : String) (value : Json) : Option Json :=
  if value.isNull then none else c.get? key

/-- Would a value be stored under the key if only absent keys may get one? -/
def accepts (key : String) (value : Json) : Bool :=
  !value.isNull && !c.contains key

/-- Stores a value if there is none under the key. -/
def putAbsent (key : String) (value : Json) : Context :=
  if c.accepts key value then c.put key value else c

theorem get?_put (key k : String) (value : Json) :
    (c.put key value).get? k = if key = k ∧ value.isNull = false then some value else c.get? k := by
  unfold put get?
  cases hnull : value.isNull with
  | true => simp
  | false => simp [Table.get?_insert]

/-- A value that is there stays, and where there is none a value that is not null is stored. -/
theorem get?_putAbsent (key k : String) (value : Json) :
    (c.putAbsent key value).get? k =
      if key = k then (c.get? k).or (if value.isNull then none else some value) else c.get? k := by
  have hcontains : c.contains key = (c.get? key).isSome := rfl
  unfold putAbsent accepts
  by_cases hk : key = k
  · subst hk
    rw [if_pos rfl, hcontains]
    cases hget : c.get? key with
    | none => cases hnull : value.isNull <;> simp [get?_put, hget, hnull]
    | some v => simp [hget]
  · rw [if_neg hk]
    split
    · rw [get?_put, if_neg fun h => hk h.1]
    · rfl

/-- Values may be stored under two absent keys in either order. -/
theorem putAbsent_comm {key k : String} (h : key ≠ k) (value v : Json) :
    (c.putAbsent key value).putAbsent k v = (c.putAbsent k v).putAbsent key value := by
  have haccepts {key k : String} (h : key ≠ k) (value v : Json) :
      (c.putAbsent key value).accepts k v = c.accepts k v := by
    have hget := get?_putAbsent c key k value
    rw [if_neg h] at hget
    unfold accepts contains Table.contains
    rw [show Table.get? k (c.putAbsent key value).values = Table.get? k c.values from hget]
  have hput : (c.put key value).put k v = (c.put k v).put key value := by
    unfold put
    cases value.isNull <;> cases v.isNull <;> simp [Table.insert_comm h]
  have hleft := haccepts h value v
  have hright := haccepts (Ne.symm h) v value
  unfold putAbsent at hleft hright ⊢
  rw [hleft, hright]
  by_cases hkey : c.accepts key value = true
  · by_cases hk : c.accepts k v = true
    · rw [if_pos hkey, if_pos hk, if_pos hk, if_pos hkey]
      exact hput
    · rw [if_neg hk, if_neg hk]
  · rw [if_neg hkey, if_neg hkey]

/-- Stores each of some values if there is none under its key. -/
def seed (vars : List (String × Json)) : Context :=
  vars.foldl (fun c entry => c.putAbsent entry.1 entry.2) c

/-- Removes the value under a key. -/
def erase (key : String) : Context :=
  ⟨Table.erase key c.values⟩

/-- The context of named values, which leaves out those that are null. -/
def ofVars (vars : Vars) : Context :=
  ⟨Table.filterValues (fun v => !v.isNull) vars⟩

/-- The values that an expression of a task sees: the task's own variables over the shared ones. -/
def seenBy (own : Vars) : Vars :=
  Table.override c.values own

/-- The value of a text for a task with variables of its own. -/
def evaluate (e : Evaluator) (text : String) (own : Vars) : Except ExpressionError Json :=
  e.evaluate text (c.seenBy own)

/-- Does a text hold for a task with variables of its own? -/
def validate (e : Evaluator) (text : String) (own : Vars) : Except ExpressionError Bool :=
  e.validate text (c.seenBy own)

/-- A context in full, for the log. -/
def describe : String :=
  "WorkContext \x7b values: " ++ Json.describeVars c.values ++ " \x7d"

end Context

/-- The text of a value: a string is its own text, and any other value is written as data. -/
def Json.plainText : Json → String
  | .string s => s
  | v => v.render

/-- The text of the value under a key. -/
def Context.text? (c : Context) (key : String) : Option String :=
  (c.get? key).map Json.plainText

end Runsheet
