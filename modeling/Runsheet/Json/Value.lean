import Runsheet.Decimal.Binary64
import Runsheet.Table

/-!
# Data values

The values that contexts, playbooks and results are made of: null, booleans, numbers, strings,
lists and objects.  A number is an integer or a floating-point number, and the two kinds are never
equal.  The fields of an object form a table, so equal objects are equal values.
-/

namespace Runsheet

/-- A number of a data value. -/
inductive Number
  | int (n : Int)
  | float (x : Binary64)
  deriving DecidableEq, Repr

/-- A data value. -/
inductive Json
  | null
  | bool (b : Bool)
  | number (n : Number)
  | string (s : String)
  | array (items : List Json)
  | object (fields : List (String × Json))
  deriving Inhabited

/-- Named values that an expression can see. -/
abbrev Vars := Table Json

namespace Json

/-- An integer value. -/
def ofInt (n : Int) : Json :=
  .number (.int n)

/-- The range of the integers that a value may hold: those of 64 bits, with or without a sign. -/
def holdsInt (n : Int) : Bool :=
  -(Int.pow 2 63) ≤ n && n < Int.pow 2 64

theorem holdsInt_iff {n : Int} : holdsInt n = true ↔ -(Int.pow 2 63) ≤ n ∧ n < Int.pow 2 64 := by
  rw [holdsInt, Bool.and_eq_true, decide_eq_true_eq, decide_eq_true_eq]

/-- A floating-point value; infinities and the number that is none become null. -/
def ofBinary64 (x : Binary64) : Json :=
  if x.isFinite then .number (.float x) else .null

/-- Is a value null? -/
def isNull : Json → Bool
  | .null => true
  | _ => false

/-- The natural number that a value is, if it is one. -/
def natural? : Json → Option Nat
  | .number (.int (.ofNat n)) => some n
  | _ => none

/-- A value counts as true unless it is null, false, a zero, or empty. -/
def truthy : Json → Bool
  | .null => false
  | .bool b => b
  | .number (.int n) => n != 0
  | .number (.float x) => !x.isZero
  | .string s => s != ""
  | .array items => !items.isEmpty
  | .object fields => !fields.isEmpty

mutual

/-- Equality of values, decided. -/
def decEq : (a b : Json) → Decidable (a = b)
  | .null, b => match b with
    | .null => isTrue rfl
    | .bool _ | .number _ | .string _ | .array _ | .object _ => isFalse (by simp)
  | .bool x, b => match b with
    | .bool y => decidable_of_iff (x = y) (by simp)
    | .null | .number _ | .string _ | .array _ | .object _ => isFalse (by simp)
  | .number x, b => match b with
    | .number y => decidable_of_iff (x = y) (by simp)
    | .null | .bool _ | .string _ | .array _ | .object _ => isFalse (by simp)
  | .string x, b => match b with
    | .string y => decidable_of_iff (x = y) (by simp)
    | .null | .bool _ | .number _ | .array _ | .object _ => isFalse (by simp)
  | .array xs, b => match b with
    | .array ys => match decEqItems xs ys with
      | isTrue h => isTrue (by rw [h])
      | isFalse h => isFalse (by simpa using h)
    | .null | .bool _ | .number _ | .string _ | .object _ => isFalse (by simp)
  | .object xs, b => match b with
    | .object ys => match decEqFields xs ys with
      | isTrue h => isTrue (by rw [h])
      | isFalse h => isFalse (by simpa using h)
    | .null | .bool _ | .number _ | .string _ | .array _ => isFalse (by simp)

/-- Equality of lists of values, decided. -/
def decEqItems : (xs ys : List Json) → Decidable (xs = ys)
  | [], [] => isTrue rfl
  | [], _ :: _ => isFalse (by simp)
  | _ :: _, [] => isFalse (by simp)
  | x :: xs, y :: ys => match decEq x y, decEqItems xs ys with
    | isTrue h, isTrue t => isTrue (by rw [h, t])
    | isFalse h, _ => isFalse (by simp [h])
    | _, isFalse t => isFalse (by simp [t])

/-- Equality of lists of fields, decided. -/
def decEqFields : (xs ys : List (String × Json)) → Decidable (xs = ys)
  | [], [] => isTrue rfl
  | [], _ :: _ => isFalse (by simp)
  | _ :: _, [] => isFalse (by simp)
  | (k, x) :: xs, (l, y) :: ys =>
    if hk : k = l then
      match decEq x y, decEqFields xs ys with
      | isTrue h, isTrue t => isTrue (by rw [hk, h, t])
      | isFalse h, _ => isFalse (by simp [h])
      | _, isFalse t => isFalse (by simp [t])
    else isFalse (by simp [hk])

end

instance : DecidableEq Json :=
  decEq

end Json

end Runsheet
