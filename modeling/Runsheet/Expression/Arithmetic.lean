import Runsheet.Expression.Display
import Runsheet.Expression.Problem
import Runsheet.Expression.Tree
import Runsheet.Text.Search

/-!
# Operators on values

Arithmetic, joining, comparing and containment.  Integers are exact within 128 bits and every
operation that leaves that range is invalid; a floating-point operand makes the result one.
Division and remainder of integers are Euclidean: the remainder is never negative.
-/

namespace Runsheet.Expression

namespace Value

/-- The outcome of an operation. -/
abbrev Result :=
  Except Problem Value

/-- Is an integer within 128 bits? -/
def fits (n : Int) : Bool :=
  -(Int.pow 2 127) ≤ n && n < Int.pow 2 127

/-- An integer result; outside 128 bits the operation is invalid. -/
def exact (n : Int) : Result :=
  if fits n then .ok (.int n) else .error .invalidOperation

/-- The operands of arithmetic, both as integers or both as floating-point numbers. -/
inductive Operands
  | ints (a b : Int)
  | floats (a b : Binary64)

/-- The numbers that two operands count as. -/
def operands? (a b : Value) : Option Operands :=
  match a.count?, b.count? with
  | some m, some n => if fits m && fits n then some (.ints m n) else Option.none
  | _, _ => do
    let x ← a.float?
    let y ← b.float?
    pure (.floats x y)

/-- An operation on numbers, given on integers and on floating-point numbers. -/
def arithmetic (ints : Int → Int → Result) (floats : Binary64 → Binary64 → Binary64)
    (a b : Value) : Result :=
  match operands? a b with
  | some (.ints m n) => ints m n
  | some (.floats x y) => .ok (.float (floats x y))
  | Option.none => .error .invalidOperation

/-- An operation of the machine on floating-point numbers. -/
def machine (f : Float → Float → Float) (x y : Binary64) : Binary64 :=
  .ofFloat (f x.toFloat y.toFloat)

/-- The integer that a value is: integers, booleans and floating-point numbers without a
fraction. -/
def integer? : Value → Option Int
  | .float x => x.toInt?.filter fun n => -(Int.pow 2 63) ≤ n && n < Int.pow 2 63
  | v => v.count?

/-- The natural number of 64 bits that a value is. -/
def repetitions? (v : Value) : Option Nat :=
  match v.integer? with
  | some (.ofNat n) => if n < Nat.pow 2 64 then some n else Option.none
  | _ => Option.none

/-- A list repeated. -/
def repeated {α : Type} (n : Nat) (xs : List α) : List α :=
  (List.replicate n xs).flatten

/-- A string or a sequence repeated as often as a natural number says.  The length of a sequence has
to be known for that. -/
def repeatBy (times : Value) : Value → Result
  | .string s =>
    match times.repetitions? with
    | some n => .ok (.string (String.ofList (repeated n s.toList)))
    | Option.none => .error .invalidOperation
  | .list items | .iterable Option.none items =>
    match times.repetitions? with
    | some n => .ok (.iterable Option.none (repeated n items))
    | Option.none => .error .invalidOperation
  | _ => .error .invalidOperation

/-- The items of a sequence, and the label if its length is not known. -/
def sequence? : Value → Option (Option Label × List Value)
  | .list items => some (Option.none, items)
  | .iterable unsized items => some (unsized, items)
  | _ => Option.none

/-- The sum of numbers; strings and sequences are joined. -/
def add : Value → Value → Result
  | .string s, .string t => .ok (.string (s ++ t))
  | a, b =>
    match a.sequence?, b.sequence? with
    | some (unsized, xs), some (other, ys) => .ok (.iterable (unsized <|> other) (xs ++ ys))
    | _, _ => arithmetic (fun m n => exact (m + n)) (machine (· + ·)) a b

/-- The difference of numbers. -/
def subtract (a b : Value) : Result :=
  arithmetic (fun m n => exact (m - n)) (machine (· - ·)) a b

/-- The product of numbers; a string or a sequence is repeated. -/
def multiply (a b : Value) : Result :=
  match a, b with
  | .string s, times => repeatBy times (.string s)
  | times, .string s => repeatBy times (.string s)
  | .list items, times => repeatBy times (.list items)
  | .iterable unsized items, times => repeatBy times (.iterable unsized items)
  | times, .list items => repeatBy times (.list items)
  | times, .iterable unsized items => repeatBy times (.iterable unsized items)
  | a, b => arithmetic (fun m n => exact (m * n)) (machine (· * ·)) a b

/-- The quotient of numbers, which is always a floating-point number. -/
def divide (a b : Value) : Result :=
  match a.float?, b.float? with
  | some x, some y => .ok (.float (machine (· / ·) x y))
  | _, _ => .error .invalidOperation

/-- The quotient of the division whose remainder is never negative. -/
def floorDivide (a b : Value) : Result :=
  arithmetic (fun m n => if n = 0 then .error .invalidOperation else exact (m / n))
    Binary64.divEuclid a b

/-- The remainder of a division.  It is invalid where the quotient of integers is. -/
def modulo (a b : Value) : Result :=
  arithmetic
    (fun m n => if n = 0 || !fits (m / n) then .error .invalidOperation else exact (m % n))
    Binary64.remainder a b

/-- A power of integers with a natural exponent of 32 bits. -/
def powerInt (m n : Int) : Result :=
  if n < 0 || Int.pow 2 32 ≤ n then .error .invalidOperation
  else if m.natAbs ≤ 1 then exact (if n = 0 then 1 else if n % 2 = 0 then m * m else m)
  else if 128 ≤ n then .error .invalidOperation
  else exact (Int.pow m n.toNat)

/-- A power of numbers. -/
def power (a b : Value) : Result :=
  arithmetic powerInt (machine Float.pow) a b

/-- The displayed forms of two values, joined. -/
def join (a b : Value) : Result :=
  .ok (.string (a.display ++ b.display))

/-- The number with the other sign.  The one integer just above 128 signed bits is its own
negative. -/
def negate : Value → Result
  | .int n =>
    if n = Int.pow 2 127 then .ok (.int n)
    else if fits n then exact (-n)
    else .error .invalidOperation
  | .float x => .ok (.float (.ofFloat (-x.toFloat)))
  | _ => .error .invalidOperation

/-- Does a container hold a value?  A string holds the texts that occur in it, a sequence the values
that are equal to an item, a map its keys, a function nothing. -/
def holds (container value : Value) : Except Problem Bool :=
  match container with
  | .undefined _ => .ok false
  | .string s => .ok (Text.contains s value.display)
  | .list items | .iterable _ items => .ok (items.any fun item => item.same value)
  | .map entries => .ok (lookup? value entries).isSome
  | .callable .. => .ok false
  | _ => .error .invalidOperation

end Value

/-- The operation of a binary operator. -/
def BinaryOp.apply : BinaryOp → Value → Value → Value.Result
  | .add => Value.add
  | .subtract => Value.subtract
  | .multiply => Value.multiply
  | .divide => Value.divide
  | .floorDivide => Value.floorDivide
  | .modulo => Value.modulo
  | .power => Value.power
  | .join => Value.join

/-- The answer of one step of a comparison. -/
def CompareOp.apply (op : CompareOp) (a b : Value) : Except Problem Bool :=
  match op with
  | .equal => .ok (a.same b)
  | .notEqual => .ok !(a.same b)
  | .less => .ok (a.compare b == .lt)
  | .lessEqual => .ok (a.compare b != .gt)
  | .greater => .ok (a.compare b == .gt)
  | .greaterEqual => .ok (a.compare b != .lt)
  | .isIn => b.holds a
  | .isNotIn => do
    let found ← b.holds a
    pure !found

end Runsheet.Expression
