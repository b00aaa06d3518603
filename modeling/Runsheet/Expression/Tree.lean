import Runsheet.Decimal.Binary64

/-!
# Expression trees

The trees that expressions are read into.  Comparisons are chains, so `a < b < c` is one node with
two steps; a call remembers the place where it stands, which tells calls of one expression apart.
-/

namespace Runsheet.Expression

/-- A value written in an expression. -/
inductive Literal
  | none
  | bool (b : Bool)
  | int (n : Int)
  | float (x : Binary64)
  | string (s : String)
  deriving DecidableEq, Repr

/-- Operators with one operand. -/
inductive UnaryOp
  | not
  | negate
  deriving DecidableEq, Repr

/-- Operators whose two operands are both evaluated. -/
inductive BinaryOp
  | add | subtract | multiply | divide | floorDivide | modulo | power | join
  deriving DecidableEq, Repr

/-- Operators that evaluate the second operand only if the first does not decide. -/
inductive LogicOp
  | and | or
  deriving DecidableEq, Repr

/-- The steps of a chain of comparisons. -/
inductive CompareOp
  | equal | notEqual | less | lessEqual | greater | greaterEqual | isIn | isNotIn
  deriving DecidableEq, Repr

/-- An expression; an argument is positional if it has no name. -/
inductive Expr
  | literal (value : Literal)
  | variable (name : String)
  | list (items : List Expr)
  | map (entries : List (Expr × Expr))
  | unary (op : UnaryOp) (operand : Expr)
  | binary (op : BinaryOp) (left right : Expr)
  | logic (op : LogicOp) (left right : Expr)
  | compare (first : Expr) (steps : List (CompareOp × Expr))
  | choose (condition consequence : Expr) (alternative : Option Expr)
  | attribute (object : Expr) (name : String)
  | item (object key : Expr)
  | slice (object : Expr) (start stop step : Option Expr)
  | call (place : Nat) (callee : Expr) (args : List (Option String × Expr))
  | filter (name : String) (operand : Expr) (args : List (Option String × Expr))
  | test (name : String) (operand : Expr) (args : List (Option String × Expr))
  deriving Inhabited

end Runsheet.Expression
