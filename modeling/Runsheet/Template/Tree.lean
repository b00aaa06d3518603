import Runsheet.Expression.Tree

/-!
# Template trees

A template is a list of parts: text, expressions whose values are shown, and statements.
-/

namespace Runsheet.Template

open Runsheet.Expression

/-- What a value is assigned to: a name, several targets that share out its items, or a part of
another value, which cannot be assigned to. -/
inductive Target
  | name (s : String)
  | several (targets : List Target)
  | part
  deriving Inhabited

/-- A filter with its arguments. -/
abbrev FilterCall :=
  String × List (Option String × Expr)

/-- A part of a template. -/
inductive Part
  | text (s : String)
  | shown (value : Expr)
  | choice (condition : Expr) (yes no : List Part)
  | loop (target : Target) (source : Expr) (condition : Option Expr) (body otherwise : List Part)
  | assign (target : Target) (value : Expr)
  | capture (target : Target) (filters : List FilterCall) (body : List Part)
  deriving Inhabited

end Runsheet.Template
