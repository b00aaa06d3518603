import Runsheet.Template.Parser
import Runsheet.Template.Render

/-!
# Evaluators

An evaluator gives the value of a text over named values, and says whether it holds.  The standard
one distinguishes four forms: a blank text, a text that is one expression in double braces, a text
that mixes expressions with other text, and a bare expression.  Braces around an expression change
nothing.
-/

namespace Runsheet

open Runsheet.Expression

/-- What went wrong with a text, and with which part of it. -/
inductive ExpressionError
  | malformed (expression : String)
  | evaluation (expression : String) (problem : Problem)
  | render (template : String) (problem : Problem)
  | data (problem : Json.Problem)
  deriving DecidableEq, Repr

namespace ExpressionError

/-- The error of an expression. -/
def ofExpression (expression : String) : Problem → ExpressionError
  | .malformed => .malformed expression
  | problem => .evaluation expression problem

/-- The error of a template. -/
def ofTemplate (template : String) : Problem → ExpressionError
  | .malformed => .malformed template
  | problem => .render template problem

/-- The text of an error. -/
def message : ExpressionError → String
  | .malformed expression =>
    "Expression syntax error in '" ++ expression ++ "': " ++ Problem.malformed.describe
  | .evaluation expression problem =>
    "Expression evaluation failed for '" ++ expression ++ "': " ++ problem.describe
  | .render template problem =>
    "Template render error in '" ++ template ++ "': " ++ problem.describe
  | .data problem => "JSON error: " ++ problem.describe

/-- The text with which the program breaks off and does not report the error, if it does. -/
def crash? : ExpressionError → Option String
  | .evaluation _ problem | .render _ problem => problem.crash?
  | .malformed _ | .data _ => none

end ExpressionError

/-- An evaluator: the value of a text, and whether it holds.  One of its errors may stand for the end of the
program. -/
structure Evaluator where
  evaluate : String → Vars → Except ExpressionError Json
  validate : String → Vars → Except ExpressionError Bool

namespace Evaluator

/-- The marks around an expression in a text. -/
def openMark : String :=
  "\x7b\x7b"

def closeMark : String :=
  "\x7d\x7d"

/-- Does a text hold expressions in double braces? -/
def hasTemplates (text : String) : Bool :=
  Text.contains text openMark && Text.contains text closeMark

/-- The forms of a text. -/
inductive Form
  | blank
  | wrapped (inner : String)
  | template
  | bare (expression : String)
  deriving DecidableEq, Repr

/-- The text between double braces at both ends, if there are none inside. -/
def inner? (trimmed : String) : Option String :=
  let cs := trimmed.toList
  if 4 ≤ cs.length && openMark.toList.isPrefixOf cs && closeMark.toList.isSuffixOf cs then
    let inner := String.ofList ((cs.drop 2).take (cs.length - 4))
    if Text.contains inner openMark || Text.contains inner closeMark then none
    else some (Text.trim inner)
  else none

/-- The form of a text. -/
def formOf (text : String) : Form :=
  let trimmed := Text.trim text
  if trimmed = "" then .blank
  else
    match inner? trimmed with
    | some inner => .wrapped inner
    | none => if hasTemplates trimmed then .template else .bare trimmed

/-- The value of an expression. -/
def valueOf (s : Setting) (expression : String) (vars : Vars) : Except ExpressionError Value :=
  match Expr.read expression with
  | .error problem => .error (.ofExpression expression problem)
  | .ok e => (e.eval s { vars }).mapError (.ofExpression expression)

/-- The text of a template. -/
def render (s : Setting) (template : String) (vars : Vars) : Except ExpressionError String :=
  (do
    let parts ← Template.read template
    Template.render s vars parts : Except Problem String).mapError (.ofTemplate template)

/-- A value as a data value. -/
def dataOf (v : Value) : Except ExpressionError Json :=
  v.toJson.mapError .data

/-- Does a rendered text say yes? -/
def saysTrue (rendered : String) : Bool :=
  let trimmed := Text.trim rendered
  trimmed = "true" || trimmed = "True"

/-- The value of a text. -/
def evaluateIn (s : Setting) (text : String) (vars : Vars) : Except ExpressionError Json :=
  match formOf text with
  | .blank => .ok (.string text)
  | .template => Json.string <$> render s text vars
  | .wrapped expression | .bare expression => do
    let v ← valueOf s expression vars
    dataOf v

/-- Does a text hold? -/
def validateIn (s : Setting) (text : String) (vars : Vars) : Except ExpressionError Bool :=
  match formOf text with
  | .blank => .ok false
  | .template => saysTrue <$> render s text vars
  | .wrapped expression | .bare expression => Value.truthy <$> valueOf s expression vars

/-- Can a text be read? -/
def checkSyntax (text : String) : Except ExpressionError Unit :=
  match formOf text with
  | .blank => .ok ()
  | .template => (discard (Template.read text)).mapError (.ofTemplate text)
  | .wrapped expression | .bare expression =>
    (discard (Expr.read expression)).mapError (.ofExpression expression)

/-- The standard evaluator of a setting. -/
def standard (s : Setting) : Evaluator where
  evaluate := evaluateIn s
  validate := validateIn s

end Evaluator

end Runsheet
