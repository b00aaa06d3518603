import Runsheet.Expression.Access
import Runsheet.Expression.Check
import Runsheet.Expression.Function
import Runsheet.Expression.Parser

/-!
# Evaluating expressions

The value of an expression in a scope.  Operands are evaluated from left to right, and the name of
a filter, a test or a function is looked up only when its arguments have values.  The name of a
function that nothing hides has the function for its value.
-/

namespace Runsheet.Expression

/-- The names that an expression can see: local ones, then variables. -/
structure Scope where
  locals : List (String × Value) := []
  vars : Vars

namespace Scope

/-- The value of a name, if it has one. -/
def find? (scope : Scope) (name : String) : Option Value :=
  match Table.get? name scope.locals with
  | some v => some v
  | none => (Table.get? name scope.vars).map Value.ofJson

/-- A number that depends on the values of all names, for identifiers that are not to repeat. -/
def seed (scope : Scope) (place : Nat) : Nat :=
  let text := (Json.object scope.vars).text ++
    scope.locals.flatMap fun entry => entry.1.toList ++ entry.2.display.toList
  text.foldl (fun n c => (n * 1000003 + c.toNat + 1) % Nat.pow 2 61) (place + 1)

end Scope

/-- Calls the function of a name. -/
def callFunction (s : Setting) (seed : Nat) (name : String) (args : Arguments) : Value.Result :=
  match Table.get? name functions with
  | some f => f s seed args
  | none => .error .unknownFunction

/-- Calls a value; only functions can be called.  Where a function is called as a value, no place of a
call is known. -/
def callValue (s : Setting) (scope : Scope) (v : Value) (args : Arguments) : Value.Result :=
  match v with
  | .callable name _ => callFunction s (scope.seed 0) name args
  | _ => .error .invalidOperation

/-- Calls by name.  A variable of a function's name hides the function. -/
def callNamed (s : Setting) (scope : Scope) (place : Nat) (name : String) (args : Arguments) :
    Value.Result :=
  match scope.find? name with
  | some v => callValue s scope v args
  | none => callFunction s (scope.seed place) name args

/-- Calls a method: an entry of a map; other values have none. -/
def callMethod (s : Setting) (scope : Scope) (object : Value) (name : String) (args : Arguments) :
    Value.Result :=
  match object with
  | .undefined _ => .error .undefinedValue
  | .map entries =>
    match Value.lookup? (.string name) entries with
    | some v => callValue s scope v args
    | none => .error .unknownMethod
  | _ => .error .unknownMethod

/-- The value of a name: what the scope knows under it or, under the name of a function, that
function. -/
def nameValue (s : Setting) (scope : Scope) (name : String) : Value :=
  match scope.find? name with
  | some v => v
  | none =>
    if (Table.get? name functions).isSome then .callable name (s.label name) else .undefined false

/-- Applies a filter by name. -/
def applyFilter (s : Setting) (name : String) (args : Arguments) : Value.Result :=
  match Table.get? name filters with
  | some f => f s args
  | none => .error .unknownFilter

/-- Puts a test by name. -/
def applyCheck (s : Setting) (name : String) (args : Arguments) : Value.Result :=
  match Table.get? name checks with
  | some check => Value.bool <$> check s args
  | none => .error .unknownTest

/-- The value of a literal. -/
def Literal.value : Literal → Value
  | .none => .none
  | .bool b => .bool b
  | .int n => .int n
  | .float x => .float x
  | .string s => .string s

/-- The arguments of a call, as they were written, with the named ones apart. -/
def Arguments.ofList (args : List (Option String × Value)) : Arguments where
  positional := args.filterMap fun a => if a.1.isNone then some a.2 else none
  named := args.filterMap fun a => a.1.map fun name => (name, a.2)

/-- A binary operator applied in a setting: joining uses the texts of both operands. -/
def BinaryOp.applyIn (s : Setting) (op : BinaryOp) (a b : Value) : Value.Result := do
  if op = .join then
    let a ← s.use a
    let b ← s.use b
    op.apply a b
  else op.apply a b

mutual

/-- The value of an expression. -/
def Expr.eval (s : Setting) (scope : Scope) : Expr → Value.Result
  | .literal value => .ok value.value
  | .variable name => .ok (nameValue s scope name)
  | .list items => do
    let items ← evalItems s scope items
    pure (.list items)
  | .map entries => do
    let entries ← evalEntries s scope entries
    pure (Value.ofEntries entries)
  | .unary .not operand => do
    let v ← operand.eval s scope
    let holds ← s.isTrue v
    pure (.bool !holds)
  | .unary .negate operand => do
    let v ← operand.eval s scope
    v.negate
  | .binary op left right => do
    let a ← left.eval s scope
    let b ← right.eval s scope
    op.applyIn s a b
  | .logic .and left right => do
    let a ← left.eval s scope
    if ← s.isTrue a then right.eval s scope else pure a
  | .logic .or left right => do
    let a ← left.eval s scope
    if ← s.isTrue a then pure a else right.eval s scope
  | .compare first steps => do
    let a ← first.eval s scope
    evalSteps s scope a true steps
  | .choose condition consequence alternative => do
    let c ← condition.eval s scope
    if ← s.isTrue c then consequence.eval s scope
    else
      let other ← evalOptional s scope alternative
      pure (other.getD (.undefined true))
  | .attribute object name => do
    let v ← object.eval s scope
    v.member name
  | .item object key => do
    let v ← object.eval s scope
    let k ← key.eval s scope
    v.item k
  | .slice object start stop step => do
    let v ← object.eval s scope
    let start ← evalOptional s scope start
    let stop ← evalOptional s scope stop
    let step ← evalOptional s scope step
    v.slice start stop step
  | .call place (.variable name) args => do
    let args ← evalArguments s scope args
    callNamed s scope place name (.ofList args)
  | .call _ (.attribute object name) args => do
    let v ← object.eval s scope
    let args ← evalArguments s scope args
    callMethod s scope v name (.ofList args)
  | .call _ callee args => do
    let v ← callee.eval s scope
    let args ← evalArguments s scope args
    callValue s scope v (.ofList args)
  | .filter name operand args => do
    let v ← operand.eval s scope
    let args ← evalArguments s scope args
    applyFilter s name ((Arguments.ofList args).push v)
  | .test name operand args => do
    let v ← operand.eval s scope
    let args ← evalArguments s scope args
    applyCheck s name ((Arguments.ofList args).push v)

/-- The values of the items of a list. -/
def evalItems (s : Setting) (scope : Scope) : List Expr → Except Problem (List Value)
  | [] => .ok []
  | item :: rest => do
    let v ← item.eval s scope
    let vs ← evalItems s scope rest
    pure (v :: vs)

/-- The keys and values of the entries of a map. -/
def evalEntries (s : Setting) (scope : Scope) :
    List (Expr × Expr) → Except Problem (List (Value × Value))
  | [] => .ok []
  | (key, value) :: rest => do
    let k ← key.eval s scope
    let v ← value.eval s scope
    let vs ← evalEntries s scope rest
    pure ((k, v) :: vs)

/-- The value of an expression that may be left out. -/
def evalOptional (s : Setting) (scope : Scope) : Option Expr → Except Problem (Option Value)
  | none => .ok none
  | some e => do
    let v ← e.eval s scope
    pure (some v)

/-- The values of arguments. -/
def evalArguments (s : Setting) (scope : Scope) :
    List (Option String × Expr) → Except Problem (List (Option String × Value))
  | [] => .ok []
  | (name, e) :: rest => do
    let v ← e.eval s scope
    let vs ← evalArguments s scope rest
    pure ((name, v) :: vs)

/-- The answer of a chain of comparisons: the first step that does not hold ends it. -/
def evalSteps (s : Setting) (scope : Scope) (left : Value) (holds : Bool) :
    List (CompareOp × Expr) → Value.Result
  | [] => .ok (.bool holds)
  | (op, e) :: rest =>
    if holds then do
      let right ← e.eval s scope
      let left ← s.use left
      let used ← s.use right
      let holds ← op.apply left used
      evalSteps s scope right holds rest
    else .ok (.bool false)

end

end Runsheet.Expression
