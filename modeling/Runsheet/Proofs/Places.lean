import Runsheet.Expression.Eval

/-!
# Places of calls

A call remembers the place where it stands, and the only function that asks for it is the one that makes
identifiers.  An expression that does not call that function has the same value wherever its calls stand.

* `Expr.moved` — an expression whose calls stand at other places;
* `Expr.called` — the names of the functions that an expression calls;
* `Expr.eval_moved` — the value of an expression without new identifiers.
-/

namespace Runsheet.Expression

section

variable (place : Nat → Nat)

mutual

/-- The expression whose calls stand at the places that the function gives. -/
def Expr.moved : Expr → Expr
  | .literal value => .literal value
  | .variable name => .variable name
  | .list items => .list (movedItems items)
  | .map entries => .map (movedEntries entries)
  | .unary op operand => .unary op operand.moved
  | .binary op left right => .binary op left.moved right.moved
  | .logic op left right => .logic op left.moved right.moved
  | .compare first steps => .compare first.moved (movedSteps steps)
  | .choose condition consequence alternative =>
    .choose condition.moved consequence.moved (movedOptional alternative)
  | .attribute object name => .attribute object.moved name
  | .item object key => .item object.moved key.moved
  | .slice object start stop step =>
    .slice object.moved (movedOptional start) (movedOptional stop) (movedOptional step)
  | .call at_ callee args => .call (place at_) callee.moved (movedArguments args)
  | .filter name operand args => .filter name operand.moved (movedArguments args)
  | .test name operand args => .test name operand.moved (movedArguments args)

def movedItems : List Expr → List Expr
  | [] => []
  | item :: rest => item.moved :: movedItems rest

def movedEntries : List (Expr × Expr) → List (Expr × Expr)
  | [] => []
  | (key, value) :: rest => (key.moved, value.moved) :: movedEntries rest

def movedOptional : Option Expr → Option Expr
  | none => none
  | some e => some e.moved

def movedArguments : List (Option String × Expr) → List (Option String × Expr)
  | [] => []
  | (name, e) :: rest => (name, e.moved) :: movedArguments rest

def movedSteps : List (CompareOp × Expr) → List (CompareOp × Expr)
  | [] => []
  | (op, e) :: rest => (op, e.moved) :: movedSteps rest

end

end

mutual

/-- The names of the functions that an expression calls. -/
def Expr.called : Expr → List String
  | .literal _ | .variable _ => []
  | .list items => calledInItems items
  | .map entries => calledInEntries entries
  | .unary _ operand => operand.called
  | .binary _ left right | .logic _ left right => left.called ++ right.called
  | .compare first steps => first.called ++ calledInSteps steps
  | .choose condition consequence alternative =>
    condition.called ++ consequence.called ++ calledInOptional alternative
  | .attribute object _ => object.called
  | .item object key => object.called ++ key.called
  | .slice object start stop step =>
    object.called ++ calledInOptional start ++ calledInOptional stop ++ calledInOptional step
  | .call _ (.variable name) args => name :: calledInArguments args
  | .call _ callee args => callee.called ++ calledInArguments args
  | .filter _ operand args | .test _ operand args => operand.called ++ calledInArguments args

def calledInItems : List Expr → List String
  | [] => []
  | item :: rest => item.called ++ calledInItems rest

def calledInEntries : List (Expr × Expr) → List String
  | [] => []
  | (key, value) :: rest => key.called ++ value.called ++ calledInEntries rest

def calledInOptional : Option Expr → List String
  | none => []
  | some e => e.called

def calledInArguments : List (Option String × Expr) → List String
  | [] => []
  | (_, e) :: rest => e.called ++ calledInArguments rest

def calledInSteps : List (CompareOp × Expr) → List String
  | [] => []
  | (_, e) :: rest => e.called ++ calledInSteps rest

end

/-- A function gives the same at all places unless it makes identifiers. -/
theorem functions_of_place : ∀ entry ∈ functions, entry.1 ≠ "uuid" →
    ∀ s m n args, entry.2 s m args = entry.2 s n args := by
  simp only [functions, List.forall_mem_cons]
  exact ⟨fun _ _ _ _ _ => rfl, fun hname => absurd rfl hname, fun _ _ _ _ _ => rfl,
    fun _ _ _ _ _ => rfl, fun _ _ _ _ _ => rfl, nofun⟩

theorem callFunction_of_place {name : String} (hname : name ≠ "uuid") (s : Setting) (scope : Scope)
    (m n : Nat) (args : Arguments) :
    callFunction s (scope.seed m) name args = callFunction s (scope.seed n) name args := by
  unfold callFunction
  split
  next f hf => exact functions_of_place _ (Table.mem_of_get? hf) hname s _ _ args
  · rfl

theorem callNamed_of_place {name : String} (hname : name ≠ "uuid") (s : Setting) (scope : Scope)
    (m n : Nat) (args : Arguments) :
    callNamed s scope m name args = callNamed s scope n name args := by
  unfold callNamed
  split
  · rfl
  · exact callFunction_of_place hname s scope m n args

/-- A value is called after it and its arguments are found, wherever the call stands. -/
theorem called_congr {s : Setting} {scope : Scope} {x y : Value.Result}
    {a b : Except Problem (List (Option String × Value))} (hx : x = y) (ha : a = b) :
    (do let v ← x; let args ← a; callValue s scope v (.ofList args) : Value.Result) =
      (do let v ← y; let args ← b; callValue s scope v (.ofList args)) := by
  rw [hx, ha]

section

variable (place : Nat → Nat) (s : Setting) (scope : Scope)

mutual

/-- **The value of an expression that makes no identifiers** does not depend on where its calls stand. -/
theorem Expr.eval_moved (e : Expr) (h : "uuid" ∉ e.called) :
    (e.moved place).eval s scope = e.eval s scope := by
  match e with
  | .literal value => rfl
  | .variable name => rfl
  | .list items =>
      rw [Expr.called] at h
      simp only [Expr.moved, Expr.eval, evalItems_moved items h]
  | .map entries =>
      rw [Expr.called] at h
      simp only [Expr.moved, Expr.eval, evalEntries_moved entries h]
  | .unary .not operand | .unary .negate operand =>
      rw [Expr.called] at h
      simp only [Expr.moved, Expr.eval, operand.eval_moved h]
  | .binary op left right =>
      rw [Expr.called, List.mem_append, not_or] at h
      simp only [Expr.moved, Expr.eval, left.eval_moved h.1, right.eval_moved h.2]
  | .logic .and left right | .logic .or left right =>
      rw [Expr.called, List.mem_append, not_or] at h
      simp only [Expr.moved, Expr.eval, left.eval_moved h.1, right.eval_moved h.2]
  | .compare first steps =>
      rw [Expr.called, List.mem_append, not_or] at h
      simp only [Expr.moved, Expr.eval, first.eval_moved h.1]
      exact bind_congr fun a => evalSteps_moved a true steps h.2
  | .choose condition consequence alternative =>
      simp only [Expr.called, List.mem_append, not_or] at h
      simp only [Expr.moved, Expr.eval, condition.eval_moved h.1.1, consequence.eval_moved h.1.2,
        evalOptional_moved alternative h.2]
  | .attribute object name =>
      rw [Expr.called] at h
      simp only [Expr.moved, Expr.eval, object.eval_moved h]
  | .item object key =>
      rw [Expr.called, List.mem_append, not_or] at h
      simp only [Expr.moved, Expr.eval, object.eval_moved h.1, key.eval_moved h.2]
  | .slice object start stop step =>
      simp only [Expr.called, List.mem_append, not_or] at h
      simp only [Expr.moved, Expr.eval, object.eval_moved h.1.1.1, evalOptional_moved start h.1.1.2,
        evalOptional_moved stop h.1.2, evalOptional_moved step h.2]
  | .call at_ (.variable name) args =>
      rw [Expr.called, List.mem_cons, not_or] at h
      simp only [Expr.moved, Expr.eval, evalArguments_moved args h.2]
      refine bind_congr fun values => ?_
      exact callNamed_of_place (Ne.symm h.1) s scope (place at_) at_ (.ofList values)
  | .call at_ (.attribute object name) args =>
      simp only [Expr.called, List.mem_append, not_or] at h
      simp only [Expr.moved, Expr.eval, object.eval_moved h.1, evalArguments_moved args h.2]
  | .call at_ (.literal ..) args | .call at_ (.list ..) args | .call at_ (.map ..) args
  | .call at_ (.unary ..) args | .call at_ (.binary ..) args | .call at_ (.logic ..) args
  | .call at_ (.compare ..) args | .call at_ (.choose ..) args | .call at_ (.item ..) args
  | .call at_ (.slice ..) args | .call at_ (.call ..) args | .call at_ (.filter ..) args
  | .call at_ (.test ..) args =>
      rw [Expr.called, List.mem_append, not_or] at h
      · exact called_congr (Expr.eval_moved _ h.1) (evalArguments_moved args h.2)
      · exact nofun
  | .filter name operand args | .test name operand args =>
      rw [Expr.called, List.mem_append, not_or] at h
      simp only [Expr.moved, Expr.eval, operand.eval_moved h.1, evalArguments_moved args h.2]

theorem evalItems_moved (items : List Expr) (h : "uuid" ∉ calledInItems items) :
    evalItems s scope (movedItems place items) = evalItems s scope items := by
  match items with
  | [] => rfl
  | item :: rest =>
      rw [calledInItems, List.mem_append, not_or] at h
      simp only [movedItems, evalItems, item.eval_moved h.1, evalItems_moved rest h.2]

theorem evalEntries_moved (entries : List (Expr × Expr)) (h : "uuid" ∉ calledInEntries entries) :
    evalEntries s scope (movedEntries place entries) = evalEntries s scope entries := by
  match entries with
  | [] => rfl
  | (key, value) :: rest =>
      simp only [calledInEntries, List.mem_append, not_or] at h
      simp only [movedEntries, evalEntries, key.eval_moved h.1.1, value.eval_moved h.1.2,
        evalEntries_moved rest h.2]

theorem evalOptional_moved (e : Option Expr) (h : "uuid" ∉ calledInOptional e) :
    evalOptional s scope (movedOptional place e) = evalOptional s scope e := by
  match e with
  | none => rfl
  | some e =>
      rw [calledInOptional] at h
      simp only [movedOptional, evalOptional, e.eval_moved h]

theorem evalArguments_moved (args : List (Option String × Expr))
    (h : "uuid" ∉ calledInArguments args) :
    evalArguments s scope (movedArguments place args) = evalArguments s scope args := by
  match args with
  | [] => rfl
  | (name, e) :: rest =>
      rw [calledInArguments, List.mem_append, not_or] at h
      simp only [movedArguments, evalArguments, e.eval_moved h.1, evalArguments_moved rest h.2]

theorem evalSteps_moved (left : Value) (holds : Bool) (steps : List (CompareOp × Expr))
    (h : "uuid" ∉ calledInSteps steps) :
    evalSteps s scope left holds (movedSteps place steps) = evalSteps s scope left holds steps := by
  match steps with
  | [] => rfl
  | (op, e) :: rest =>
      rw [calledInSteps, List.mem_append, not_or] at h
      have hrest (left : Value) (holds : Bool) := evalSteps_moved left holds rest h.2
      simp only [movedSteps, evalSteps, e.eval_moved h.1, hrest]

end

end

end Runsheet.Expression
