import Runsheet.Expression.Eval
import Runsheet.Template.Tree

/-!
# Rendering templates

The text of a template.  Assignments are kept in frames: a loop opens a frame for all its rounds,
and a name is looked up from the innermost frame outwards, then among the variables.
-/

namespace Runsheet.Template

open Runsheet.Expression

/-- The names that are assigned in one place. -/
abbrev Frame :=
  Table Value

/-- What a rendering has come to: its frames, innermost first, and the text so far. -/
structure Progress where
  frames : List Frame
  out : String

/-- A step of a rendering. -/
abbrev Rendering :=
  StateT Progress (Except Problem)

namespace Rendering

/-- Adds to the text. -/
def emit (s : String) : Rendering Unit :=
  modify fun p => { p with out := p.out ++ s }

/-- Assigns a value to a name in the innermost frame. -/
def bindName (name : String) (v : Value) : Rendering Unit :=
  modify fun p =>
    match p.frames with
    | [] => { p with frames := [[(name, v)]] }
    | frame :: rest => { p with frames := frame.insert name v :: rest }

/-- The value of an expression. -/
def eval (s : Setting) (vars : Vars) (e : Expr) : Rendering Value := do
  let p ← get
  e.eval s { locals := p.frames.flatten, vars }

/-- Opens a frame. -/
def enter (frame : Frame) : Rendering Unit :=
  modify fun p => { p with frames := frame :: p.frames }

/-- Closes the innermost frame. -/
def leave : Rendering Unit :=
  modify fun p => { p with frames := p.frames.drop 1 }

mutual

/-- Assigns a value to a target. -/
def assign (s : Setting) (v : Value) : Target → Rendering Unit
  | .name name => bindName name v
  | .several targets => do
    match s.items v with
    | .ok items => assignAll s items targets
    | .error _ => throw .cannotUnpack
  | .part => throw .invalidOperation

/-- Assigns each of the values to a target of its own. -/
def assignAll (s : Setting) (values : List Value) : List Target → Rendering Unit
  | [] => if values.isEmpty then pure () else throw .cannotUnpack
  | target :: rest =>
    match values with
    | [] => throw .cannotUnpack
    | v :: more => do
      assign s v target
      assignAll s more rest

end

/-- The items that pass the condition of a loop. -/
def passing (s : Setting) (vars : Vars) (target : Target) (condition : Option Expr) :
    List Value → Rendering (List Value)
  | [] => pure []
  | item :: rest => do
    match condition with
    | none => pure (item :: rest)
    | some e =>
      enter []
      assign s item target
      let v ← eval s vars e
      leave
      let keep ← s.isTrue v
      let more ← passing s vars target condition rest
      pure (if keep then item :: more else more)

/-- What a loop says about a round: the item before, and the items from this one on. -/
def roundOf (length depth index : Nat) (previous : Value) (rest : List Value) : Value :=
  Value.ofEntries
    [(.string "index", .int (index + 1)), (.string "index0", .int index),
     (.string "length", .int length), (.string "revindex", .int (length - index : Nat)),
     (.string "revindex0", .int (length - index - 1 : Nat)), (.string "first", .bool (index == 0)),
     (.string "last", .bool (index + 1 == length)), (.string "depth", .int (depth + 1)),
     (.string "depth0", .int depth), (.string "previtem", previous),
     (.string "nextitem", (rest.drop 1).headD (.undefined false))]

/-- The items of a loop, each with what the loop says about its round. -/
def rounds (length depth index : Nat) (previous : Value) : List Value → List (Value × Value)
  | [] => []
  | item :: rest =>
    (item, roundOf length depth index previous (item :: rest)) ::
      rounds length depth (index + 1) item rest

/-- The value of a captured text after the filters. -/
def filtered (s : Setting) (vars : Vars) (v : Value) : List FilterCall → Rendering Value
  | [] => pure v
  | (name, args) :: rest => do
    let p ← get
    let args ← evalArguments s { locals := p.frames.flatten, vars } args
    let v ← applyFilter s name ((Arguments.ofList args).push v)
    filtered s vars v rest

mutual

/-- Renders a part. -/
def part (s : Setting) (vars : Vars) (depth : Nat) : Part → Rendering Unit
  | .text text => emit text
  | .shown e => do
    let v ← eval s vars e
    let text ← s.shown v
    emit text
  | .choice condition yes no => do
    let v ← eval s vars condition
    if ← s.isTrue v then parts s vars depth yes else parts s vars depth no
  | .loop target source condition body otherwise => do
    let v ← eval s vars source
    let all ← s.items v
    let items ← passing s vars target condition all
    if items.isEmpty then parts s vars depth otherwise
    else
      enter []
      (rounds items.length depth 0 (.undefined false) items).forM fun (item, round) => do
        bindName "loop" round
        assign s item target
        parts s vars (depth + 1) body
      leave
  | .assign target e => do
    let v ← eval s vars e
    assign s v target
  | .capture target filters body => do
    let before := (← get).out
    modify fun p => { p with out := "" }
    parts s vars depth body
    let text := (← get).out
    modify fun p => { p with out := before }
    let v ← filtered s vars (.string text) filters
    assign s v target

/-- Renders parts, one after the other. -/
def parts (s : Setting) (vars : Vars) (depth : Nat) : List Part → Rendering Unit
  | [] => pure ()
  | first :: rest => do
    part s vars depth first
    parts s vars depth rest

end

end Rendering

/-- The text of a template. -/
def render (s : Setting) (vars : Vars) (parts : List Part) : Except Problem String := do
  let (_, p) ← (Rendering.parts s vars 0 parts).run ⟨[[]], ""⟩
  pure p.out

end Runsheet.Template
