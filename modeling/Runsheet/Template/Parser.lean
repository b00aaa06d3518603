import Runsheet.Expression.Parser
import Runsheet.Template.Token
import Runsheet.Template.Tree

/-!
# Reading templates

The grammar of the parts of a template.  A statement that opens a body ends with a statement of its
own name, and the bodies of loops and choices may have an alternative.
-/

namespace Runsheet.Template

open Runsheet.Expression Reading

namespace Parser

/-- The names that cannot be assigned to. -/
def reserved : List String :=
  ["true", "True", "false", "False", "none", "None", "loop", "self"]

/-- Takes a name that can be assigned to. -/
def assignable : Reading String := do
  let s ← name
  if reserved.contains s then fail else pure s

/-- Does a list of targets end before the token? -/
def endsTargets : Option Token → Bool
  | some (.mark .closeParen) | some .closeValue | some .closeStatement | some (.name "in") => true
  | _ => false

mutual

/-- Targets with commas between them. -/
def targets (fuel : Nat) : Reading Target :=
  match fuel with
  | 0 => fail
  | fuel + 1 => do
    if endsTargets (← peek) then pure (.several [])
    else
      let first ← target fuel
      if ← accept (.mark .comma) then
        let rest ← moreTargets fuel
        pure (.several (first :: rest))
      else pure first

/-- The targets after a comma; there may be none. -/
def moreTargets (fuel : Nat) : Reading (List Target) :=
  match fuel with
  | 0 => fail
  | fuel + 1 => do
    if endsTargets (← peek) then pure []
    else
      let first ← target fuel
      if ← accept (.mark .comma) then
        let rest ← moreTargets fuel
        pure (first :: rest)
      else pure [first]

/-- A name, or targets in parentheses. -/
def target (fuel : Nat) : Reading Target :=
  match fuel with
  | 0 => fail
  | fuel + 1 => do
    if ← accept (.mark .openParen) then
      let inner ← targets fuel
      expect (.mark .closeParen)
      pure inner
    else .name <$> assignable

end

/-- The parts of a value that follow a name. -/
def dotted (fuel : Nat) (t : Target) : Reading Target :=
  match fuel with
  | 0 => fail
  | fuel + 1 => do
    if ← accept (.mark .dot) then
      let _ ← name
      dotted fuel .part
    else pure t

/-- The filters that a captured text goes through, after the first bar. -/
def filterCalls (fuel depth : Nat) : Reading (List FilterCall) :=
  match fuel with
  | 0 => fail
  | fuel + 1 => do
    let filterName ← name
    let args ← Expression.Parser.argumentsIfAny fuel depth
    if ← accept (.mark .pipe) then
      let rest ← filterCalls fuel depth
      pure ((filterName, args) :: rest)
    else pure [(filterName, args)]

mutual

/-- The parts up to a statement whose name is one of the endings, or up to the end of the text. -/
def parts (fuel depth : Nat) (endings : List String) : Reading (List Part) :=
  match fuel with
  | 0 => fail
  | fuel + 1 => do
    match ← next with
    | none => pure []
    | some (.text s) =>
      let rest ← parts fuel depth endings
      pure (.text s :: rest)
    | some .openValue =>
      let value ← Expression.Parser.expression fuel depth
      expect .closeValue
      let rest ← parts fuel depth endings
      pure (.shown value :: rest)
    | some .openStatement =>
      let ended := match ← peek with
        | some (.name s) => endings.contains s
        | _ => false
      if ended then pure []
      else
        let first ← statement fuel depth
        expect .closeStatement
        let rest ← parts fuel depth endings
        pure (first :: rest)
    | some _ => fail

/-- A statement; each one is a level of nesting. -/
def statement (fuel depth : Nat) : Reading Part :=
  match fuel with
  | 0 => fail
  | fuel + 1 => do
    unless depth < Expression.Parser.maxDepth do fail
    match ← next with
    | some (.name "if") => choice fuel (depth + 1)
    | some (.name "for") => loop fuel (depth + 1)
    | some (.name "set") => assignment fuel (depth + 1)
    | _ => fail

/-- A choice, after its keyword. -/
def choice (fuel depth : Nat) : Reading Part :=
  match fuel with
  | 0 => fail
  | fuel + 1 => do
    let condition ← Expression.Parser.disjunction fuel depth
    expect .closeStatement
    let yes ← parts fuel depth ["endif", "else", "elif"]
    match ← next with
    | some (.name "else") =>
      expect .closeStatement
      let no ← parts fuel depth ["endif"]
      let _ ← next
      pure (.choice condition yes no)
    | some (.name "elif") =>
      let other ← choice fuel depth
      pure (.choice condition yes [other])
    | _ => pure (.choice condition yes [])

/-- A loop, after its keyword. -/
def loop (fuel depth : Nat) : Reading Part :=
  match fuel with
  | 0 => fail
  | fuel + 1 => do
    let target ← targets fuel
    expect (.name "in")
    let source ← Expression.Parser.disjunction fuel depth
    let condition ←
      if ← accept (.name "if") then some <$> Expression.Parser.expression fuel depth
      else pure none
    let _ ← accept (.name "recursive")
    expect .closeStatement
    let body ← parts fuel depth ["endfor", "else"]
    let otherwise ←
      if ← accept (.name "else") then
        expect .closeStatement
        parts fuel depth ["endfor"]
      else pure []
    let _ ← next
    pure (.loop target source condition body otherwise)

/-- An assignment, after its keyword: of a value, or of the text of a body. -/
def assignment (fuel depth : Nat) : Reading Part :=
  match fuel with
  | 0 => fail
  | fuel + 1 => do
    let grouped ← accept (.mark .openParen)
    let target ←
      if grouped then
        let inner ← targets fuel
        expect (.mark .closeParen)
        pure inner
      else
        let s ← assignable
        dotted fuel (.name s)
    let token ← peek
    if !grouped && (token == some .closeStatement || token == some (.mark .pipe)) then
      let filters ← if ← accept (.mark .pipe) then filterCalls fuel depth else pure []
      expect .closeStatement
      let body ← parts fuel depth ["endset"]
      let _ ← next
      pure (.capture target filters body)
    else
      expect (.mark .assign)
      let value ← Expression.Parser.expression fuel depth
      pure (.assign target value)

end

end Parser

/-- Reads a template. -/
def read (text : String) : Except Problem (List Part) := do
  let tokens := tokens text.toList
  let (parts, _) ← (Parser.parts (Expression.Parser.fuelFor tokens) 0 []).run tokens
  pure parts

end Runsheet.Template
