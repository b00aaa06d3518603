import Runsheet.Expression.Token
import Runsheet.Expression.Tree

/-!
# Reading expressions

The grammar of expressions, from the loosest binding to the tightest: a choice, `or`, `and`, `not`,
comparisons, four levels of binary operators, the minus sign, what follows a primary, and filters
and tests.  All binary operators group to the left.  A reading stops at once when it comes to a
broken token.
-/

namespace Runsheet.Expression

/-- Takes tokens from the front of a list, or stops with a problem. -/
abbrev Reading :=
  StateT (List Token) (Except Problem)

namespace Reading

variable {α : Type}

/-- The text does not follow the grammar. -/
def fail : Reading α :=
  throw .malformed

/-- The next token, which stays. -/
def peek : Reading (Option Token) := do
  match ← get with
  | [] => pure none
  | .broken problem :: _ => throw problem
  | token :: _ => pure (some token)

/-- Drops the next token. -/
def skip : Reading Unit :=
  modify (·.drop 1)

/-- Takes the next token. -/
def next : Reading (Option Token) := do
  let token ← peek
  skip
  pure token

/-- Is the next token the given one? -/
def meets (token : Token) : Reading Bool := do
  pure ((← peek) == some token)

/-- Takes the next token if it is the given one. -/
def accept (token : Token) : Reading Bool := do
  let found ← meets token
  if found then skip
  pure found

/-- Takes the next token, which must be the given one. -/
def expect (token : Token) : Reading Unit := do
  unless ← accept token do fail

/-- Takes the next token, which must be a name. -/
def name : Reading String := do
  match ← next with
  | some (.name s) => pure s
  | _ => fail

end Reading

namespace Parser

open Reading

/-- How deep expressions may be nested. -/
def maxDepth : Nat := 150

/-- The levels of binary operators, from the loosest to the tightest. -/
def operatorLevels : List (List (Mark × BinaryOp)) :=
  [[(.plus, .add), (.minus, .subtract)],
   [(.join, .join)],
   [(.times, .multiply), (.divide, .divide), (.floorDivide, .floorDivide), (.modulo, .modulo)],
   [(.power, .power)]]

/-- The operator of a level that a token stands for. -/
def operatorOf (level : List (Mark × BinaryOp)) : Option Token → Option BinaryOp
  | some (.mark m) => (level.find? fun entry => entry.1 = m).map (·.2)
  | _ => none

/-- The comparison that a mark stands for. -/
def comparisonOf : Mark → Option CompareOp
  | .equal => some .equal
  | .notEqual => some .notEqual
  | .less => some .less
  | .lessEqual => some .lessEqual
  | .greater => some .greater
  | .greaterEqual => some .greaterEqual
  | _ => none

/-- Takes a comparison operator if one comes next. -/
def comparisonOp? : Reading (Option CompareOp) := do
  match ← peek with
  | some (.name "in") =>
    skip
    pure (some .isIn)
  | some (.name "not") =>
    skip
    expect (.name "in")
    pure (some .isNotIn)
  | some (.mark m) =>
    let op := comparisonOf m
    if op.isSome then skip
    pure op
  | _ => pure none

/-- The meaning of a name where an operand is expected. -/
def namedValue (s : String) : Expr :=
  if s = "true" || s = "True" then .literal (.bool true)
  else if s = "false" || s = "False" then .literal (.bool false)
  else if s = "none" || s = "None" then .literal .none
  else .variable s

/-- Takes the string literals that follow one another, and joins them to the text before. -/
def moreStrings (text : String) : Reading String := do
  let tokens ← get
  let strings := tokens.takeWhile fun
    | .string _ => true
    | _ => false
  set (tokens.drop strings.length)
  let _ ← peek
  pure (strings.foldl (fun text token =>
    match token with
    | .string s => text ++ s
    | _ => text) text)

/-- Can the argument of a test stand without parentheses when it begins with the token? -/
def startsTestArgument : Option Token → Bool
  | some (.name s) => !(["and", "or", "else", "is"].contains s)
  | some (.string _) | some (.integer _) | some (.decimal _) => true
  | some (.mark m) => [Mark.plus, .minus, .openBracket, .openBrace].contains m
  | _ => false

mutual

/-- An expression; each one is a level of nesting. -/
def expression (fuel depth : Nat) : Reading Expr :=
  match fuel with
  | 0 => fail
  | fuel + 1 => if depth < maxDepth then choice fuel (depth + 1) else fail

/-- A choice `x if c else y`, or an expression that binds tighter. -/
def choice (fuel depth : Nat) : Reading Expr :=
  match fuel with
  | 0 => fail
  | fuel + 1 => do
    let value ← disjunction fuel depth
    choices fuel depth value

/-- The conditions that follow a value. -/
def choices (fuel depth : Nat) (value : Expr) : Reading Expr :=
  match fuel with
  | 0 => fail
  | fuel + 1 => do
    if ← accept (.name "if") then
      let condition ← disjunction fuel depth
      if ← accept (.name "else") then
        let alternative ← choice fuel depth
        choices fuel depth (.choose condition value (some alternative))
      else choices fuel depth (.choose condition value none)
    else pure value

/-- Operands joined by `or`. -/
def disjunction (fuel depth : Nat) : Reading Expr :=
  match fuel with
  | 0 => fail
  | fuel + 1 => do
    let left ← conjunction fuel depth
    disjuncts fuel depth left

/-- The further operands of `or`. -/
def disjuncts (fuel depth : Nat) (left : Expr) : Reading Expr :=
  match fuel with
  | 0 => fail
  | fuel + 1 => do
    if ← accept (.name "or") then
      let right ← conjunction fuel depth
      disjuncts fuel depth (.logic .or left right)
    else pure left

/-- Operands joined by `and`. -/
def conjunction (fuel depth : Nat) : Reading Expr :=
  match fuel with
  | 0 => fail
  | fuel + 1 => do
    let left ← negation fuel depth
    conjuncts fuel depth left

/-- The further operands of `and`. -/
def conjuncts (fuel depth : Nat) (left : Expr) : Reading Expr :=
  match fuel with
  | 0 => fail
  | fuel + 1 => do
    if ← accept (.name "and") then
      let right ← negation fuel depth
      conjuncts fuel depth (.logic .and left right)
    else pure left

/-- A comparison that may stand after `not`. -/
def negation (fuel depth : Nat) : Reading Expr :=
  match fuel with
  | 0 => fail
  | fuel + 1 => do
    if ← accept (.name "not") then .unary .not <$> negation fuel depth
    else comparison fuel depth

/-- A chain of comparisons. -/
def comparison (fuel depth : Nat) : Reading Expr :=
  match fuel with
  | 0 => fail
  | fuel + 1 => do
    let first ← operation fuel depth operatorLevels
    let steps ← comparisonSteps fuel depth
    pure (if steps.isEmpty then first else .compare first steps)

/-- The steps of a chain of comparisons. -/
def comparisonSteps (fuel depth : Nat) : Reading (List (CompareOp × Expr)) :=
  match fuel with
  | 0 => fail
  | fuel + 1 => do
    match ← comparisonOp? with
    | none => pure []
    | some op =>
      let right ← operation fuel depth operatorLevels
      let rest ← comparisonSteps fuel depth
      pure ((op, right) :: rest)

/-- Operands joined by the operators of the first level or a tighter one. -/
def operation (fuel depth : Nat) (levels : List (List (Mark × BinaryOp))) : Reading Expr :=
  match fuel with
  | 0 => fail
  | fuel + 1 =>
    match levels with
    | [] => filtered fuel depth
    | level :: tighter => do
      let left ← operation fuel depth tighter
      operands fuel depth level tighter left

/-- The further operands of a level. -/
def operands (fuel depth : Nat) (level : List (Mark × BinaryOp))
    (tighter : List (List (Mark × BinaryOp))) (left : Expr) : Reading Expr :=
  match fuel with
  | 0 => fail
  | fuel + 1 => do
    match operatorOf level (← peek) with
    | none => pure left
    | some op =>
      skip
      let right ← operation fuel depth tighter
      operands fuel depth level tighter (.binary op left right)

/-- A postfix expression with the filters and tests that are applied to it. -/
def filtered (fuel depth : Nat) : Reading Expr :=
  match fuel with
  | 0 => fail
  | fuel + 1 => do
    let operand ← reference fuel depth
    filters fuel depth operand

/-- The filters and tests that follow an operand. -/
def filters (fuel depth : Nat) (operand : Expr) : Reading Expr :=
  match fuel with
  | 0 => fail
  | fuel + 1 => do
    if ← accept (.mark .pipe) then
      let filterName ← name
      let args ← argumentsIfAny fuel depth
      filters fuel depth (.filter filterName operand args)
    else if ← accept (.name "is") then
      let negated ← accept (.name "not")
      let testName ← name
      let args ← testArguments fuel depth
      let test := Expr.test testName operand args
      filters fuel depth (if negated then .unary .not test else test)
    else pure operand

/-- The arguments of a test, which may be one expression without parentheses. -/
def testArguments (fuel depth : Nat) : Reading (List (Option String × Expr)) :=
  match fuel with
  | 0 => fail
  | fuel + 1 => do
    if startsTestArgument (← peek) then
      let argument ← reference fuel depth
      pure [(none, argument)]
    else argumentsIfAny fuel depth

/-- Arguments in parentheses, or none. -/
def argumentsIfAny (fuel depth : Nat) : Reading (List (Option String × Expr)) :=
  match fuel with
  | 0 => fail
  | fuel + 1 => do
    if ← accept (.mark .openParen) then arguments fuel depth false false
    else pure []

/-- A signed primary and what follows it. -/
def reference (fuel depth : Nat) : Reading Expr :=
  match fuel with
  | 0 => fail
  | fuel + 1 => do
    let object ← signed fuel depth
    accesses fuel depth object

/-- A primary after any number of minus signs. -/
def signed (fuel depth : Nat) : Reading Expr :=
  match fuel with
  | 0 => fail
  | fuel + 1 => do
    if ← accept (.mark .minus) then .unary .negate <$> signed fuel depth
    else primary fuel depth

/-- Attributes, items, slices and calls that follow an object. -/
def accesses (fuel depth : Nat) (object : Expr) : Reading Expr :=
  match fuel with
  | 0 => fail
  | fuel + 1 => do
    if ← accept (.mark .dot) then
      match ← next with
      | some (.name s) => accesses fuel depth (.attribute object s)
      | some (.integer n) => accesses fuel depth (.item object (.literal (.int n)))
      | _ => fail
    else if ← accept (.mark .openBracket) then
      let access ← subscript fuel depth object
      accesses fuel depth access
    else
      let place := (← get).length
      if ← accept (.mark .openParen) then
        let args ← arguments fuel depth false false
        accesses fuel depth (.call place object args)
      else pure object

/-- An item or a slice, after the opening bracket. -/
def subscript (fuel depth : Nat) (object : Expr) : Reading Expr :=
  match fuel with
  | 0 => fail
  | fuel + 1 => do
    let start ← bound fuel depth [.mark .colon]
    if ← accept (.mark .colon) then
      let stop ← bound fuel depth [.mark .colon, .mark .closeBracket]
      let step ←
        if ← accept (.mark .colon) then bound fuel depth [.mark .closeBracket] else pure none
      expect (.mark .closeBracket)
      pure (.slice object start stop step)
    else
      expect (.mark .closeBracket)
      match start with
      | some key => pure (.item object key)
      | none => fail

/-- A bound of a slice; it is left out if one of the given tokens comes next. -/
def bound (fuel depth : Nat) (endings : List Token) : Reading (Option Expr) :=
  match fuel with
  | 0 => fail
  | fuel + 1 => do
    match ← peek with
    | some token =>
      if endings.contains token then pure none else some <$> expression fuel depth
    | none => fail

/-- Arguments after the opening parenthesis; `started` says that one came before, and `keyword`
that one of those has a name, after which all have. -/
def arguments (fuel depth : Nat) (started keyword : Bool) : Reading (List (Option String × Expr)) :=
  match fuel with
  | 0 => fail
  | fuel + 1 => do
    if ← accept (.mark .closeParen) then pure []
    else
      if started then expect (.mark .comma)
      if ← (if started then accept (.mark .closeParen) else pure false) then pure []
      else
        let argument ← expression fuel depth
        let named ← (match argument with
          | .variable _ => accept (.mark .assign)
          | _ => pure false)
        match named, argument with
        | true, .variable key =>
          let value ← disjunction fuel depth
          let rest ← arguments fuel depth true true
          pure ((some key, value) :: rest)
        | _, _ =>
          if keyword then fail
          else
            let rest ← arguments fuel depth true false
            pure ((none, argument) :: rest)

/-- A literal, a variable, or an expression in brackets; each one is a level of nesting. -/
def primary (fuel depth : Nat) : Reading Expr :=
  match fuel with
  | 0 => fail
  | fuel + 1 => do
    unless depth < maxDepth do fail
    match ← next with
    | some (.name s) => pure (namedValue s)
    | some (.string s) => (.literal ∘ .string) <$> moreStrings s
    | some (.integer n) => pure (.literal (.int n))
    | some (.decimal x) => pure (.literal (.float x))
    | some (.mark .openParen) => group fuel (depth + 1)
    | some (.mark .openBracket) => .list <$> items fuel (depth + 1) .closeBracket false
    | some (.mark .openBrace) => .map <$> entries fuel (depth + 1) false
    | _ => fail

/-- An expression or a list in parentheses, after the opening one. -/
def group (fuel depth : Nat) : Reading Expr :=
  match fuel with
  | 0 => fail
  | fuel + 1 => do
    if ← accept (.mark .closeParen) then pure (.list [])
    else
      let first ← expression fuel depth
      if ← meets (.mark .comma) then
        let rest ← items fuel depth .closeParen true
        pure (.list (first :: rest))
      else
        expect (.mark .closeParen)
        pure first

/-- The items of a list up to its closing bracket; a comma stands between two items and may follow
the last. -/
def items (fuel depth : Nat) (closing : Mark) (started : Bool) : Reading (List Expr) :=
  match fuel with
  | 0 => fail
  | fuel + 1 => do
    if ← accept (.mark closing) then pure []
    else
      if started then expect (.mark .comma)
      if ← (if started then accept (.mark closing) else pure false) then pure []
      else
        let item ← expression fuel depth
        let rest ← items fuel depth closing true
        pure (item :: rest)

/-- The entries of a map up to its closing brace. -/
def entries (fuel depth : Nat) (started : Bool) : Reading (List (Expr × Expr)) :=
  match fuel with
  | 0 => fail
  | fuel + 1 => do
    if ← accept (.mark .closeBrace) then pure []
    else
      if started then expect (.mark .comma)
      if ← (if started then accept (.mark .closeBrace) else pure false) then pure []
      else
        let key ← expression fuel depth
        expect (.mark .colon)
        let value ← expression fuel depth
        let rest ← entries fuel depth true
        pure ((key, value) :: rest)

end

/-- The fuel that suffices for a list of tokens: at most sixteen steps lie between two of them. -/
def fuelFor (tokens : List Token) : Nat :=
  16 * (tokens.length + 2)

end Parser

/-- Reads a text that is one expression. -/
def Expr.read (text : String) : Except Problem Expr := do
  let tokens := tokens text.toList
  let (expr, rest) ← (Parser.expression (Parser.fuelFor tokens) 0).run tokens
  match rest with
  | [] => pure expr
  | .broken problem :: _ => throw problem
  | _ => throw .malformed

end Runsheet.Expression
