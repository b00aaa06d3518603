/-!
# What can be wrong with an expression

The causes for which an expression or a template cannot be read or evaluated, with their names in
messages.  The first two are found while reading, the others while evaluating.  At the last one the
program breaks off and reports no error.
-/

namespace Runsheet.Expression

/-- Why an expression has no value. -/
inductive Problem
  | malformed
  | badEscape
  | invalidOperation
  | undefinedValue
  | unknownFilter
  | unknownTest
  | unknownFunction
  | unknownMethod
  | tooManyArguments
  | missingArgument
  | cannotUnpack
  | badClockFormat
  deriving DecidableEq, Repr

/-- The name of a problem. -/
def Problem.describe : Problem → String
  | .malformed => "syntax error"
  | .badEscape => "bad string escape"
  | .invalidOperation => "invalid operation"
  | .undefinedValue => "undefined value"
  | .unknownFilter => "unknown filter"
  | .unknownTest => "unknown test"
  | .unknownFunction => "unknown function"
  | .unknownMethod => "unknown method"
  | .tooManyArguments => "too many arguments"
  | .missingArgument => "missing argument"
  | .cannotUnpack => "cannot unpack"
  | .badClockFormat => "bad clock format"

/-- The text with which the program breaks off at a problem, if it does. -/
def Problem.crash? : Problem → Option String
  | .badClockFormat => some "a Display implementation returned an error unexpectedly: Error"
  | _ => none

end Runsheet.Expression
