/-!
# What has no data value

The causes for which a value of an expression or of a document cannot be turned into a data value.
-/

namespace Runsheet.Json

/-- Why there is no data value. -/
inductive Problem
  | numberOutOfRange
  | keyNotText
  | keyNotFinite
  deriving DecidableEq, Repr

/-- The text of a problem. -/
def Problem.describe : Problem → String
  | .numberOutOfRange => "number out of range"
  | .keyNotText => "key must be a string"
  | .keyNotFinite => "float key must be finite"

end Runsheet.Json
