/-!
# Spans of time

A span of time is a number of milliseconds.  Its text is in seconds from one second on, with no
more places than it needs, and in milliseconds below.
-/

namespace Runsheet.Duration

/-- The thousandths of a second behind the point, without closing zeros. -/
def places (thousandths : Nat) : List Char :=
  let digits := (toString (1000 + thousandths)).toList.drop 1
  (digits.reverse.dropWhile (· = '0')).reverse

/-- The text of a span of time. -/
def text (ms : Nat) : String :=
  if ms = 0 then "0ns"
  else if ms < 1000 then toString ms ++ "ms"
  else
    let whole := toString (ms / 1000)
    if ms % 1000 = 0 then whole ++ "s"
    else whole ++ "." ++ String.ofList (places (ms % 1000)) ++ "s"

/-- The text of a limit. -/
def limitText : Option Nat → String
  | none => "None"
  | some ms => "Some(" ++ text ms ++ ")"

end Runsheet.Duration
