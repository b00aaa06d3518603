import Runsheet.Decimal.Binary64

/-!
# Reading numbers

Digits in a base, and the decimal notation of floating-point numbers: digits with at most one
point among them and an optional exponent, or the names of the values without digits.
-/

namespace Runsheet.Decimal

/-- The value of a digit in bases up to thirty-six; either case of the letters. -/
def digitValue? (c : Char) : Option Nat :=
  let n := c.toNat
  if 48 ≤ n && n ≤ 57 then some (n - 48)
  else if 97 ≤ n && n ≤ 122 then some (n - 87)
  else if 65 ≤ n && n ≤ 90 then some (n - 55)
  else none

/-- Reads further digits after a number. -/
def digitsFrom? (base : Nat) : Nat → List Char → Option Nat
  | n, [] => some n
  | n, c :: cs => do
    let d ← digitValue? c
    if d < base then digitsFrom? base (n * base + d) cs else none

/-- The number written by a text of one or more digits. -/
def natural? (base : Nat) : List Char → Option Nat
  | [] => none
  | cs => digitsFrom? base 0 cs

/-- A number with an optional sign of either kind. -/
def integer? (base : Nat) : List Char → Option Int
  | '+' :: cs => (natural? base cs).map Int.ofNat
  | '-' :: cs => (natural? base cs).map fun n => -(Int.ofNat n)
  | cs => (natural? base cs).map Int.ofNat

/-- The nearest floating-point number to `m · 10 ^ e`.  Exponents far outside the range are
answered without the power. -/
def nearest (m : Nat) (e : Int) : Float :=
  let size := (Nat.toDigits 10 m).length
  if m = 0 then 0
  else if 400 < size + e then 1 / 0
  else if size + e < -400 then 0
  else if 0 ≤ e then Float.ofScientific m false e.toNat
  else Float.ofScientific m true (-e).toNat

/-- The exponent part: nothing, or a letter and a signed number. -/
def exponent? : List Char → Option Int
  | [] => some 0
  | c :: cs => if c = 'e' || c = 'E' then integer? 10 cs else none

/-- A number without a sign. -/
def unsigned? (cs : List Char) : Option Float :=
  let name := cs.map Char.toLower
  if name = "inf".toList || name = "infinity".toList then some (1 / 0)
  else if name = "nan".toList then some (0 / 0)
  else
    let whole := cs.takeWhile Char.isDigit
    let rest := cs.dropWhile Char.isDigit
    let fraction := match rest with
      | '.' :: more => more.takeWhile Char.isDigit
      | _ => []
    let tail := match rest with
      | '.' :: more => more.dropWhile Char.isDigit
      | _ => rest
    if whole.isEmpty && fraction.isEmpty then none
    else do
      let e ← exponent? tail
      let m ← natural? 10 (whole ++ fraction)
      some (nearest m (e - fraction.length))

/-- The floating-point number written by a text with an optional sign. -/
def float? : List Char → Option Binary64
  | '+' :: cs => (unsigned? cs).map Binary64.ofFloat
  | '-' :: cs => (unsigned? cs).map fun x => Binary64.ofFloat (-x)
  | cs => (unsigned? cs).map Binary64.ofFloat

end Runsheet.Decimal
