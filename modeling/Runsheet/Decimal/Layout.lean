import Runsheet.Decimal.Shortest

/-!
# Layouts of decimal numbers

How the shortest digits of a floating-point number are set out.  Two layouts are in use: the plain
one, which never has an exponent, and the one of data formats, which has an exponent for very
large and very small numbers.  Both mark a whole number by `.0`.
-/

namespace Runsheet.Decimal

/-- `n` zeros. -/
def zeros (n : Nat) : List Char :=
  List.replicate n '0'

/-- The digits with a point and no exponent. -/
def positional (d : Digits) : List Char :=
  let n := d.digits.length
  if d.place ≤ 0 then ['0', '.'] ++ zeros (-d.place).toNat ++ d.digits
  else
    let k := d.place.toNat
    if n ≤ k then d.digits ++ zeros (k - n) ++ ['.', '0']
    else d.digits.take k ++ ['.'] ++ d.digits.drop k

/-- One digit before the point and an exponent. -/
def scientific (d : Digits) : List Char :=
  let exponent := d.place - 1
  let tail := 'e' :: (toString exponent).toList
  match d.digits with
  | [] => '0' :: tail
  | [c] => c :: tail
  | c :: cs => c :: '.' :: cs ++ tail

/-- What a layout decides: where numbers are written without an exponent, and the texts of the
values that have no digits. -/
structure Layout where
  positionalFrom : Option Int
  positionalTo : Option Int
  infinity : String
  negativeInfinity : String
  notANumber : String

/-- Values in expressions are shown without an exponent. -/
def Layout.plain : Layout :=
  { positionalFrom := none, positionalTo := none, infinity := "inf", negativeInfinity := "-inf",
    notANumber := "NaN" }

/-- Data formats use an exponent below a hundred-thousandth and from ten to the sixteenth on. -/
def Layout.data : Layout :=
  { positionalFrom := some (-4), positionalTo := some 16, infinity := ".inf",
    negativeInfinity := "-.inf", notANumber := ".nan" }

/-- Is a number with its digits at this place written without an exponent? -/
def Layout.isPositional (l : Layout) (place : Int) : Bool :=
  l.positionalFrom.all (· ≤ place) && l.positionalTo.all (place ≤ ·)

/-- The text of a floating-point number. -/
def Layout.render (l : Layout) (x : Binary64) : String :=
  if x.isNaN then l.notANumber
  else if x.isInfinite then if x.negative then l.negativeInfinity else l.infinity
  else
    let magnitude :=
      if x.mantissa = 0 then ['0', '.', '0']
      else
        let d := shortest x
        if l.isPositional d.place then positional d else scientific d
    String.ofList (if x.negative then '-' :: magnitude else magnitude)

end Runsheet.Decimal
