/-!
# Binary floating-point numbers

Numbers of the binary format with 64 bits, kept as their bits so that equality of the values that
hold them can be decided.  A finite number is `mantissa · 2 ^ exponent` up to its sign; the exact
operations here (truncation, remainder, comparison with an integer) work on that form, and the
rounding ones are those of `Float`.
-/

namespace Runsheet

/-- A floating-point number, by its bits. -/
structure Binary64 where
  bits : UInt64
  deriving DecidableEq, Repr, Inhabited

namespace Binary64

/-- The number that the machine's arithmetic works on. -/
def toFloat (x : Binary64) : Float :=
  Float.ofBits x.bits

/-- A result of the machine's arithmetic. -/
def ofFloat (x : Float) : Binary64 :=
  ⟨x.toBits⟩

/-- The sign bit. -/
def negative (x : Binary64) : Bool :=
  x.bits.toNat / Nat.pow 2 63 == 1

/-- The eleven bits of the exponent. -/
def exponentField (x : Binary64) : Nat :=
  x.bits.toNat / Nat.pow 2 52 % Nat.pow 2 11

/-- The fifty-two stored bits of the mantissa. -/
def mantissaField (x : Binary64) : Nat :=
  x.bits.toNat % Nat.pow 2 52

def isNaN (x : Binary64) : Bool :=
  x.exponentField == 2047 && x.mantissaField != 0

def isInfinite (x : Binary64) : Bool :=
  x.exponentField == 2047 && x.mantissaField == 0

def isFinite (x : Binary64) : Bool :=
  x.exponentField != 2047

/-- The mantissa of a finite number as an integer. -/
def mantissa (x : Binary64) : Nat :=
  if x.exponentField = 0 then x.mantissaField else x.mantissaField + Nat.pow 2 52

/-- The power of two that the mantissa is multiplied by. -/
def exponent (x : Binary64) : Int :=
  if x.exponentField = 0 then -1074 else (x.exponentField : Int) - 1075

def isZero (x : Binary64) : Bool :=
  x.isFinite && x.mantissa == 0

/-- The nearest number to an integer. -/
def ofInt (n : Int) : Binary64 :=
  if n < 0 then ofFloat (-(Float.ofNat n.natAbs)) else ofFloat (Float.ofNat n.natAbs)

/-- The number `m · 2 ^ q` with a sign, for results that need no rounding. -/
def ofScaled (sign : Bool) (m : Nat) (q : Int) : Binary64 :=
  let magnitude := (Float.ofNat m).scaleB q
  ofFloat (if sign then -magnitude else magnitude)

/-- The integer part, toward zero; not a finite number: none. -/
def truncate? (x : Binary64) : Option Int :=
  if x.isFinite then
    let magnitude :=
      if 0 ≤ x.exponent then x.mantissa * Nat.pow 2 x.exponent.toNat
      else x.mantissa / Nat.pow 2 (-x.exponent).toNat
    some (if x.negative then -(magnitude : Int) else magnitude)
  else none

/-- The integer that a number is equal to, if there is one. -/
def toInt? (x : Binary64) : Option Int :=
  let whole := 0 ≤ x.exponent || x.mantissa % Nat.pow 2 (-x.exponent).toNat == 0
  if whole then x.truncate? else none

/-- Compares a finite number with an integer by value. -/
def compareInt (x : Binary64) (n : Int) : Ordering :=
  let signed : Int := if x.negative then -(x.mantissa : Int) else x.mantissa
  if 0 ≤ x.exponent then compare (signed * Int.pow 2 x.exponent.toNat) n
  else compare signed (n * Int.pow 2 (-x.exponent).toNat)

/-- A number's place in the order of all numbers: what is not a number comes first, and the
negative zero comes before the positive one. -/
def rank (x : Binary64) : Int :=
  if x.isNaN then -(Int.pow 2 64)
  else
    let magnitude : Int := x.bits.toNat % Int.pow 2 63
    if x.negative then -magnitude - 1 else magnitude

/-- The number that is not a number. -/
def nan : Binary64 :=
  ⟨0x7FF8000000000000⟩

/-- The remainder of the division that rounds toward zero; it has the sign of the dividend. -/
def remainder (a b : Binary64) : Binary64 :=
  if a.isNaN || b.isNaN || a.isInfinite || b.isZero then nan
  else if b.isInfinite then a
  else
    let q := min a.exponent b.exponent
    let m := a.mantissa * Nat.pow 2 (a.exponent - q).toNat
    let n := b.mantissa * Nat.pow 2 (b.exponent - q).toNat
    ofScaled a.negative (m % n) q

/-- The integer part of a number as a number. -/
def whole (x : Float) : Float :=
  if x < 0 then x.ceil else x.floor

/-- The quotient of the division whose remainder is never negative. -/
def divEuclid (a b : Binary64) : Binary64 :=
  let q := whole (a.toFloat / b.toFloat)
  if (remainder a b).toFloat < 0 then ofFloat (if b.toFloat > 0 then q - 1 else q + 1)
  else ofFloat q

/-- A power with a natural exponent, by squaring from the lowest bit on; `fuel` bounds the number
of bits. -/
def powNatFrom (fuel : Nat) (base result : Float) (n : Nat) : Float :=
  match fuel with
  | 0 => result
  | fuel + 1 =>
    let result := if n % 2 = 1 then result * base else result
    if n / 2 = 0 then result else powNatFrom fuel (base * base) result (n / 2)

/-- A power with an integer exponent; a negative one gives the reciprocal. -/
def powInt (base : Float) (n : Int) : Float :=
  let magnitude := powNatFrom 64 base 1 n.natAbs
  if n < 0 then 1 / magnitude else magnitude

end Binary64

end Runsheet
