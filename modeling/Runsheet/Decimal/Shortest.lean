import Runsheet.Decimal.Binary64

/-!
# Shortest decimal digits

The fewest decimal digits that read back as a given floating-point number, and of those the
nearest.  The reals that round to `m · 2 ^ q` form an interval around it; for one digit, two
digits, and so on, the two neighbours of the number on that decimal grid are tried, and the first
grid with a neighbour inside the interval wins.
-/

namespace Runsheet.Decimal

/-- Digits `d₁ d₂ … dₙ` and a place: the value is `0.d₁d₂…dₙ · 10 ^ place`. -/
structure Digits where
  digits : List Char
  place : Int
  deriving DecidableEq, Repr

/-- A positive rational number `num / den`. -/
structure Ratio where
  num : Nat
  den : Nat

/-- Is the power `10 ^ e` at most the number? -/
def Ratio.reaches (r : Ratio) (e : Int) : Bool :=
  if 0 ≤ e then r.den * Nat.pow 10 e.toNat ≤ r.num else r.den ≤ r.num * Nat.pow 10 (-e).toNat

/-- The exponent of the greatest power of ten that is at most `r`, from an estimate that is off by
one at most. -/
def Ratio.magnitude (r : Ratio) (estimate : Int) : Int :=
  if r.reaches (estimate + 1) then estimate + 1
  else if r.reaches estimate then estimate
  else estimate - 1

/-- The number times `10 ^ (-e)`, rounded down, and whether nothing was lost. -/
def Ratio.scaleDown (r : Ratio) (e : Int) : Nat × Bool :=
  let num := if 0 ≤ e then r.num else r.num * Nat.pow 10 (-e).toNat
  let den := if 0 ≤ e then r.den * Nat.pow 10 e.toNat else r.den
  (num / den, num % den == 0)

/-- Compares a number with `n · 10 ^ e`. -/
def Ratio.compareGrid (r : Ratio) (n : Nat) (e : Int) : Ordering :=
  if 0 ≤ e then compare r.num (n * Nat.pow 10 e.toNat * r.den)
  else compare (r.num * Nat.pow 10 (-e).toNat) (n * r.den)

/-- The interval of the reals that round to a floating-point number. -/
structure Interval where
  lower : Ratio
  upper : Ratio
  closed : Bool

/-- Does the grid point `n · 10 ^ e` lie in the interval? -/
def Interval.holds (i : Interval) (n : Nat) (e : Int) : Bool :=
  match i.lower.compareGrid n e, i.upper.compareGrid n e with
  | .lt, .gt => true
  | .eq, _ => i.closed
  | _, .eq => i.closed
  | _, _ => false

/-- The value `m · 2 ^ q` in quarters of its last place, as a rational number. -/
def quarters (m : Nat) (q : Int) : Ratio :=
  if 2 ≤ q then ⟨m * Nat.pow 2 (q - 2).toNat, 1⟩ else ⟨m, Nat.pow 2 (2 - q).toNat⟩

/-- The interval around a positive number; below a power of two the neighbours are half as far. -/
def intervalOf (x : Binary64) : Interval :=
  let m := x.mantissa
  let narrow := x.mantissaField == 0 && 1 < x.exponentField
  { lower := quarters (if narrow then 4 * m - 1 else 4 * m - 2) x.exponent
    upper := quarters (4 * m + 2) x.exponent
    closed := m % 2 == 0 }

/-- The neighbour of the value on the grid of step `10 ^ e` that lies in the interval; of two the
nearer, and of two equally near the even one. -/
def gridPoint? (value : Ratio) (i : Interval) (e : Int) : Option Nat :=
  let below := (value.scaleDown e).1
  match i.holds below e, i.holds (below + 1) e with
  | true, false => some below
  | false, true => some (below + 1)
  | false, false => none
  | true, true =>
    let doubled : Ratio := ⟨2 * value.num, value.den⟩
    match doubled.compareGrid (2 * below + 1) e with
    | .lt => some below
    | .gt => some (below + 1)
    | .eq => some (if below % 2 = 0 then below else below + 1)

/-- Tries the grids from the coarsest on; `count` grids are left. -/
def searchGrid (value : Ratio) (i : Interval) (e : Int) : Nat → Nat × Int
  | 0 => ((value.scaleDown e).1, e)
  | count + 1 =>
    match gridPoint? value i e with
    | some n => (n, e)
    | none => searchGrid value i (e - 1) count

/-- A number without the zeros at its end, and how many there were; `fuel` bounds their number. -/
def dropZeros (fuel : Nat) (n : Nat) (e : Int) : Nat × Int :=
  match fuel with
  | 0 => (n, e)
  | fuel + 1 => if n % 10 = 0 && n != 0 then dropZeros fuel (n / 10) (e + 1) else (n, e)

/-- The shortest digits of the magnitude of a finite number that is not zero. -/
def shortest (x : Binary64) : Digits :=
  let m := x.mantissa
  let value := quarters (4 * m) x.exponent
  let estimate := ((Nat.log2 m : Int) + x.exponent) * 30103 / 100000
  let found := searchGrid value (intervalOf x) (value.magnitude estimate) 17
  let trimmed := dropZeros 20 found.1 found.2
  let digits := Nat.toDigits 10 trimmed.1
  { digits, place := trimmed.2 + digits.length }

end Runsheet.Decimal
