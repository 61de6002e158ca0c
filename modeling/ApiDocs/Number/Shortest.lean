import ApiDocs.Number.Binary64

/-!
# The shortest decimal of a number

`Binary64.shortest` gives the fewest decimal digits that read back as the same number, and of
several such texts the nearest one. It walks the decimal grids of 1, 2, … 17 digits and tests the
two grid points around the value against the interval of reals that round to it, in exact integer
arithmetic.
-/

namespace ApiDocs

/-- A positive decimal `0.d₁d₂… * 10 ^ point`: its digits, without zeros at the end, and the place
of the point. -/
structure DecimalDigits where
  digits : List Char
  point : Int
deriving DecidableEq, Inhabited

/-- How a number format writes floating-point numbers: the text between the digits and a
positive exponent. -/
structure FloatFormat where
  positiveExponent : String

/-- Numbers from `10 ^ -5` up to `10 ^ 16` are written with a point, others with one digit before
the point and an exponent. -/
def DecimalDigits.write (format : FloatFormat) (d : DecimalDigits) : String :=
  if 0 < d.point ∧ d.point ≤ 16 then
    let whole := d.digits.take d.point.toNat
    let zeros := List.replicate (d.point.toNat - whole.length) '0'
    let part := d.digits.drop d.point.toNat
    .ofList (whole ++ zeros ++ '.' :: (if part.isEmpty then ['0'] else part))
  else if -5 < d.point ∧ d.point ≤ 0 then
    .ofList ('0' :: '.' :: List.replicate (-d.point).toNat '0' ++ d.digits)
  else
    let exponent := d.point - 1
    let head := match d.digits with
      | [] => ['0']
      | [digit] => [digit]
      | digit :: rest => digit :: '.' :: rest
    let mark := if exponent < 0 then "e-" else format.positiveExponent
    String.ofList head ++ mark ++ toString exponent.natAbs

namespace Binary64

/-- The reals that round to a positive number, as numerators over one denominator, with the value
itself and whether the ends belong to it. -/
structure Interval where
  low : Nat
  value : Nat
  high : Nat
  den : Nat
  closed : Bool

/-- The interval of the number `mantissa * 2 ^ exponent`. Below a power of two the next number is
only half as far away. -/
def interval (mantissa : Nat) (exponent : Int) : Interval :=
  let up := Nat.pow 2 exponent.toNat
  let below := if mantissa = Nat.pow 2 52 ∧ exponent > leastExponent then 1 else 2
  { low := (4 * mantissa - below) * up
    value := 4 * mantissa * up
    high := (4 * mantissa + 2) * up
    den := 4 * Nat.pow 2 (-exponent).toNat
    closed := mantissa % 2 == 0 }

/-- Whether `point * 10 ^ scale` lies in the interval. -/
def Interval.holds (i : Interval) (scale : Int) (point : Nat) : Bool :=
  let x := point * Nat.pow 10 scale.toNat * i.den
  let unit := Nat.pow 10 (-scale).toNat
  if i.closed then i.low * unit ≤ x && x ≤ i.high * unit
  else i.low * unit < x && x < i.high * unit

/-- The place of the point of the value: the least `n` with `value < 10 ^ n`, searched downward
from a bound. -/
def Interval.place (i : Interval) : Nat → Int → Int
  | 0, n => n
  | fuel + 1, n =>
    let lower := n - 1
    if i.value * Nat.pow 10 (-lower).toNat < Nat.pow 10 lower.toNat * i.den then
      i.place fuel lower
    else n

/-- The nearest point of a grid that lies in the interval; a tie goes to the even one. -/
def Interval.gridPoint? (i : Interval) (scale : Int) : Option Nat :=
  let num := i.value * Nat.pow 10 (-scale).toNat
  let unit := Nat.pow 10 scale.toNat * i.den
  let floor := num / unit
  let twice := 2 * (num % unit)
  let nearFirst :=
    if twice < unit || (twice == unit && floor % 2 == 0) then [floor, floor + 1]
    else [floor + 1, floor]
  nearFirst.find? (i.holds scale)

/-- Drops zeros from the end. -/
def dropZeros (digits : List Char) : List Char := (digits.reverse.dropWhile (· == '0')).reverse

/-- The first grid, from `count` digits on, with a point in the interval. -/
def Interval.firstGrid (i : Interval) (place : Int) : Nat → Nat → DecimalDigits
  | 0, _ => ⟨[], place⟩
  | fuel + 1, count =>
    match i.gridPoint? (place - count) with
    | some point =>
      let digits := Nat.toDigits 10 point
      ⟨dropZeros digits, place - count + digits.length⟩
    | none => i.firstGrid place fuel (count + 1)

/-- The shortest decimal of the positive number `mantissa * 2 ^ exponent`. -/
def shortest (mantissa : Nat) (exponent : Int) : DecimalDigits :=
  let i := interval mantissa exponent
  i.firstGrid (i.place 700 330) 18 1

/-- The text of a finite number. -/
def write (format : FloatFormat) : Binary64 → String
  | .finite negative mantissa exponent =>
    let magnitude :=
      if mantissa = 0 then "0.0" else (shortest mantissa exponent).write format
    if negative then "-" ++ magnitude else magnitude
  | .infinite negative => if negative then "-inf" else "inf"
  | .nan => "nan"

end Binary64

end ApiDocs
