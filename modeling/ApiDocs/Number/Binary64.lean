/-!
# Double-precision numbers

Bounds and enumeration values are read as double-precision numbers. They are kept here exactly, as
a sign, a mantissa and a power of two, so that reading, adding one, comparing and printing are
integer arithmetic. `Binary64.round` is the only place where precision is lost: it gives the
nearest representable number, and of two equally near ones that with the even mantissa.
-/

namespace ApiDocs

/-- A double-precision number. A finite one has the value `mantissa * 2 ^ exponent`, negated when
`negative`; zero has a sign too. -/
inductive Binary64 where
  | nan
  | infinite (negative : Bool)
  | finite (negative : Bool) (mantissa : Nat) (exponent : Int)
deriving DecidableEq, Inhabited

namespace Binary64

/-- The exponent of the smallest positive number. -/
def leastExponent : Int := -1074

/-- The largest exponent of a finite number. -/
def greatestExponent : Int := 971

/-- Mantissas are below this. -/
def mantissaBound : Nat := Nat.pow 2 53

/-- Zero with the given sign. -/
def zero (negative : Bool) : Binary64 := .finite negative 0 leastExponent

/-- The quotient and remainder of `num / (den * 2 ^ exponent)`, with the divisor used. -/
def scaled (num den : Nat) (exponent : Int) : Nat × Nat × Nat :=
  let up := num * Nat.pow 2 (-exponent).toNat
  let down := den * Nat.pow 2 exponent.toNat
  (up / down, up % down, down)

/-- The exponent at which `num / den` has 53 binary digits, or the least exponent if that is
larger. -/
def exponentOf (num den : Nat) : Int :=
  let low := max leastExponent ((num.log2 : Int) - den.log2 - 53)
  if (scaled num den low).1 ≥ mantissaBound then low + 1 else low

/-- The number nearest to `num / den`; a tie goes to the even mantissa. -/
def round (negative : Bool) (num den : Nat) : Binary64 :=
  if num = 0 then zero negative
  else
    let exponent := exponentOf num den
    let (quotient, remainder, divisor) := scaled num den exponent
    let up := 2 * remainder > divisor || (2 * remainder == divisor && quotient % 2 == 1)
    let mantissa := if up then quotient + 1 else quotient
    let (mantissa, exponent) :=
      if mantissa ≥ mantissaBound then (mantissa / 2, exponent + 1) else (mantissa, exponent)
    if exponent > greatestExponent then .infinite negative else .finite negative mantissa exponent

/-- A finite number's value as numerator and denominator. -/
def fraction (negative : Bool) (mantissa : Nat) (exponent : Int) : Int × Nat :=
  let magnitude : Int := (mantissa * Nat.pow 2 exponent.toNat : Nat)
  (if negative then -magnitude else magnitude, Nat.pow 2 (-exponent).toNat)

/-- The nearest number to the sum with an integer other than zero. -/
def addInt (x : Binary64) (n : Int) : Binary64 :=
  match x with
  | .finite negative mantissa exponent =>
    let (num, den) := fraction negative mantissa exponent
    let sum := num + n * den
    round (sum < 0) sum.natAbs den
  | other => other

/-- Whether the number is an integer. -/
def isIntegral : Binary64 → Bool
  | .finite _ mantissa exponent => mantissa % Nat.pow 2 (-exponent).toNat == 0
  | _ => false

/-- The integer part, cut toward zero; nothing for an infinity or no number. -/
def truncate? : Binary64 → Option Int
  | .finite negative mantissa exponent =>
    let magnitude : Int := (mantissa * Nat.pow 2 exponent.toNat / Nat.pow 2 (-exponent).toNat : Nat)
    some (if negative then -magnitude else magnitude)
  | _ => none

/-- The smallest and largest 64-bit integers. -/
def int64Range : Int × Int := (-(Int.pow 2 63), Int.pow 2 63 - 1)

/-- How many things a bound asks for: the number cut to a 64-bit integer, and zero for what is
negative or no number. -/
def toCount : Binary64 → Int
  | .nan => 0
  | .infinite negative => if negative then 0 else int64Range.2
  | .finite true _ _ => 0
  | .finite false mantissa exponent =>
    min int64Range.2 (mantissa * Nat.pow 2 exponent.toNat / Nat.pow 2 (-exponent).toNat : Nat)

/-- The 64 bits of the interchange format: sign, biased exponent, fraction. -/
def toBits : Binary64 → Nat
  | .nan => 0x7FF8000000000000
  | .infinite negative => (if negative then Nat.pow 2 63 else 0) + 0x7FF0000000000000
  | .finite negative mantissa exponent =>
    let biased := if mantissa < Nat.pow 2 52 then 0 else (exponent - leastExponent).toNat + 1
    (if negative then Nat.pow 2 63 else 0) + biased * Nat.pow 2 52 + mantissa % Nat.pow 2 52

end Binary64

end ApiDocs
