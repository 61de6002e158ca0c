import ApiDocs.Number.Binary64
import ApiDocs.Text.Split

/-!
# Reading numbers

Decimal text becomes a double-precision number (`Binary64.read?`) or an integer (`readInt64?`,
`readUInt16?`). Only ASCII digits count, no blanks are skipped, and there are no digit separators.
-/

namespace ApiDocs

/-- The value of a list of ASCII digits. -/
def digitsValue (digits : List Char) : Nat :=
  digits.foldl (fun value c => value * 10 + (c.toNat - '0'.toNat)) 0

/-- The value of a text of one or more ASCII digits. -/
def readDigits? (text : List Char) : Option Nat :=
  if !text.isEmpty && text.all Char.isDigit then some (digitsValue text) else none

/-- A sign, if the text begins with one, and the rest: `true` for minus. -/
def splitSign : List Char → Bool × List Char
  | '-' :: rest => (true, rest)
  | '+' :: rest => (false, rest)
  | rest => (false, rest)

/-- A 64-bit signed integer in decimal. -/
def readInt64? (text : List Char) : Option Int := do
  let (negative, digits) := splitSign text
  let magnitude ← readDigits? digits
  let value : Int := if negative then -magnitude else magnitude
  if Binary64.int64Range.1 ≤ value ∧ value ≤ Binary64.int64Range.2 then some value else none

/-- A 16-bit unsigned integer in decimal; a plus sign is allowed. -/
def readUInt16? (text : List Char) : Option Nat := do
  let digits := match text with
    | '+' :: rest => rest
    | rest => rest
  let value ← readDigits? digits
  if value < Nat.pow 2 16 then some value else none

namespace Binary64

/-- The number nearest to `significand * 10 ^ scale`. Where the power of ten alone decides, it is
not computed. -/
def ofDecimal (negative : Bool) (significand : Nat) (scale : Int) : Binary64 :=
  let digits : Int := (Nat.toDigits 10 significand).length
  if significand = 0 then zero negative
  else if digits + scale > 400 then .infinite negative
  else if digits + scale < -400 then zero negative
  else round negative (significand * Nat.pow 10 scale.toNat) (Nat.pow 10 (-scale).toNat)

/-- An exponent part: nothing, or `e` with an optionally signed integer. -/
def readExponent? : List Char → Option Int
  | [] => some 0
  | mark :: rest => do
    guard (mark == 'e' || mark == 'E')
    let (negative, digits) := splitSign rest
    let magnitude ← readDigits? digits
    return if negative then -magnitude else magnitude

/-- Digits with at most one point between, before or after them, and an exponent. -/
def readDecimal? (negative : Bool) (text : List Char) : Option Binary64 := do
  let whole := text.takeWhile Char.isDigit
  let (part, rest) := match text.dropWhile Char.isDigit with
    | '.' :: rest => (rest.takeWhile Char.isDigit, rest.dropWhile Char.isDigit)
    | rest => ([], rest)
  guard (!(whole ++ part).isEmpty)
  let exponent ← readExponent? rest
  return ofDecimal negative (digitsValue (whole ++ part)) (exponent - part.length)

/-- A number in decimal notation, an infinity (`inf`, `infinity`) or no number (`nan`), the words
in any case and each with an optional sign. -/
def read? (text : List Char) : Option Binary64 :=
  let (negative, rest) := splitSign text
  let word := rest.map Char.toLower
  if word = "inf".toList ∨ word = "infinity".toList then some (.infinite negative)
  else if word = "nan".toList then some .nan
  else readDecimal? negative rest

end Binary64

end ApiDocs
