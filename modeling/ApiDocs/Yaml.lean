import ApiDocs.Number.Reading
import ApiDocs.Value

/-!
# YAML text

Values are written in block form: a mapping inside a mapping is indented by two blanks, a list is
not indented below its key, and only empty collections use brackets. Most of the module decides
how a string is written: plain where that is unambiguous, as a literal block when it has line
feeds, else in single quotes, and in double quotes with escapes as the last resort.
-/

namespace ApiDocs.Yaml

/-- Large numbers have no sign in their exponent. -/
def floatFormat : FloatFormat := ⟨"e"⟩

/-! ## Texts that read as another type -/

/-- Whether the text is digits with a needless zero in front, after an optional sign. Such a text
is no number. -/
def isZeroPadded (text : List Char) : Bool :=
  match (splitSign text).2 with
  | '0' :: rest => !rest.isEmpty && rest.all Char.isDigit
  | _ => false

/-- The value of a digit in a base up to 16. -/
def digitValue? (base : Nat) (c : Char) : Option Nat :=
  let value :=
    if c.isDigit then c.toNat - '0'.toNat
    else if 'a' ≤ c ∧ c ≤ 'f' then c.toNat - 'a'.toNat + 10
    else if 'A' ≤ c ∧ c ≤ 'F' then c.toNat - 'A'.toNat + 10
    else base
  if value < base then some value else none

/-- The value of a text of one or more digits in a base. -/
def readBase? (base : Nat) (text : List Char) : Option Nat :=
  if text.isEmpty then none
  else text.foldl (fun value c => do return (← value) * base + (← digitValue? base c)) (some 0)

/-- Whether the text is an integer with a base prefix that fits into 128 bits: unsigned, or signed
when it is negative. -/
def isBasedInteger (text : List Char) : Bool :=
  let check (bound : Nat) (rest : List Char) : Bool :=
    match rest with
    | '0' :: 'x' :: digits => (readBase? 16 digits).any (· ≤ bound)
    | '0' :: 'o' :: digits => (readBase? 8 digits).any (· ≤ bound)
    | '0' :: 'b' :: digits => (readBase? 2 digits).any (· ≤ bound)
    | _ => false
  match text with
  | '-' :: rest => check (Nat.pow 2 127) rest
  | '+' :: rest => check (Nat.pow 2 128 - 1) rest
  | rest => check (Nat.pow 2 128 - 1) rest

/-- Whether the text is a finite decimal number. A number written without a point or exponent may
be larger than any finite number as long as it fits into 128 bits, which all such numbers do. -/
def isDecimal (text : List Char) : Bool :=
  let unsigned := match text with
    | '+' :: rest => rest
    | rest => rest
  let signedTwice :=
    text.head? == some '+' && (unsigned.head? == some '+' || unsigned.head? == some '-')
  !signedTwice && !isZeroPadded text &&
    match Binary64.read? unsigned with
    | some (.finite _ _ _) => true
    | _ => false

/-- Texts for an infinity or no number. -/
def specialFloats : List String :=
  [".inf", ".Inf", ".INF", "+.inf", "+.Inf", "+.INF", "-.inf", "-.Inf", "-.INF",
   ".nan", ".NaN", ".NAN"]

/-- Texts for nothing and for the truth values. -/
def reservedWords : List String :=
  ["", "~", "null", "Null", "NULL", "true", "True", "TRUE", "false", "False", "FALSE"]

/-- Whether a plain scalar with this text would be read as something other than a string, or
looks like a number that it is not. -/
def readsAsOther (text : String) : Bool :=
  reservedWords.contains text || specialFloats.contains text || isBasedInteger text.toList
    || isDecimal text.toList || isZeroPadded text.toList

/-! ## Analysis of a string -/

/-- A line break inside a scalar. -/
def isBreak (c : Char) : Bool :=
  c == '\n' || c == '\r' || c == '\u0085' || c == '\u2028' || c == '\u2029'

/-- A character after which an indicator counts: a blank, a break or the end. -/
def isGap : Option Char → Bool
  | none => true
  | some c => c == ' ' || c == '\t' || c == '\x00' || isBreak c

/-- A character that needs no escape. -/
def isPrintable (c : Char) : Bool :=
  c == '\n' || (0x20 ≤ c.toNat && c.toNat ≤ 0x7E)
    || (0xA0 ≤ c.toNat && c.toNat != 0xFEFF && c.toNat != 0xFFFE && c.toNat != 0xFFFF)

/-- Characters that cannot begin a plain scalar. -/
def isIndicator (c : Char) : Bool :=
  "#,[]\x7b\x7d&*!|>'\"%@\x60".toList.contains c

/-- Whether the first character, followed by `next`, keeps the scalar from being plain. -/
def startsIndicated (c : Char) (next : Option Char) : Bool :=
  isIndicator c || ((c == '?' || c == ':' || c == '-') && isGap next)

/-- Whether somewhere after the first character a colon ends a key or a comment begins. -/
def holdsIndicator : Option Char → List Char → Bool
  | _, [] => false
  | before, c :: rest =>
    (c == ':' && isGap rest.head?) || (c == '#' && isGap before) || holdsIndicator (some c) rest

/-- Whether two neighbours satisfy the relation. -/
def hasNeighbours (related : Char → Char → Bool) : List Char → Bool
  | [] => false
  | [_] => false
  | c :: d :: rest => related c d || hasNeighbours related (d :: rest)

/-- Whether the text may stand as a plain scalar. The empty text may. -/
def plainAllowed (text : List Char) : Bool :=
  match text with
  | [] => true
  | c :: rest =>
    !(Text.after? "---".toList text).isSome && !(Text.after? "...".toList text).isSome
      && !startsIndicated c rest.head? && !holdsIndicator (some c) rest
      && text.all isPrintable && !text.any isBreak
      && c != ' ' && text.getLast? != some ' '

/-- Whether the text may stand in single quotes: everything is printable, and no blank touches a
line break. -/
def singleQuotesAllowed (text : List Char) : Bool :=
  text.all isPrintable
    && !hasNeighbours (fun c d => (c == ' ' && isBreak d) || (isBreak c && d == ' ')) text

/-- Whether the text may stand as a literal block: everything is printable, and no line nor the
text ends in a blank. -/
def literalAllowed (text : List Char) : Bool :=
  !text.isEmpty && text.all isPrintable && text.getLast? != some ' '
    && !hasNeighbours (fun c d => c == ' ' && isBreak d) text

/-! ## Scalars -/

/-- The styles of a scalar. -/
inductive Style where
  | plain
  | singleQuoted
  | doubleQuoted
  | literal
deriving DecidableEq

/-- The style of a string. -/
def styleOf (s : String) : Style :=
  let text := s.toList
  if text.contains '\n' then
    if literalAllowed text then .literal else .doubleQuoted
  else if !readsAsOther s && plainAllowed text then .plain
  else if singleQuotesAllowed text then .singleQuoted
  else .doubleQuoted

/-- `width` upper-case hexadecimal digits. -/
def hexDigits (width n : Nat) : List Char :=
  let digits := (Nat.toDigits 16 n).map Char.toUpper
  List.replicate (width - digits.length) '0' ++ digits

/-- The characters that stand for `c` in double quotes. -/
def escape (c : Char) : List Char :=
  if isPrintable c && !isBreak c && c != '"' && c != '\\' then [c]
  else '\\' :: match c with
    | '\x00' => ['0']
    | '\x07' => ['a']
    | '\x08' => ['b']
    | '\t' => ['t']
    | '\n' => ['n']
    | '\x0b' => ['v']
    | '\x0c' => ['f']
    | '\r' => ['r']
    | '\x1b' => ['e']
    | '"' => ['"']
    | '\\' => ['\\']
    | '\u0085' => ['N']
    | '\u2028' => ['L']
    | '\u2029' => ['P']
    | c =>
      if c.toNat ≤ 0xFF then 'x' :: hexDigits 2 c.toNat
      else if c.toNat ≤ 0xFFFF then 'u' :: hexDigits 4 c.toNat
      else 'U' :: hexDigits 8 c.toNat

/-- `n` blanks. -/
def blanks (n : Nat) : List Char := List.replicate n ' '

/-- Text with line breaks, each line that is not empty indented; `fresh` says that a line has just
begun. Quotes are doubled when asked for. -/
def brokenLines (indent : Nat) (doubleQuotes : Bool) : Bool → List Char → List Char
  | _, [] => []
  | fresh, c :: rest =>
    if isBreak c then c :: brokenLines indent doubleQuotes true rest
    else
      (if fresh then blanks indent else []) ++ (if doubleQuotes && c == '\x27' then [c, c] else [c])
        ++ brokenLines indent doubleQuotes false rest

/-- The indentation hint of a literal block, needed when its text begins with white space. -/
def indentHint : List Char → List Char
  | c :: _ => if c == ' ' || isBreak c then ['2'] else []
  | [] => []

/-- Says what becomes of the line breaks at the end of a literal block: none is there, one is kept,
or all are kept. -/
def chompHint (text : List Char) : List Char :=
  match text.reverse with
  | [] => ['-']
  | last :: before =>
    if !isBreak last then ['-']
    else match before with
      | [] => ['+']
      | c :: _ => if isBreak c then ['+'] else []

/-- A string as a scalar; the lines of its text, if it has several, are indented. -/
def scalar (indent : Nat) (s : String) : List Char :=
  let text := s.toList
  match styleOf s with
  | .plain => text
  | .singleQuoted =>
    let body := brokenLines indent true false text
    let closing := if text.getLast?.any isBreak then blanks indent else []
    '\x27' :: body ++ closing ++ ['\x27']
  | .doubleQuoted => '"' :: text.flatMap escape ++ ['"']
  | .literal =>
    '|' :: indentHint text ++ chompHint text ++ '\n' :: brokenLines indent false true text

/-- Whether a string can be written before a colon on one line. -/
def isSimpleKey (s : String) : Bool := !s.toList.any isBreak && s.utf8ByteSize ≤ 128

/-! ## Collections -/

/-- Where a value begins: after the colon of a key, or after an indicator on the same line, where
a block may start at once. -/
inductive Spot where
  | afterKey
  | inline

/-- The beginning of a line after the text so far; a literal block may have ended its last line
itself. -/
def startLine (indent : Nat) (soFar : List Char) : List Char :=
  (if soFar.getLast?.any isBreak then [] else ['\n']) ++ blanks indent

mutual

/-- What follows the key or indicator of a value inside a collection of the given indentation. -/
def chars (indent : Nat) (spot : Spot) : Value → List Char
  | .null => " null".toList
  | .text s => ' ' :: scalar (indent + 2) s
  | .flag b => ' ' :: if b then "true".toList else "false".toList
  | .number n => ' ' :: (n.write floatFormat).toList
  | .list [] => " []".toList
  | .list (item :: items) =>
    match spot with
    | .afterKey => startLine indent [] ++ itemChars indent (item :: items)
    | .inline => ' ' :: itemChars (indent + 2) (item :: items)
  | .record [] => " \x7b\x7d".toList
  | .record (field :: fields) =>
    match spot with
    | .afterKey => startLine (indent + 2) [] ++ fieldChars (indent + 2) (field :: fields)
    | .inline => ' ' :: fieldChars (indent + 2) (field :: fields)

/-- The items of a list, one a line. -/
def itemChars (indent : Nat) : List Value → List Char
  | [] => []
  | item :: items =>
    let line := '-' :: chars indent .inline item
    match items with
    | [] => line
    | _ :: _ => line ++ startLine indent line ++ itemChars indent items

/-- The fields of a mapping. A key that does not fit before a colon is marked and written first. -/
def fieldChars (indent : Nat) : List (String × Value) → List Char
  | [] => []
  | (key, value) :: fields =>
    let line :=
      if isSimpleKey key then scalar (indent + 2) key ++ ':' :: chars indent .afterKey value
      else
        let marked := '?' :: ' ' :: scalar (indent + 2) key
        marked ++ startLine indent marked ++ ':' :: chars indent .inline value
    match fields with
    | [] => line
    | _ :: _ => line ++ startLine indent line ++ fieldChars indent fields

end

/-- The YAML text of a record. -/
def write (fields : List (String × Value)) : String :=
  let text := fieldChars 0 fields
  .ofList (text ++ startLine 0 text)

end ApiDocs.Yaml
