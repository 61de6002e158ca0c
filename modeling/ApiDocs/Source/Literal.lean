import ApiDocs.Source.Token
import ApiDocs.Text.Class

/-!
# Literals

A literal is found by its length: each scanner tells how many characters at the start of a text
belong to it. The values of text literals are read from the characters between the quotes.
-/

namespace ApiDocs.Source

open Text

/-! ## Words and digits -/

/-- The length of an identifier that is not raw. -/
def wordLength? : List Char → Option Nat
  | c :: rest => if isIdentStart c then some (1 + (rest.takeWhile isIdentContinue).length) else none
  | [] => none

/-- The length of the suffix that a literal may have. -/
def suffixLength (text : List Char) : Nat := (wordLength? text).getD 0

/-- The value of a hexadecimal digit. -/
def hexValue? (c : Char) : Option Nat :=
  if c.isDigit then some (c.toNat - '0'.toNat)
  else if 'a' ≤ c && c ≤ 'f' then some (c.toNat - 'a'.toNat + 10)
  else if 'A' ≤ c && c ≤ 'F' then some (c.toNat - 'A'.toNat + 10)
  else none

/-! ## Escapes -/

/-- The digits of a braced code point up to the closing brace: value, digits so far, and how many
characters were read. -/
def bracedCode? (value count read : Nat) : List Char → Option (Nat × Nat)
  | [] => none
  | c :: rest =>
    match hexValue? c with
    | some digit =>
      if count = 6 then none else bracedCode? (value * 16 + digit) (count + 1) (read + 1) rest
    | none =>
      if count = 0 then none
      else if c = '_' then bracedCode? value count (read + 1) rest
      else if c = '\x7d' then some (value, read + 1)
      else none

/-- The character of `\u{...}` after the `u`, with the length of the rest of the escape. -/
def codeEscape? : List Char → Option (Char × Nat)
  | '\x7b' :: rest => do
    let (value, length) ← bracedCode? 0 0 0 rest
    if value.isValidChar then some (Char.ofNat value, length + 1) else none
  | _ => none

/-- The value of `\xhh` after the `x`. -/
def hexEscape? : List Char → Option Nat
  | a :: b :: _ => do return (← hexValue? a) * 16 + (← hexValue? b)
  | _ => none

/-- The value of an escape that is one letter. -/
def letterEscape? : Char → Option Char
  | 'n' => some '\n'
  | 'r' => some '\r'
  | 't' => some '\t'
  | '\\' => some '\\'
  | '0' => some '\x00'
  | '\x27' => some '\x27'
  | '"' => some '"'
  | _ => none

/-- The kinds of quoted texts. -/
inductive QuotedKind where
  | text
  | bytes
  | terminated
deriving DecidableEq

namespace QuotedKind

/-- Whether a value may stand as `\xhh`. -/
def allowsHex : QuotedKind → Nat → Bool
  | .text, value => value < 0x80
  | .bytes, _ => true
  | .terminated, value => value != 0

/-- Whether a character may stand for itself. -/
def allows : QuotedKind → Char → Bool
  | .text, _ => true
  | .bytes, c => c.toNat < 0x80
  | .terminated, c => c != '\x00'

/-- Whether an escaped character may stand. -/
def allowsEscaped : QuotedKind → Char → Bool
  | .terminated, c => c != '\x00'
  | _, _ => true

end QuotedKind

/-- The length of the blanks after a backslash at the end of a line, where `last` is the character
before; something must follow them. -/
def continuedLength? (last : Char) : List Char → Option Nat
  | [] => none
  | c :: rest =>
    if last = '\r' && c != '\n' then none
    else if c = ' ' || c = '\t' || c = '\n' || c = '\r' then
      (continuedLength? (if last = '\r' then ' ' else c) rest).map (· + 1)
    else some 0

/-- The length of an escape after the backslash, with the character it stands for, if any. -/
def escape? (kind : QuotedKind) : List Char → Option (Option Char × Nat)
  | 'x' :: rest => do
    let value ← hexEscape? rest
    if kind.allowsHex value then some (some (Char.ofNat value), 3) else none
  | 'u' :: rest =>
    if kind = .bytes then none
    else do
      let (c, length) ← codeEscape? rest
      if kind.allowsEscaped c then some (some c, length + 1) else none
  | '\n' :: rest => (continuedLength? '\n' rest).map fun length => (none, length + 1)
  | '\r' :: rest => (continuedLength? '\r' rest).map fun length => (none, length + 1)
  | c :: _ => do
    let value ← letterEscape? c
    if kind.allowsEscaped value then some (some value, 1) else none
  | [] => none

/-! ## Quoted texts -/

/-- Reads a quoted text up to its closing quote: the characters so far in reverse, the length so
far, and how many characters to pass over. -/
def quotedFrom? (kind : QuotedKind) :
    List Char → Nat → Nat → List Char → Option (List Char × Nat)
  | _, _, _, [] => none
  | value, length, skip + 1, _ :: rest => quotedFrom? kind value (length + 1) skip rest
  | value, length, 0, c :: rest =>
    if c = '"' then some (value.reverse, length + 1)
    else if c = '\\' then
      match escape? kind rest with
      | some (some e, n) => quotedFrom? kind (e :: value) (length + 1) n rest
      | some (none, n) => quotedFrom? kind value (length + 1) n rest
      | none => none
    else if c = '\r' then
      if rest.head? = some '\n' then quotedFrom? kind ('\n' :: value) (length + 1) 1 rest else none
    else if kind.allows c then quotedFrom? kind (c :: value) (length + 1) 0 rest
    else none

/-- The value of a quoted text after the opening quote, and the length up to and with the closing
one. -/
def quoted? (kind : QuotedKind) (text : List Char) : Option (List Char × Nat) :=
  quotedFrom? kind [] 0 0 text

/-- Reads a raw text up to a quote that is followed by `hashes` hash signs. -/
def rawFrom? (kind : QuotedKind) (hashes : Nat) :
    List Char → Nat → List Char → Option (List Char × Nat)
  | _, _, [] => none
  | value, length, c :: rest =>
    if c = '"' && (rest.take hashes == List.replicate hashes '#') then
      some (value.reverse, length + 1 + hashes)
    else if c = '\r' && rest.head? != some '\n' then none
    else if kind.allows c then rawFrom? kind hashes (c :: value) (length + 1) rest
    else none

/-- The value of a raw text after the `r`, and its length. -/
def raw? (kind : QuotedKind) (text : List Char) : Option (List Char × Nat) :=
  let hashes := (text.takeWhile (· == '#')).length
  match text.drop hashes with
  | '"' :: rest =>
    if hashes > 255 then none
    else (rawFrom? kind hashes [] 0 rest).map fun (value, length) => (value, hashes + 1 + length)
  | _ => none

/-- The length of one quoted character after the opening quote. -/
def characterLength? (kind : QuotedKind) (text : List Char) : Option Nat := do
  let length ← match text with
    | '\\' :: rest =>
      match rest with
      | '\n' :: _ | '\r' :: _ => none
      | rest => (escape? kind rest).bind fun (c, n) => c.map fun _ => n + 1
    | c :: _ => if kind.allows c then some 1 else none
    | [] => none
  if text[length]? = some '\x27' then some (length + 1) else none

/-! ## Numbers -/

/-- The length of an exponent's sign and digits: `signed` tells that a sign was read, `valued` that
a digit was. Nothing when no digit comes. -/
def exponentLength? (signed valued : Bool) : List Char → Option Nat
  | [] => if valued then some 0 else none
  | c :: rest =>
    if c = '+' || c = '-' then
      if valued then some 0
      else if signed then none
      else (exponentLength? true valued rest).map (· + 1)
    else if c.isDigit then (exponentLength? signed true rest).map (· + 1)
    else if c = '_' then (exponentLength? signed valued rest).map (· + 1)
    else if valued then some 0
    else none

/-- Digits and underscores. -/
def isDigitOrLine (c : Char) : Bool := c.isDigit || c = '_'

/-- The length of the digits of a number with a point or an exponent. -/
def floatDigits? (text : List Char) : Option Nat :=
  match text with
  | [] => none
  | first :: _ =>
    if !first.isDigit then none
    else
      let whole := (text.takeWhile isDigitOrLine).length
      let withExponent := fun (length : Nat) (pointed : Bool) =>
        match text.drop length with
        | c :: rest =>
          if c = 'e' || c = 'E' then
            match exponentLength? false false rest with
            | some n => some (length + 1 + n)
            | none => if pointed then some length else none
          else if pointed then some length else none
        | [] => if pointed then some length else none
      match text.drop whole with
      | '.' :: rest =>
        if rest.head?.any fun c => c = '.' || isIdentStart c then none
        else withExponent (whole + 1 + (rest.takeWhile isDigitOrLine).length) true
      | _ => withExponent whole false

/-- The base of a number by its first characters, and their number. -/
def baseOf : List Char → Nat × Nat
  | '0' :: 'x' :: _ => (16, 2)
  | '0' :: 'o' :: _ => (8, 2)
  | '0' :: 'b' :: _ => (2, 2)
  | _ => (10, 0)

/-- The length of digits of a base; `started` tells that one was read. A decimal digit beyond the
base is refused, a letter beyond it ends the number. -/
def basedLength? (base : Nat) (started : Bool) : List Char → Option Nat
  | [] => if started then some 0 else none
  | c :: rest =>
    if c = '_' then
      if !started && base = 10 then none else (basedLength? base started rest).map (· + 1)
    else
      match hexValue? c with
      | some digit =>
        if digit < base then (basedLength? base true rest).map (· + 1)
        else if c.isDigit then none
        else if started then some 0
        else none
      | none => if started then some 0 else none

/-- The length of the digits of an integer. -/
def integerDigits? (text : List Char) : Option Nat :=
  let (base, skipped) := baseOf text
  (basedLength? base false (text.drop skipped)).map (· + skipped)

/-- The length of a number with its suffix, which must end there. -/
def numberLength? (digits : Option Nat) (text : List Char) : Option Nat := do
  let length ← digits
  let total := length + suffixLength (text.drop length)
  if (text.drop total).head?.any isIdentContinue then none else some total

/-! ## All literals -/

/-- A text literal whose value and length are known up to its suffix; `skipped` characters come
before. -/
def withSuffix (text : List Char) (skipped : Nat) (kind : List Char → LiteralKind)
    (found : List Char × Nat) : LiteralKind × Nat :=
  let length := skipped + found.2
  (kind found.1, length + suffixLength (text.drop length))

/-- The literal of text at its beginning: a quoted or raw text in one of three kinds. -/
def textLiteral? (text : List Char) : Option (LiteralKind × Nat) :=
  let string := fun value => LiteralKind.text (.ofList value)
  let plain := fun (_ : List Char) => LiteralKind.other
  match text with
  | '"' :: rest => (quoted? .text rest).map (withSuffix text 1 string)
  | 'r' :: rest => (raw? .text rest).map (withSuffix text 1 string)
  | 'b' :: '"' :: rest => (quoted? .bytes rest).map (withSuffix text 2 plain)
  | 'b' :: 'r' :: rest => (raw? .bytes rest).map (withSuffix text 2 plain)
  | 'c' :: '"' :: rest => (quoted? .terminated rest).map (withSuffix text 2 plain)
  | 'c' :: 'r' :: rest => (raw? .terminated rest).map (withSuffix text 2 plain)
  | _ => none

/-- The literal of a character or byte at the beginning. -/
def characterLiteral? (text : List Char) : Option (LiteralKind × Nat) :=
  match text with
  | 'b' :: '\x27' :: rest =>
    (characterLength? .bytes rest).map fun n => withSuffix text 2 (fun _ => .other) ([], n)
  | '\x27' :: rest =>
    (characterLength? .text rest).map fun n => withSuffix text 1 (fun _ => .other) ([], n)
  | _ => none

/-- Whether a number that is spelled without a point is an integer: an `e` followed by digits makes
it none. -/
def isIntegerSpelling (spelling : List Char) : Bool :=
  let (base, _) := baseOf spelling
  base != 10 ||
    match spelling.dropWhile isDigitOrLine with
    | [] => true
    | c :: rest =>
      if c = 'e' || c = 'E' then (exponentLength? false false rest).isNone
      else c != '.'

/-- The literal of a number at the beginning. -/
def numberLiteral? (text : List Char) : Option (LiteralKind × Nat) :=
  let length := (numberLength? (floatDigits? text) text).or
    (numberLength? (integerDigits? text) text)
  length.map fun n => (if isIntegerSpelling (text.take n) then .integer else .float, n)

/-- The literal at the beginning of a text, with its length. -/
def literal? (text : List Char) : Option (Literal × Nat) :=
  ((textLiteral? text).or ((characterLiteral? text).or (numberLiteral? text))).map
    fun (kind, length) => (⟨kind, .ofList (text.take length)⟩, length)

/-! ## Numbers of fields -/

/-- The number that digits stand for; underscores do not count. -/
def digitsValue? (base : Nat) (digits : List Char) : Option Nat :=
  (digits.filter (· != '_')).foldlM (fun value c => do
    let digit ← hexValue? c
    if digit < base then some (value * base + digit) else none) 0

/-- The number of a field that is spelled as an integer without suffix. -/
def fieldNumber? (spelling : List Char) : Option Nat := do
  let (base, skipped) := baseOf spelling
  let value ← digitsValue? base (spelling.drop skipped)
  if spelling.isEmpty || value ≥ Nat.pow 2 32 then none else some value

/-! ## Spelling a text -/

/-- The spelling of a text as a literal, where a null is written so that no digit can extend it. -/
def spelledChars : List Char → List Char
  | [] => []
  | c :: rest =>
    (match c with
      | '\x00' => if rest.head?.any fun d => '0' ≤ d && d ≤ '7' then "\\x00".toList
                  else "\\0".toList
      | '\t' => "\\t".toList
      | '\n' => "\\n".toList
      | '\r' => "\\r".toList
      | '"' => "\\\"".toList
      | '\\' => "\\\\".toList
      | c => [c]) ++ spelledChars rest

/-- A text as a literal. -/
def Literal.ofText (text : List Char) : Literal :=
  ⟨.text (.ofList text), .ofList ('"' :: spelledChars text ++ ['"'])⟩

end ApiDocs.Source
