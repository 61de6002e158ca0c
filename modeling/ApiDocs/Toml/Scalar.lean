import ApiDocs.Loop
import ApiDocs.Number.Reading
import ApiDocs.Text.Split
import ApiDocs.Toml

/-!
# TOML texts, numbers and dates
-/

namespace ApiDocs.Toml

/-- A reader of characters. -/
abbrev Reader := StateT (List Char) Option

namespace Reader

/-! ## Characters -/

/-- The next character. -/
def next? : Reader (Option Char) := return (← get).head?

/-- Whether the text is at its end. -/
def atEnd : Reader Bool := return (← get).isEmpty

/-- Takes a text if it comes. -/
def symbol? (text : String) : Reader Bool := do
  match Text.after? text.toList (← get) with
  | some rest =>
    set rest
    return true
  | none => return false

/-- Takes a text. -/
def symbol (text : String) : Reader Unit := do
  if !(← symbol? text) then failure

/-- Takes the characters that pass a test. -/
def takeWhile (test : Char → Bool) : Reader (List Char) := do
  let text ← get
  set (text.dropWhile test)
  return text.takeWhile test

/-- Repeats a step that takes at least one character each time it goes on. -/
def loop {σ α : Type} (state : σ) (step : σ → Reader (Loop σ α)) : Reader α := do
  Loop.upTo step ((← get).length + 1) state

/-- Runs a reader on a copy of the text if it succeeds there. -/
def attempt? {α : Type} (reader : Reader α) : Reader (Option α) := fun text =>
  match reader text with
  | some (result, rest) => some (some result, rest)
  | none => some (none, text)

/-! ## Blanks, lines and comments -/

/-- Blanks within a line. -/
def isSpace (c : Char) : Bool := c = ' ' || c = '\t'

/-- Characters that may stand in texts and comments for themselves. -/
def isPlain (c : Char) : Bool :=
  c = '\t' || (0x20 ≤ c.toNat && c.toNat ≤ 0x7E) || 0x80 ≤ c.toNat

/-- Passes over blanks within a line. -/
def spaces : Reader Unit := do
  let _ ← takeWhile isSpace

/-- Takes the end of a line if it comes. -/
def newline? : Reader Bool := do
  if ← symbol? "\n" then return true
  symbol? "\r\n"

/-- Passes over a comment if it comes. -/
def comment? : Reader Bool := do
  if ← symbol? "#" then
    let _ ← takeWhile isPlain
    return true
  return false

/-- The end of a line or of the text. -/
def lineEnd : Reader Unit := do
  if !(← newline?) then
    if !(← atEnd) then failure

/-- Blanks and a comment up to the end of the line. -/
def restOfLine : Reader Unit := do
  spaces
  let _ ← comment?
  lineEnd

/-- Blanks, comments and line ends between the elements of a list. -/
def spacesAndLines : Reader Unit :=
  loop () fun _ => do
    spaces
    if ← comment? then
      if !(← newline?) then failure
      return .next ()
    if ← newline? then return .next ()
    return .done ()

/-! ## Texts -/

/-- The character with a code point of the given number of hexadecimal digits. -/
def codePoint (digits : Nat) : Reader Char := do
  let text ← get
  let code := text.take digits
  if code.length != digits || !code.all isHexDigit then failure
  set (text.drop digits)
  let value := code.foldl (fun value c => value * 16 + hexValue c) 0
  if value.isValidChar then return Char.ofNat value
  failure
where
  /-- Whether a character is a hexadecimal digit. -/
  isHexDigit (c : Char) : Bool :=
    c.isDigit || ('a' ≤ c && c ≤ 'f') || ('A' ≤ c && c ≤ 'F')
  /-- The value of a hexadecimal digit. -/
  hexValue (c : Char) : Nat :=
    if c.isDigit then c.toNat - '0'.toNat
    else if 'a' ≤ c then c.toNat - 'a'.toNat + 10
    else c.toNat - 'A'.toNat + 10

/-- The character of an escape after the backslash. -/
def escaped : Reader Char := do
  match ← next? with
  | some c =>
    set ((← get).drop 1)
    match c with
    | 'b' => return '\x08'
    | 't' => return '\t'
    | 'n' => return '\n'
    | 'f' => return '\x0c'
    | 'r' => return '\r'
    | '"' => return '"'
    | '\\' => return '\\'
    | 'u' => codePoint 4
    | 'U' => codePoint 8
    | _ => failure
  | none => failure

/-- A text between double quotes, after the opening one. -/
def basicText : Reader (List Char) :=
  loop ([] : List Char) fun read => do
    if ← symbol? "\"" then return .done read.reverse
    if ← symbol? "\\" then return .next ((← escaped) :: read)
    return .next ((← plainChar) :: read)
where
  /-- A character that stands for itself. -/
  plainChar : Reader Char := do
    match ← get with
    | c :: rest =>
      if !isPlain c then failure
      set rest
      return c
    | [] => failure

/-- A text between single quotes, after the opening one. -/
def literalText : Reader (List Char) := do
  let text ← takeWhile fun c => isPlain c && c != '\x27'
  symbol "'"
  return text

/-- Passes over the line end that a backslash hides, with the blanks and line ends around it, if it
comes. -/
def hiddenLineEnd? : Reader Bool := do
  let hidden ← attempt? do
    spaces
    if !(← newline?) then failure
    loop () fun _ => do
      if (← takeWhile isSpace).isEmpty then
        if !(← newline?) then return .done ()
      return .next ()
  return hidden.isSome

/-- A text of several lines up to three quotes; up to two more before them belong to the text.
Other characters are read by `other`, which takes the text so far in reverse. -/
def linesText (quote : Char) (other : List Char → Reader (List Char)) : Reader (List Char) := do
  let _ ← newline?
  loop ([] : List Char) fun read => do
    let quotes := ((← get).takeWhile (· == quote)).length
    if quotes ≥ 3 then
      let extra := min (quotes - 3) 2
      modify (List.drop (extra + 3))
      return .done (read.reverse ++ List.replicate extra quote)
    if ← newline? then return .next ('\n' :: read)
    return .next (← other read)

/-- A text of several lines between double quotes, after the opening ones. -/
def basicLines : Reader (List Char) :=
  linesText '"' fun read => do
    if ← symbol? "\\" then
      if ← hiddenLineEnd? then return read
      return (← escaped) :: read
    return (← basicText.plainChar) :: read

/-- A text of several lines between single quotes, after the opening ones. -/
def literalLines : Reader (List Char) :=
  linesText '\x27' fun read => do return (← basicText.plainChar) :: read

/-- A text in any of its forms. -/
def text : Reader String := do
  if ← symbol? "\"\"\"" then return .ofList (← basicLines)
  if ← symbol? "\"" then return .ofList (← basicText)
  if ← symbol? "'''" then return .ofList (← literalLines)
  symbol "'"
  return .ofList (← literalText)

/-! ## Numbers -/

/-- Digits, where single underscores may stand between them. -/
def digits (isDigit : Char → Bool) : Reader (List Char) :=
  loop ([] : List Char) fun read => do
    match ← get with
    | '_' :: c :: rest =>
      if read.isEmpty || !isDigit c then failure
      set rest
      return .next (c :: read)
    | c :: rest =>
      if isDigit c then
        set rest
        return .next (c :: read)
      if read.isEmpty then failure
      if c = '_' then failure
      return .done read.reverse
    | [] => if read.isEmpty then failure else return .done read.reverse

/-- A sign if it comes; whether it is a minus. -/
def sign : Reader Bool := do
  if ← symbol? "-" then return true
  let _ ← symbol? "+"
  return false

/-- A number in another base than ten, after the letter for the base. It must fit into 64 bits. -/
def basedNumber (base : Nat) (isDigit : Char → Bool) : Reader Unit := do
  let read ← digits isDigit
  let value := read.foldl (fun value c => value * base + codePoint.hexValue c) 0
  if value ≥ Nat.pow 2 63 then failure

/-- The fraction and the exponent of a number, if they come. -/
def fractionAndExponent : Reader (List Char) := do
  let fraction ← if ← symbol? "." then do pure ('.' :: (← digits Char.isDigit)) else pure []
  let marked ← if ← symbol? "e" then pure true else symbol? "E"
  if !marked then return fraction
  let negative ← sign
  let exponent ← digits Char.isDigit
  return fraction ++ ('e' :: (if negative then ['-'] else []) ++ exponent)

/-- A number in base ten: an integer must fit into 64 bits, and another one may not be too
large. -/
def decimalNumber : Reader Unit := do
  let negative ← sign
  if ← symbol? "inf" then return
  if ← symbol? "nan" then return
  let whole ← if ← symbol? "0" then pure ['0'] else digits Char.isDigit
  let rest ← fractionAndExponent
  let written := (if negative then ['-'] else []) ++ whole ++ rest
  if rest.isEmpty then
    if (readInt64? written).isNone then failure
  else
    match Binary64.read? written with
    | some (.infinite false) => failure
    | _ => return

/-- A number. -/
def number : Reader Unit := do
  if ← symbol? "0x" then basedNumber 16 codePoint.isHexDigit
  else if ← symbol? "0o" then basedNumber 8 fun c => '0' ≤ c && c ≤ '7'
  else if ← symbol? "0b" then basedNumber 2 fun c => c = '0' || c = '1'
  else decimalNumber

/-! ## Dates -/

/-- A number of exactly the given count of digits, within bounds. -/
def fixedNumber (count low high : Nat) : Reader Nat := do
  let text ← get
  let read := text.take count
  if read.length != count || !read.all Char.isDigit then failure
  set (text.drop count)
  let value := digitsValue read
  if value < low || high < value then failure
  return value

/-- The number of days of a month. -/
def daysOf (year month : Nat) : Nat :=
  let isLeap := year % 4 = 0 && (year % 100 != 0 || year % 400 = 0)
  if month = 2 then (if isLeap then 29 else 28)
  else if [4, 6, 9, 11].contains month then 30
  else 31

/-- A day. -/
def day : Reader Unit := do
  let year ← fixedNumber 4 0 9999
  symbol "-"
  let month ← fixedNumber 2 1 12
  symbol "-"
  let _ ← fixedNumber 2 1 (daysOf year month)

/-- A time of day. -/
def time : Reader Unit := do
  let _ ← fixedNumber 2 0 23
  symbol ":"
  let _ ← fixedNumber 2 0 59
  symbol ":"
  let _ ← fixedNumber 2 0 60
  if ← symbol? "." then
    if (← takeWhile Char.isDigit).isEmpty then failure

/-- The offset of a time zone. -/
def offset : Reader Unit := do
  if ← symbol? "Z" then return
  if ← symbol? "z" then return
  if !(← symbol? "+") then symbol "-"
  let _ ← fixedNumber 2 0 23
  symbol ":"
  let _ ← fixedNumber 2 0 59

/-- A day with or without a time, or a time. -/
def date : Reader Unit := do
  match ← attempt? day with
  | some _ =>
    let _ ← attempt? do
      let separated ← if ← symbol? "T" then pure true
        else if ← symbol? "t" then pure true
        else symbol? " "
      if !separated then failure
      time
      let _ ← attempt? offset
    return
  | none => time

end Reader

end ApiDocs.Toml
