import ApiDocs.Value

/-!
# JSON text

Values are written over several lines, indented by two blanks a level. A string escapes the quote,
the backslash and the control characters; all other characters stand for themselves.
-/

namespace ApiDocs.Json

/-- Large numbers carry the sign of their exponent. -/
def floatFormat : FloatFormat := ⟨"e+"⟩

/-- The lower-case hexadecimal digit of a number below 16. -/
def hexDigit (n : Nat) : Char := Nat.digitChar n

/-- The characters that stand for `c` inside a string. -/
def escape (c : Char) : List Char :=
  match c with
  | '"' => ['\\', '"']
  | '\\' => ['\\', '\\']
  | '\n' => ['\\', 'n']
  | '\r' => ['\\', 'r']
  | '\t' => ['\\', 't']
  | '\x08' => ['\\', 'b']
  | '\x0c' => ['\\', 'f']
  | c =>
    if c.toNat < 0x20 then ['\\', 'u', '0', '0', hexDigit (c.toNat / 16), hexDigit (c.toNat % 16)]
    else [c]

/-- A string in quotes. -/
def quoted (s : String) : List Char := '"' :: s.toList.flatMap escape ++ ['"']

/-- A new line at the given level. -/
def newline (level : Nat) : List Char := '\n' :: List.replicate (2 * level) ' '

mutual

/-- The text of a value whose first line stands at the given level. -/
def chars (level : Nat) : Value → List Char
  | .null => "null".toList
  | .text s => quoted s
  | .flag b => if b then "true".toList else "false".toList
  | .number n => (n.write floatFormat).toList
  | .list [] => ['[', ']']
  | .list (item :: items) =>
    '[' :: newline (level + 1) ++ chars (level + 1) item ++ itemChars (level + 1) items
      ++ newline level ++ [']']
  | .record [] => ['\x7b', '\x7d']
  | .record (field :: fields) =>
    '\x7b' :: newline (level + 1) ++ quoted field.1 ++ [':', ' '] ++ chars (level + 1) field.2
      ++ fieldChars (level + 1) fields ++ newline level ++ ['\x7d']

/-- The further items of a list, each after a comma on a line of its own. -/
def itemChars (level : Nat) : List Value → List Char
  | [] => []
  | item :: items => ',' :: newline level ++ chars level item ++ itemChars level items

/-- The further fields of a record. -/
def fieldChars (level : Nat) : List (String × Value) → List Char
  | [] => []
  | (key, value) :: fields =>
    ',' :: newline level ++ quoted key ++ [':', ' '] ++ chars level value
      ++ fieldChars level fields

end

/-- The JSON text of a value. -/
def write (value : Value) : String := .ofList (chars 0 value)

end ApiDocs.Json
