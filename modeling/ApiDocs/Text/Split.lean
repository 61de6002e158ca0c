import ApiDocs.Text.Class

/-!
# Cutting text

Trimming, lines, and splitting at a character. Everything works on lists of characters, the form
in which the rest of the library reasons about text; `String` is only the storage format.
-/

namespace ApiDocs.Text

/-! ## Trimming -/

/-- Removes blanks from the front. -/
def trimStart (text : List Char) : List Char := text.dropWhile isBlank

/-- Removes the longest tail of characters that satisfy `p`. -/
def dropTail (p : Char → Bool) (text : List Char) : List Char :=
  (text.reverse.dropWhile p).reverse

/-- Removes blanks from the end. -/
def trimEnd (text : List Char) : List Char := dropTail isBlank text

/-- Removes blanks from both ends. -/
def trim (text : List Char) : List Char := trimEnd (trimStart text)

/-- A string without the blanks at its ends. -/
def trimmed (text : String) : String := .ofList (trim text.toList)

/-! ## Splitting -/

/-- The parts of the text between occurrences of `separator`; one part when there is none. -/
def splitAll (separator : Char) : List Char → List (List Char)
  | [] => [[]]
  | c :: rest =>
    if c = separator then [] :: splitAll separator rest
    else match splitAll separator rest with
      | [] => [[c]]
      | part :: parts => (c :: part) :: parts

/-- What stands before and after the first `separator`, if there is one. -/
def splitOnce (separator : Char) : List Char → Option (List Char × List Char)
  | [] => none
  | c :: rest =>
    if c = separator then some ([], rest)
    else (splitOnce separator rest).map fun (before, after) => (c :: before, after)

/-- The rest of the text after `start`, if it begins so. -/
def after? (start : List Char) (text : List Char) : Option (List Char) :=
  match start, text with
  | [], rest => some rest
  | _ :: _, [] => none
  | c :: start, d :: text => if c = d then after? start text else none

/-- The text before its ending `stop`, if it ends so. -/
def before? (stop : List Char) (text : List Char) : Option (List Char) :=
  (after? stop.reverse text.reverse).map List.reverse

/-- Whether `part` occurs in the text. -/
def hasPart (part : List Char) : List Char → Bool
  | [] => part.isEmpty
  | c :: rest => (after? part (c :: rest)).isSome || hasPart part rest

/-- Replaces every occurrence of one character by another. -/
def swap (old new : Char) (text : List Char) : List Char :=
  text.map fun c => if c = old then new else c

/-! ## Lines -/

/-- Removes one carriage return from the end. -/
def dropReturn (line : List Char) : List Char := (before? ['\r'] line).getD line

/-- The lines of the parts between line feeds: the carriage return before a line feed belongs to
the line's ending, and an empty last part is no line. -/
def linesOfParts : List (List Char) → List (List Char)
  | [] => []
  | [last] => if last.isEmpty then [] else [last]
  | part :: parts => dropReturn part :: linesOfParts parts

/-- The lines of a text, without their endings. -/
def lines (text : List Char) : List (List Char) := linesOfParts (splitAll '\n' text)

end ApiDocs.Text
