import ApiDocs.Text.Split

/-!
# Line patterns

The annotations of a comment block are found by patterns that may start anywhere in a line. A
pattern is a list of pieces; a run of characters takes as many as it can and gives back one at a
time when the rest does not fit, so of all fits the leftmost is found and, at one start, the one
whose earlier runs are longest.
-/

namespace ApiDocs.Text

/-- One piece of a pattern. -/
inductive Piece where
  /-- Exactly this text. -/
  | exactly (text : List Char)
  /-- Lower-case ASCII letters in either case, together with the characters that fold to them. -/
  | anyCase (text : List Char)
  /-- The first of these texts after which the rest fits; captured. -/
  | oneOf (texts : List (List Char))
  /-- One or more characters of a class, not captured. -/
  | run (member : Char → Bool)
  /-- One or more characters of a class, captured. -/
  | capture (member : Char → Bool)
  /-- The character, or nothing. -/
  | optional (c : Char)
  /-- The place where a word ends or begins. -/
  | boundary

/-- A pattern is its pieces in order. -/
abbrev Pattern := List Piece

namespace Pattern

/-- Whether `c` equals the lower-case letter `letter` when case is folded. Two letters have a
folding partner outside ASCII: the long s and the Kelvin sign. -/
def folds (letter c : Char) : Bool :=
  c.toLower == letter || (letter == 's' && c == '\u017f') || (letter == 'k' && c == '\u212a')

/-- The rest after a text that is compared with case folded. -/
def afterFolded? : List Char → List Char → Option (List Char)
  | [], rest => some rest
  | _ :: _, [] => none
  | letter :: letters, c :: rest => if folds letter c then afterFolded? letters rest else none

/-- Whether exactly one side of the place between the two characters is a word. -/
def atBoundary (before : Option Char) (rest : List Char) : Bool :=
  (before.any isWord) != (rest.head?.any isWord)

/-- The last character before the rest of `text` after `taken` characters. -/
def lastTaken (before : Option Char) (text : List Char) (taken : Nat) : Option Char :=
  ((text.take taken).getLast?).or before

/-- Tries `count` characters, then one fewer, down to one. -/
def longestFirst {α : Type} (attempt : Nat → Option α) : Nat → Option α
  | 0 => none
  | count + 1 => (attempt (count + 1)).or (longestFirst attempt count)

/-- Fits the pieces at the start of `rest`, where `before` is the character to the left; gives the
captured texts in order. -/
def fitHere : Pattern → Option Char → List Char → Option (List (List Char))
  | [], _, _ => some []
  | .exactly text :: pieces, before, rest =>
    (after? text rest).bind fun remaining =>
      fitHere pieces (lastTaken before rest text.length) remaining
  | .anyCase text :: pieces, before, rest =>
    (afterFolded? text rest).bind fun remaining =>
      fitHere pieces (lastTaken before rest text.length) remaining
  | .oneOf texts :: pieces, before, rest =>
    texts.findSome? fun text =>
      (after? text rest).bind fun remaining =>
        (fitHere pieces (lastTaken before rest text.length) remaining).map (text :: ·)
  | .run member :: pieces, before, rest =>
    longestFirst
      (fun count => fitHere pieces (lastTaken before rest count) (rest.drop count))
      (rest.takeWhile member).length
  | .capture member :: pieces, before, rest =>
    longestFirst
      (fun count =>
        (fitHere pieces (lastTaken before rest count) (rest.drop count)).map (rest.take count :: ·))
      (rest.takeWhile member).length
  | .optional c :: pieces, before, rest =>
    (match rest with
      | d :: remaining => if c = d then fitHere pieces (some d) remaining else none
      | [] => none).or (fitHere pieces before rest)
  | .boundary :: pieces, before, rest =>
    if atBoundary before rest then fitHere pieces before rest else none

/-- Fits the pattern at the leftmost place from here on. -/
def fitFrom (pattern : Pattern) (before : Option Char) : List Char → Option (List (List Char))
  | [] => fitHere pattern before []
  | c :: rest => (fitHere pattern before (c :: rest)).or (fitFrom pattern (some c) rest)

/-- The captures of the pattern's leftmost fit in the text. -/
def captures (pattern : Pattern) (text : List Char) : Option (List (List Char)) :=
  fitFrom pattern none text

/-- Whether the pattern fits anywhere in the text. -/
def occurs (pattern : Pattern) (text : List Char) : Bool := (pattern.captures text).isSome

end Pattern

end ApiDocs.Text
