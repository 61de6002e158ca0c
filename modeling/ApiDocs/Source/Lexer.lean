import ApiDocs.Source.Literal
import ApiDocs.Text.Split

/-!
# Reading tokens

The text is cut into lexemes from left to right (`lexemes?`), and lexemes between delimiters are
put together to trees (`trees?`). Comments are passed over, except that a documentation comment
becomes the attribute it stands for. Text that is no sequence of tokens is refused as a whole.
-/

namespace ApiDocs.Source

open Text

/-! ## Blanks and comments -/

/-- The direction marks, which count as blanks. -/
def isSourceBlank (c : Char) : Bool := isBlank c || c = '\u200e' || c = '\u200f'

/-- The length of a line up to its end, the end not included. The carriage return of a line's end
does not belong to the line. -/
def lineLength : List Char → Nat
  | [] => 0
  | '\n' :: _ => 0
  | '\r' :: '\n' :: _ => 0
  | _ :: rest => lineLength rest + 1

/-- The length of a comment between `/*` and `*/` that may hold further ones, from within `depth`
of them on. -/
def commentLength? : Nat → List Char → Option Nat
  | depth, '/' :: '*' :: rest => (commentLength? (depth + 1) rest).map (· + 2)
  | depth, '*' :: '/' :: rest =>
    if depth ≤ 1 then some 2 else (commentLength? (depth - 1) rest).map (· + 2)
  | depth, _ :: rest => (commentLength? depth rest).map (· + 1)
  | _, [] => none

/-- A comment at the beginning of a text. -/
inductive Comment where
  /-- A comment that is passed over. -/
  | plain
  /-- The documentation of what follows, or of what encloses it. -/
  | doc (isInner : Bool) (text : List Char)

/-- The comment of a block, without its marks. -/
def docBlock (isInner : Bool) (text : List Char) (length : Nat) : Comment × Nat :=
  (.doc isInner ((text.take (length - 2)).drop 3), length)

/-- The comment at the beginning of a text and its length. A line comment leaves the line's end,
and a carriage return before it, to the blanks. -/
def comment? (text : List Char) : Option (Comment × Nat) :=
  match text with
  | '/' :: '/' :: '/' :: '/' :: rest => some (.plain, 4 + lineLength rest)
  | '/' :: '/' :: '/' :: rest =>
    some (.doc false (rest.take (lineLength rest)), 3 + lineLength rest)
  | '/' :: '/' :: '!' :: rest =>
    some (.doc true (rest.take (lineLength rest)), 3 + lineLength rest)
  | '/' :: '/' :: rest => some (.plain, 2 + lineLength rest)
  | '/' :: '*' :: '*' :: '/' :: _ => some (.plain, 4)
  | '/' :: '*' :: '*' :: '*' :: _ => (commentLength? 0 text).map fun n => (.plain, n)
  | '/' :: '*' :: '*' :: _ => (commentLength? 0 text).map (docBlock false text)
  | '/' :: '*' :: '!' :: _ => (commentLength? 0 text).map (docBlock true text)
  | '/' :: '*' :: _ => (commentLength? 0 text).map fun n => (.plain, n)
  | _ => none

/-- Whether every carriage return is followed by a line feed. -/
def returnsPaired : List Char → Bool
  | [] => true
  | '\r' :: rest => rest.head? = some '\n' && returnsPaired rest
  | _ :: rest => returnsPaired rest

/-! ## Lexemes -/

/-- A piece of source text: a delimiter or a token without content. -/
inductive Lexeme where
  | enter (delimiter : Delimiter)
  | leave (delimiter : Delimiter) (stop : Position)
  | leaf (token : Token)

/-- The characters that are punctuation. -/
def isPunct (c : Char) : Bool := "~!@#$%^&*-=+|;:,<.>/?'".toList.contains c

/-- Whether a text begins with punctuation; the start of a comment is none. -/
def startsWithPunct (text : List Char) : Bool :=
  match text with
  | '/' :: '/' :: _ => false
  | '/' :: '*' :: _ => false
  | c :: _ => isPunct c
  | [] => false

/-- The beginnings of identifiers that are reserved for literals. -/
def reservedStarts : List (List Char) :=
  ["r\"", "r#\"", "r##", "b\"", "b'", "br\"", "br#", "c\"", "cr\"", "cr#"].map String.toList

/-- The words that cannot be written raw. -/
def neverRaw : List String := ["_", "super", "self", "Self", "crate"]

/-- An identifier at the beginning of a text, raw or not, and its length. -/
def identifier? (text : List Char) : Option ((String × Bool) × Nat) :=
  match text with
  | 'r' :: '#' :: rest => do
    let length ← wordLength? rest
    let name := String.ofList (rest.take length)
    if neverRaw.contains name then none else some ((name, true), length + 2)
  | text => do
    let length ← wordLength? text
    some ((.ofList (text.take length), false), length)

/-- A lifetime at the beginning of a text and its length. -/
def lifetime? (text : List Char) : Option (String × Nat) :=
  match text with
  | '\x27' :: rest => do
    let ((name, raw), length) ← identifier? rest
    match rest[length]? with
    | some '\x27' => none
    | some '#' => if raw then some (identSpelling name raw, length + 1) else none
    | _ => some (identSpelling name raw, length + 1)
  | _ => none

/-- The spelling of a literal that stands for an earlier error. -/
def errorSpelling : String := "(/*ERROR*/)"

/-- The token at the beginning of a text, as a function of its end, and its length. -/
def leaf? (text : List Char) : Option ((Position → Token) × Nat) :=
  match literal? text with
  | some (value, length) => some (.literal value, length)
  | none =>
    match text with
    | '\x27' :: _ => (lifetime? text).map fun (name, length) => (.lifetime name, length)
    | c :: rest =>
      if startsWithPunct text then some (.punct c (startsWithPunct rest), 1)
      else if reservedStarts.any fun start => (after? start text).isSome then none
      else (identifier? text).map fun ((name, raw), length) => (.ident name raw, length)
    | [] => none

/-- The attribute of a documentation comment that ends at `stop`. -/
def docLexemes (isInner : Bool) (text : List Char) (stop : Position) : List Lexeme :=
  [.leaf (.punct '#' false stop)] ++ (if isInner then [.leaf (.punct '!' false stop)] else [])
    ++ [.enter .bracket, .leaf (.ident "doc" false stop), .leaf (.punct '=' false stop),
        .leaf (.literal (.ofText text) stop), .leave .bracket stop]

/-- The delimiter that a character opens. -/
def opening? : Char → Option Delimiter
  | '(' => some .paren
  | '[' => some .bracket
  | '\x7b' => some .brace
  | _ => none

/-- The delimiter that a character closes. -/
def closing? : Char → Option Delimiter
  | ')' => some .paren
  | ']' => some .bracket
  | '\x7d' => some .brace
  | _ => none

/-- The lexemes at the beginning of a text as a function of their end, and their length. -/
def step? (text : List Char) : Option ((Position → List Lexeme) × Nat) :=
  match text with
  | [] => none
  | c :: _ =>
    if isSourceBlank c then some (fun _ => [], 1)
    else
      match comment? text with
      | some (.plain, length) => some (fun _ => [], length)
      | some (.doc isInner content, length) =>
        if returnsPaired content then some (docLexemes isInner content, length) else none
      | none =>
        if (after? errorSpelling.toList text).isSome then
          some (fun stop => [.leaf (.literal ⟨.other, errorSpelling⟩ stop)], errorSpelling.length)
        else
          match opening? c, closing? c with
          | some delimiter, _ => some (fun _ => [.enter delimiter], 1)
          | none, some delimiter => some (fun stop => [.leave delimiter stop], 1)
          | none, none =>
            (leaf? text).map fun (token, length) => (fun stop => [.leaf (token stop)], length)

/-- The lexemes of a text: `skip` characters are passed over first, and what was found so far comes
in reverse. -/
def lexemesFrom? : Nat → Position → List Lexeme → List Char → Option (List Lexeme)
  | _, _, found, [] => some found.reverse
  | skip + 1, p, found, c :: rest => lexemesFrom? skip (p.after c) found rest
  | 0, p, found, c :: rest =>
    match step? (c :: rest) with
    | none => none
    | some (make, length) =>
      lexemesFrom? (length - 1) (p.after c)
        ((make (p.afterAll ((c :: rest).take length))).reverse ++ found) rest

/-- The lexemes of a text that begins at a position. -/
def lexemes? (p : Position) (text : List Char) : Option (List Lexeme) := lexemesFrom? 0 p [] text

/-! ## Trees -/

/-- The trees of lexemes. `open?` holds, innermost first, the delimiters that are open and what was
read before each of them in reverse; `read` is what was read since. -/
def treesFrom? : List (Delimiter × List Token) → List Token → List Lexeme → Option (List Token)
  | [], read, [] => some read.reverse
  | _ :: _, _, [] => none
  | open?, read, .leaf token :: rest => treesFrom? open? (token :: read) rest
  | open?, read, .enter delimiter :: rest => treesFrom? ((delimiter, read) :: open?) [] rest
  | [], _, .leave _ _ :: _ => none
  | (delimiter, before) :: open?, read, .leave closed stop :: rest =>
    if delimiter = closed then
      treesFrom? open? (.group delimiter read.reverse stop :: before) rest
    else none

/-- The byte-order mark. -/
def byteOrderMark : Char := '\ufeff'

/-- The tokens of a text. A byte-order mark at its beginning is passed over. -/
def tokens? (text : List Char) : Option (List Token) := do
  let lexemes ← match text with
    | c :: rest =>
      if c = byteOrderMark then lexemes? (Position.start.after c) rest
      else lexemes? .start text
    | [] => some []
  treesFrom? [] [] lexemes

/-! ## Files -/

/-- Blanks and comments as they may stand between `#!` and a bracket. -/
def skipBlanks : Nat → List Char → List Char
  | 0, text => text
  | bound + 1, text =>
    match text with
    | c :: rest =>
      if isSourceBlank c then skipBlanks bound rest
      else
        match comment? text with
        | some (.plain, length) => skipBlanks bound (text.drop length)
        | _ => text
    | [] => []

/-- Whether the text begins with a line for the shell: `#!` that begins no attribute. -/
def hasShellLine (text : List Char) : Bool :=
  match text with
  | '#' :: '!' :: rest => (skipBlanks rest.length rest).head? != some '['
  | _ => false

/-- The text of a file that is read: without a byte-order mark and the line for the shell. -/
def body (text : List Char) : List Char :=
  let text := match text with
    | c :: rest => if c = byteOrderMark then rest else text
    | [] => []
  if hasShellLine text then text.dropWhile (· != '\n') else text

/-- The tokens of a file. -/
def fileTokens? (text : List Char) : Option (List Token) := tokens? (body text)

end ApiDocs.Source
