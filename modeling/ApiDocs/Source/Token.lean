/-!
# Tokens

The tokens of Rust source text, as trees: what stands between a pair of delimiters is one token.
Each token knows where it ends, since comments after a field are found by position.

Source text is printed back from tokens, with one blank between two of them. A punctuation
character that is joined to the next one gets no blank, and neither does the inside of parentheses
and brackets.
-/

namespace ApiDocs.Source

/-- A place between two characters: the line counted from one, and how many characters of the line
come before. -/
structure Position where
  line : Nat
  column : Nat
deriving DecidableEq, Inhabited

namespace Position

/-- The start of a text. -/
def start : Position := ⟨1, 0⟩

/-- The place after one more character. -/
def after (p : Position) (c : Char) : Position :=
  if c = '\n' then ⟨p.line + 1, 0⟩ else ⟨p.line, p.column + 1⟩

/-- The place after more characters. -/
def afterAll (p : Position) (chars : List Char) : Position := chars.foldl after p

end Position

/-- The pairs that enclose tokens. -/
inductive Delimiter where
  | paren
  | bracket
  | brace
deriving DecidableEq, Inhabited

/-- What a literal stands for, as far as it matters: the value of a text, or whether a number is
an integer. -/
inductive LiteralKind where
  | text (value : String)
  | integer
  | float
  | other
deriving DecidableEq, Inhabited

/-- A literal with its spelling. -/
structure Literal where
  kind : LiteralKind
  spelling : String
deriving DecidableEq, Inhabited

/-- A token. Identifiers may be written raw, as in `r#type`; a punctuation character is joint when
another one follows at once. -/
inductive Token where
  | ident (name : String) (raw : Bool) (stop : Position)
  | lifetime (name : String) (stop : Position)
  | punct (c : Char) (joint : Bool) (stop : Position)
  | literal (value : Literal) (stop : Position)
  | group (delimiter : Delimiter) (content : List Token) (stop : Position)
deriving Inhabited

namespace Token

/-- Where the token ends. -/
def stop : Token → Position
  | .ident _ _ stop => stop
  | .lifetime _ stop => stop
  | .punct _ _ stop => stop
  | .literal _ stop => stop
  | .group _ _ stop => stop

mutual

/-- The number of tokens in a tree. -/
def size : Token → Nat
  | .group _ content _ => 1 + sizes content
  | _ => 1

/-- The number of tokens in trees. -/
def sizes : List Token → Nat
  | [] => 0
  | token :: tokens => token.size + sizes tokens

end

end Token

/-- The spelling of an identifier. -/
def identSpelling (name : String) (raw : Bool) : String := if raw then "r#" ++ name else name

/-! ## Printing -/

/-- A piece of printed source text. -/
inductive Piece where
  | word (text : String) (joint : Bool)
  | enter (delimiter : Delimiter)
  | leave (delimiter : Delimiter)
deriving DecidableEq, Inhabited

namespace Piece

/-- The start of a delimited text. -/
def entry : Delimiter → String
  | .paren => "("
  | .bracket => "["
  | .brace => "\x7b "

/-- The end of a delimited text; a brace has a blank before it unless nothing is enclosed. -/
def exit (delimiter : Delimiter) (isEmpty : Bool) : String :=
  match delimiter with
  | .paren => ")"
  | .bracket => "]"
  | .brace => if isEmpty then "\x7d" else " \x7d"

/-- A blank, unless the piece clings to what comes before. -/
def gap (clings : Bool) : String := if clings then "" else " "

/-- The text of pieces. `clings` tells that no blank is due, and `opened` that the piece before was
an opening delimiter. -/
def textFrom : (clings opened : Bool) → List Piece → String
  | _, _, [] => ""
  | clings, _, .word text joint :: rest => gap clings ++ text ++ textFrom joint false rest
  | clings, _, .enter delimiter :: rest => gap clings ++ entry delimiter ++ textFrom true true rest
  | _, opened, .leave delimiter :: rest => exit delimiter opened ++ textFrom false false rest

/-- The text of pieces. -/
def text (pieces : List Piece) : String := textFrom true false pieces

end Piece

namespace Token

mutual

/-- A token as it stands in the source, with its spacing. -/
def pieces : Token → List Piece
  | .ident name raw _ => [.word (identSpelling name raw) false]
  | .lifetime name _ => [.word ("'" ++ name) false]
  | .punct c joint _ => [.word c.toString joint]
  | .literal value _ => [.word value.spelling false]
  | .group delimiter content _ => .enter delimiter :: piecesOf content ++ [.leave delimiter]

/-- Tokens as they stand in the source. -/
def piecesOf : List Token → List Piece
  | [] => []
  | token :: tokens => token.pieces ++ piecesOf tokens

end

end Token

end ApiDocs.Source
