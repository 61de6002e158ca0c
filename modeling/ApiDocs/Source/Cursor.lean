import ApiDocs.Loop
import ApiDocs.Source.Item

/-!
# Reading from tokens

A reader takes tokens from the front of a list. Along the way the cursor keeps what was taken, as
it is printed, the items that were met inside of bodies, and where the last token ended. A group
that is not read to its end spoils the whole reading, but only at the end, as long as the reader
goes on.
-/

namespace ApiDocs.Source

/-- The state of a reading. What was taken and what was found is in reverse. -/
structure Cursor where
  rest : List Token
  taken : List Piece := []
  found : List Item := []
  stop : Position := .start
  spoiled : Bool := false
deriving Inhabited

/-- A reader of tokens; one that fails leaves the cursor where it was. -/
abbrev Reader := StateT Cursor Option

/-! ## Looking ahead -/

namespace Ahead

/-- The words that cannot be plain identifiers. -/
def keywords : List String :=
  ["_", "abstract", "as", "async", "await", "become", "box", "break", "const", "continue", "crate",
   "do", "dyn", "else", "enum", "extern", "false", "final", "fn", "for", "if", "impl", "in", "let",
   "loop", "macro", "match", "mod", "move", "mut", "override", "priv", "pub", "ref", "return",
   "Self", "self", "static", "struct", "super", "trait", "true", "try", "type", "typeof", "unsafe",
   "unsized", "use", "virtual", "where", "while", "yield"]

/-- Any identifier or keyword. -/
def anyIdent : List Token → Bool
  | .ident .. :: _ => true
  | _ => false

/-- An identifier that is no keyword. -/
def ident : List Token → Bool
  | .ident name raw _ :: _ => raw || !keywords.contains name
  | _ => false

/-- A certain word. -/
def word (text : String) : List Token → Bool
  | .ident name raw _ :: _ => !raw && name == text
  | _ => false

/-- One of several words. -/
def words (texts : List String) (tokens : List Token) : Bool := texts.any (word · tokens)

/-- Punctuation characters, joint up to the last. -/
def puncts : List Char → List Token → Bool
  | [], _ => true
  | [c], .punct d _ _ :: _ => c == d
  | c :: cs, .punct d joint _ :: rest => c == d && joint && puncts cs rest
  | _, _ => false

/-- An operator. -/
def punct (op : String) (tokens : List Token) : Bool := puncts op.toList tokens

/-- One of several operators. -/
def anyPunct (ops : List String) (tokens : List Token) : Bool := ops.any (punct · tokens)

/-- A group. -/
def group (delimiter : Delimiter) : List Token → Bool
  | .group d _ _ :: _ => d == delimiter
  | _ => false

/-- A lifetime. -/
def lifetime : List Token → Bool
  | .lifetime .. :: _ => true
  | _ => false

/-- A literal, also one of the words for truth values, or a negated number. -/
def literal : List Token → Bool
  | .literal .. :: _ => true
  | .ident name raw _ :: _ => !raw && (name == "true" || name == "false")
  | .punct '-' _ _ :: .literal value _ :: _ => value.kind == .integer || value.kind == .float
  | _ => false

/-- A text literal. -/
def text : List Token → Bool
  | .literal ⟨.text _, _⟩ _ :: _ => true
  | _ => false

/-- Any group. -/
def anyGroup : List Token → Bool
  | .group .. :: _ => true
  | _ => false

/-- What the path of a macro may begin with. -/
def macroPath (tokens : List Token) : Bool :=
  ident tokens || words ["self", "super", "crate"] tokens || punct "::" tokens

end Ahead

namespace Reader

/-! ## Basic readers -/

/-- Whether the coming tokens pass a test. -/
def ahead (test : List Token → Bool) : Reader Bool := return test (← get).rest

/-- Whether the tokens after the next one pass a test. -/
def second (test : List Token → Bool) : Reader Bool := return test ((← get).rest.drop 1)

/-- Whether the tokens after the next two pass a test. -/
def third (test : List Token → Bool) : Reader Bool := return test ((← get).rest.drop 2)

/-- Whether there are no more tokens. -/
def atEnd : Reader Bool := ahead List.isEmpty

/-- Takes the next `count` tokens, which are printed as one piece. -/
def takeAs (count : Nat) (text : String) : Reader Unit := do
  let cursor ← get
  match (cursor.rest.take count).getLast? with
  | none => failure
  | some last =>
    set { cursor with
      rest := cursor.rest.drop count
      taken := .word text false :: cursor.taken
      stop := last.stop }

/-- Takes an operator if it comes. -/
def punct? (op : String) : Reader Bool := do
  if ← ahead (Ahead.punct op) then
    takeAs op.length op
    return true
  else return false

/-- Takes an operator. -/
def punct (op : String) : Reader Unit := do
  if !(← punct? op) then failure

/-- Takes a word if it comes. -/
def word? (text : String) : Reader Bool := do
  if ← ahead (Ahead.word text) then
    takeAs 1 text
    return true
  else return false

/-- Takes a word. -/
def word (text : String) : Reader Unit := do
  if !(← word? text) then failure

/-- Takes any identifier or keyword: its name, and whether it is raw. -/
def anyIdent : Reader (String × Bool) := do
  match (← get).rest with
  | .ident name raw _ :: _ =>
    takeAs 1 (identSpelling name raw)
    return (name, raw)
  | _ => failure

/-- Takes an identifier that is no keyword. -/
def rawIdent : Reader (String × Bool) := do
  if ← ahead Ahead.ident then anyIdent else failure

/-- The name of an identifier that is no keyword. -/
def ident : Reader String := do return (← rawIdent).1

/-- Takes a lifetime. -/
def lifetime : Reader Unit := do
  match (← get).rest with
  | .lifetime name _ :: _ => takeAs 1 ("'" ++ name)
  | _ => failure

/-- Takes a lifetime if one comes. -/
def lifetime? : Reader Bool := do
  if ← ahead Ahead.lifetime then
    lifetime
    return true
  else return false

/-- Takes a literal token. -/
def literalToken : Reader Literal := do
  match (← get).rest with
  | .literal value _ :: _ =>
    takeAs 1 value.spelling
    return value
  | _ => failure

/-- Takes a literal, also a word for a truth value or a negated number. -/
def literal : Reader Literal := do
  match (← get).rest with
  | .literal .. :: _ => literalToken
  | .ident name _ _ :: _ =>
    if ← ahead Ahead.literal then
      takeAs 1 name
      return ⟨.other, name⟩
    else failure
  | .punct _ _ _ :: .literal value _ :: _ =>
    if ← ahead Ahead.literal then
      takeAs 2 ("-" ++ value.spelling)
      return ⟨value.kind, "-" ++ value.spelling⟩
    else failure
  | _ => failure

/-! ## Groups -/

/-- Takes a group and reads its content. What is left of the content spoils the reading. -/
def group {α : Type} (delimiter : Delimiter) (content : Reader α) : Reader α := do
  let cursor ← get
  match cursor.rest with
  | .group d tokens stop :: rest =>
    if d = delimiter then
      set { cursor with rest := tokens, taken := .enter delimiter :: cursor.taken }
      let result ← content
      let inner ← get
      set { inner with
        rest
        taken := .leave delimiter :: inner.taken
        stop
        spoiled := inner.spoiled || !inner.rest.isEmpty }
      return result
    else failure
  | _ => failure

/-- Takes any group as it stands: its delimiter and its tokens. -/
def anyGroup : Reader (Delimiter × List Token) := do
  let cursor ← get
  match cursor.rest with
  | .group delimiter tokens stop :: rest =>
    set { cursor with
      rest
      taken := (Token.pieces (.group delimiter tokens stop)).reverse ++ cursor.taken
      stop }
    return (delimiter, tokens)
  | _ => failure

/-! ## Combinators -/

/-- Runs a reader on a copy of the cursor: its result if it succeeds, while nothing is taken. -/
def peeking {α : Type} (reader : Reader α) : Reader (Option α) := fun cursor =>
  some ((reader cursor).map Prod.fst, cursor)

/-- Runs a reader, and takes nothing if it fails. -/
def attempt {α : Type} (reader : Reader α) : Reader (Option α) := fun cursor =>
  match reader cursor with
  | some (result, after) => some (some result, after)
  | none => some (none, cursor)

/-- Lets what was read since a former cursor be printed as it stands in the source, and forgets the
items found in it. -/
def asWritten (before : Cursor) : Reader Unit :=
  modify fun after =>
    let count := before.rest.length - after.rest.length
    { after with
      taken := (Token.piecesOf (before.rest.take count)).reverse ++ before.taken
      found := before.found }

/-- Runs a reader whose tokens are printed as they stand in the source. -/
def verbatim {α : Type} (reader : Reader α) : Reader α := do
  let before ← get
  let result ← reader
  asWritten before
  return result

/-- Runs a reader and gives the items it found apart. -/
def collecting {α : Type} (reader : Reader α) : Reader (α × List Item) := do
  let before ← get
  set { before with found := [] }
  let result ← reader
  let after ← get
  set { after with found := before.found }
  return (result, after.found.reverse)

/-- Adds an item to what was found. -/
def find (item : Item) : Reader Unit :=
  modify fun cursor => { cursor with found := item :: cursor.found }

/-- Runs a reader and gives what it took, as it is printed. -/
def printing {α : Type} (reader : Reader α) : Reader (α × List Piece) := do
  let before ← get
  set { before with taken := [] }
  let result ← reader
  let after ← get
  set { after with taken := after.taken ++ before.taken }
  return (result, after.taken.reverse)

/-- Repeats a step that takes at least one token each time it goes on. -/
def loop {σ α : Type} (state : σ) (step : σ → Reader (Loop σ α)) : Reader α := do
  Loop.upTo step ((← get).rest.length + 2) state

/-- Reads elements up to the end of the group. -/
def many {α : Type} (element : Reader α) : Reader (List α) :=
  loop ([] : List α) fun read => do
    if ← atEnd then return .done read.reverse
    return .next ((← element) :: read)

/-- Reads elements up to the end of the group, with a separator between any two and perhaps at the
end. -/
def separated {α : Type} (separator : String) (element : Reader α) : Reader (List α) :=
  loop ([] : List α) fun read => do
    if ← atEnd then return .done read.reverse
    let next ← element
    if ← atEnd then return .done (next :: read).reverse
    punct separator
    return .next (next :: read)

/-- Reads elements with a separator between any two, and perhaps at the end, until a test is
passed. -/
def separatedUntil {α : Type} (stop : List Token → Bool) (separator : String)
    (element : Reader α) : Reader (List α) :=
  loop ([] : List α) fun read => do
    if ← ahead stop then return .done read.reverse
    let next ← element
    if ← ahead stop then return .done (next :: read).reverse
    punct separator
    return .next (next :: read)

/-- Reads elements joined by a separator; ends before a token that passes the test, or where no
separator follows. -/
def joinedUntil {α : Type} (stop : List Token → Bool) (separator : String)
    (element : Reader α) : Reader (List α) :=
  loop ([] : List α) fun read => do
    if ← ahead stop then return .done read.reverse
    let next ← element
    if ← punct? separator then return .next (next :: read)
    return .done (next :: read).reverse

/-- Runs a reader over all tokens: it must reach the end, and nothing may be spoiled. -/
def runAll? {α : Type} (reader : Reader α) (tokens : List Token) : Option α := do
  let (result, cursor) ← reader { rest := tokens }
  if cursor.rest.isEmpty && !cursor.spoiled then some result else none

end Reader

end ApiDocs.Source
