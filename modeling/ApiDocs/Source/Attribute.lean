import ApiDocs.Notice
import ApiDocs.Source.File

/-!
# What attributes say

Documentation, entries such as `rename = "id"`, and whether something belongs to tests only.

Entries of nested lists are flattened: `rename(serialize = "x")` gives the key `rename.serialize`.
A list that does not follow the grammar of entries is reported, and what was read of it up to there
counts.
-/

namespace ApiDocs.Source

open Grammar Reader

namespace Attribute

/-- Whether the attribute has a name. -/
def isNamed (name : String) (attr : Attribute) : Bool := attr.name? == some name

/-- The text given as the attribute's value. -/
def text? (attr : Attribute) : Option String :=
  match attr.content with
  | .value (.text value) => some value
  | _ => none

end Attribute

/-! ## Documentation -/

/-- A line of documentation without the blank that sets it off, and without blanks at its end. -/
def docLine (line : List Char) : List Char :=
  Text.trimEnd (match line with
    | ' ' :: rest => rest
    | line => line)

/-- The documentation in attributes, one line for each. -/
def docText (attributes : List Attribute) : String :=
  let lines := (attributes.filter (·.isNamed "doc")).filterMap (·.text?)
  .ofList (Text.trim (['\n'].intercalate (lines.map fun line => docLine line.toList)))

/-! ## Tests and module files -/

/-- Whether something belongs to tests only. -/
def isTestOnly (attributes : List Attribute) : Bool :=
  attributes.any fun attr =>
    attr.isNamed "cfg" &&
      match attr.content with
      | .list [.ident "test" false _] => true
      | _ => false

/-- The file that attributes give for a module. -/
def givenFile? (attributes : List Attribute) : Option String :=
  ((attributes.filter (·.isNamed "path")).filterMap (·.text?)).head?

/-! ## Entries -/

/-- A key with its value, if it has one. -/
structure Entry where
  key : String
  value? : Option String
deriving DecidableEq, Inhabited

/-- The state while entries are read; those read so far are in reverse. -/
structure EntryState where
  cursor : Cursor
  entries : List Entry := []

/-- A reader of entries. The entries read before a failure are kept. -/
abbrev EntryReader := OptionT (StateM EntryState)

namespace EntryReader

/-- Runs a reader of tokens. -/
def take {α : Type} (reader : Reader α) : EntryReader α := fun state =>
  match reader state.cursor with
  | some (result, cursor) => (some result, { state with cursor })
  | none => (none, state)

/-- Adds an entry. -/
def add (entry : Entry) : EntryReader Unit := fun state =>
  (some (), { state with entries := entry :: state.entries })

/-- Reads the inside of parentheses. -/
def within (reader : EntryReader Unit) : EntryReader Unit := fun state =>
  match state.cursor.rest with
  | .group .paren tokens _ :: rest =>
    let (result, inner) := reader { state with cursor := { state.cursor with rest := tokens } }
    (result, { inner with cursor := { inner.cursor with rest } })
  | _ => (none, state)

/-- The path before a value: the name if it is a single one, else the path as it is spelled. -/
def key : Reader String := do
  let rooted ← punct? "::"
  let (first, raw) ← anyIdent
  let names ← loop [identSpelling first raw] fun names => do
    if ← punct? "::" then
      let (name, raw) ← anyIdent
      return .next (identSpelling name raw :: names)
    return .done names.reverse
  if names.length = 1 && !rooted then return first
  return (if rooted then "::" else "") ++ "::".intercalate names

/-- The text of a value: that of a text literal, else the expression without blanks. -/
def valueText (value : Expr) (tokens : List Piece) : String :=
  match value with
  | .text text => text
  | _ => .ofList ((Piece.text tokens).toList.filter (· != ' '))

/-- One entry below a key, or the entries of the list that it has; the reader for these takes the
key. -/
def entry (g : Grammar) (nested : String → EntryReader Unit) (above? : Option String) :
    EntryReader Unit := do
  let name ← take key
  let key := match above? with
    | some above => above ++ "." ++ name
    | none => name
  if ← take (punct? "=") then
    let (value, tokens) ← take (printing (g.expr true))
    add ⟨key, some (valueText value.value tokens)⟩
  else if ← take (ahead (Ahead.group .paren)) then within (nested key)
  else add ⟨key, none⟩

/-- At most `bound` elements with commas between them and perhaps at the end. -/
def listUpTo (element : EntryReader Unit) : (bound : Nat) → EntryReader Unit
  | 0 => failure
  | bound + 1 => do
    element
    if !(← take atEnd) then
      take (punct ",")
      if !(← take atEnd) then listUpTo element bound

/-- Entries below a key that are nested at most `depth` times. -/
def entriesUpTo (g : Grammar) : (depth : Nat) → (above? : Option String) → EntryReader Unit
  | 0, _ => failure
  | depth + 1, above? => do
    let bound := (← take get).rest.length
    listUpTo (entry g (fun key => entriesUpTo g depth (some key)) above?) bound

end EntryReader

/-- The entries in tokens, and whether the tokens are well-formed. -/
def entriesOfTokens (tokens : List Token) : List Entry × Bool :=
  if tokens.isEmpty then ([], true)
  else
    let reader := EntryReader.entriesUpTo (Grammar.forTokens tokens) (Token.sizes tokens + 1) none
    let (result, state) := reader { cursor := { rest := tokens } }
    (state.entries.reverse, result.isSome && !state.cursor.spoiled)

namespace Attribute

/-- The entries of an attribute. -/
def entries (attr : Attribute) : List Entry :=
  match attr.content with
  | .list tokens => (entriesOfTokens tokens).1
  | _ => []

/-- Whether the attribute is a list that does not follow the grammar of entries. -/
def isMalformed (attr : Attribute) : Bool :=
  match attr.content with
  | .list tokens => !(entriesOfTokens tokens).2
  | _ => false

end Attribute

/-- The entries of all attributes with a name. -/
def entriesNamed (name : String) (attributes : List Attribute) : List Entry :=
  (attributes.filter (·.isNamed name)).flatMap Attribute.entries

/-- What reading the entries reports. -/
def entryNotices (name : String) (attributes : List Attribute) : List Notice :=
  (attributes.filter fun attr => attr.isNamed name && attr.isMalformed).map
    fun _ => .malformedAttribute name

/-! ## Validation -/

/-- The keyword that an entry of a validation stands for. -/
def validationKeyword : String → String
  | "length.min" | "range.min" => "min"
  | "length.max" | "range.max" => "max"
  | "length.equal" => "len"
  | "range.exclusive_min" => "gt"
  | "range.exclusive_max" => "lt"
  | key => key

/-- An entry as part of a validation expression. -/
def Entry.validationPart (entry : Entry) : String :=
  match entry.value? with
  | some value => validationKeyword entry.key ++ "=" ++ value
  | none => validationKeyword entry.key

namespace Attribute

/-- The validation expression that is the only argument, if it is given so. -/
def readyExpression? (attr : Attribute) : Option String :=
  match attr.content with
  | .list [.literal ⟨.text value, _⟩ _] => some value
  | _ => none

/-- The parts of a validation expression that an attribute gives. -/
def validationParts (attr : Attribute) : List String :=
  match attr.readyExpression? with
  | some expression => [expression]
  | none => attr.entries.map Entry.validationPart

end Attribute

/-- The validation expression in attributes, if there is any. -/
def validationExpression? (attributes : List Attribute) : Option String :=
  let parts := (attributes.filter (·.isNamed "validate")).flatMap Attribute.validationParts
  if parts.isEmpty then none else some (",".intercalate parts)

/-- What reading the validation expression reports. -/
def validationNotices (attributes : List Attribute) : List Notice :=
  entryNotices "validate" (attributes.filter fun attr => attr.readyExpression?.isNone)

end ApiDocs.Source
