import ApiDocs.Toml.Frame
import ApiDocs.Toml.Scalar

/-!
# TOML documents

A document is a sequence of entries and headers, one on each line. `Toml.ofText?` reads one; a text
that breaks a rule of the format is refused as a whole.
-/

namespace ApiDocs.Toml

open Reader

/-- How often lists and tables may be nested, and how many parts a key may have, is less than
this. -/
def depthLimit : Nat := 80

/-! ## Keys -/

/-- Characters of keys without quotes. -/
def isKeyChar (c : Char) : Bool := c.isAlphanum || c = '-' || c = '_'

/-- A part of a key. -/
def keyPart : Reader String := do
  if ← symbol? "\"" then return .ofList (← basicText)
  if ← symbol? "'" then return .ofList (← literalText)
  let bare ← takeWhile isKeyChar
  if bare.isEmpty then failure
  return .ofList bare

/-- A key of parts with dots between them: what leads to its last part, and that part. -/
def key : Reader (List String × String) := do
  let parts ← loop ([] : List String) fun parts => do
    spaces
    let parts := (← keyPart) :: parts
    spaces
    if ← symbol? "." then return .next parts
    return .done parts
  if parts.length ≥ depthLimit then failure
  match parts with
  | last :: path => return (path.reverse, last)
  | [] => failure

/-- A key and the value after it, which is read by the given reader. -/
def entry (value : Reader Toml) : Reader (List String × String × Toml) := do
  let (path, last) ← key
  symbol "="
  spaces
  return (path, last, ← value)

/-! ## Values -/

/-- The elements of a list, after the opening bracket. -/
def listItems (value : Reader Toml) : Reader (List Toml) :=
  loop ([] : List Toml) fun items => do
    spacesAndLines
    if ← symbol? "]" then return .done items.reverse
    let items := (← value) :: items
    spacesAndLines
    if ← symbol? "," then return .next items
    symbol "]"
    return .done items.reverse

/-- The entries of a table, after the opening brace. -/
def inlineEntries (value : Reader Toml) : Reader (List (List String × String × Toml)) := do
  spaces
  if ← symbol? "\x7d" then return []
  loop ([] : List (List String × String × Toml)) fun entries => do
    let entries := (← entry value) :: entries
    spaces
    if ← symbol? "," then return .next entries
    symbol "\x7d"
    return .done entries.reverse

/-- The table of entries in the order in which they are written. -/
def tableOf? (entries : List (List String × String × Toml)) : Option Toml := do
  let frame ← entries.foldlM (fun frame (path, key, value) => do
    let (_, frame) ← Edit.define path key value frame
    return frame) ({} : Frame)
  return frame.toToml

/-- A value that is nested in others as often as is still allowed. -/
def value : (allowed : Nat) → Reader Toml
  | 0 => failure
  | allowed + 1 => do
    match ← next? with
    | some '"' | some '\x27' => return .text (← Reader.text)
    | some '[' =>
      if allowed = 0 then failure
      symbol "["
      return .list (← listItems (value allowed))
    | some '\x7b' =>
      if allowed = 0 then failure
      symbol "\x7b"
      match tableOf? (← inlineEntries (value allowed)) with
      | some made => return made
      | none => failure
    | some 't' =>
      symbol "true"
      return .flag true
    | some 'f' =>
      symbol "false"
      return .flag false
    | _ =>
      match ← attempt? Reader.date with
      | some _ => return .date
      | none =>
        Reader.number
        return .number

/-! ## Lines -/

/-- The header of a table, after the opening bracket. -/
def header (draft : Draft) : Reader Draft := do
  let isElement ← symbol? "["
  let (path, last) ← key
  symbol (if isElement then "]]" else "]")
  restOfLine
  let opened := if isElement then draft.openElement path last else draft.openTable path last
  match opened with
  | some draft => return draft
  | none => failure

/-- A document up to its end. -/
def document : Reader Toml :=
  loop ({} : Draft) fun draft => do
    spaces
    if ← atEnd then
      match draft.close with
      | some frame => return .done frame.toToml
      | none => failure
    if ← newline? then return .next draft
    if ← comment? then
      lineEnd
      return .next draft
    if ← symbol? "[" then return .next (← header draft)
    let (path, last, value) ← entry (value depthLimit)
    restOfLine
    match draft.define path last value with
    | some draft => return .next draft
    | none => failure

/-- Reads a document; a byte-order mark before it does not count. -/
def ofText? (text : List Char) : Option Toml :=
  let text := match text with
    | '\ufeff' :: rest => rest
    | text => text
  (document text).map Prod.fst

end ApiDocs.Toml
