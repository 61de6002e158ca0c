import ApiDocs.Source.Grammar

/-!
# Attributes and visibility
-/

namespace ApiDocs.Source.Grammar

open Reader

/-! ## Plain paths -/

/-- What a name of a plain path may be. -/
def isPathName (tokens : List Token) : Bool :=
  Ahead.ident tokens || Ahead.words ["super", "self", "Self", "crate"] tokens

/-- A path of names without arguments: its spelling, if it is a single name. -/
def plainPath : Reader (Option String) := do
  let rooted ← punct? "::"
  let names ← loop ([] : List String) fun read => do
    if !(← ahead isPathName) then failure
    let (name, raw) ← anyIdent
    let read := identSpelling name raw :: read
    if ← punct? "::" then return .next read
    return .done read
  match names with
  | [name] => return if rooted then none else some name
  | _ => return none

/-- A macro call from the exclamation mark on; whether it has braces. -/
def macroArguments : Reader Bool := do
  punct "!"
  let (delimiter, _) ← anyGroup
  return delimiter == .brace

/-! ## Attributes -/

/-- The value after the equality sign of an attribute. -/
def metaValue (g : Grammar) : Reader Expr := do
  let only ← attempt do
    let value ← literal
    if ← atEnd then return value
    failure
  match only with
  | some value => return .ofLiteral value
  | none =>
    if (← ahead (Ahead.punct "#")) && (← second (Ahead.group .bracket)) then failure
    return (← g.expr true).value

/-- What stands between the brackets of an attribute. -/
def attributeContent (g : Grammar) : Reader Attribute := do
  let name? ← if ← word? "unsafe" then pure (some "unsafe") else plainPath
  if ← ahead Ahead.anyGroup then
    let (_, tokens) ← anyGroup
    return ⟨name?, .list tokens⟩
  if ← punct? "=" then return ⟨name?, .value (← metaValue g)⟩
  return ⟨name?, .word⟩

/-- The attributes before something. -/
def outerAttributes (g : Grammar) : Reader (List Attribute) :=
  loop ([] : List Attribute) fun read => do
    if ← punct? "#" then
      return .next ((← group .bracket (attributeContent g)) :: read)
    return .done read.reverse

/-- The attributes at the beginning of what they belong to. -/
def innerAttributes (g : Grammar) : Reader (List Attribute) :=
  loop ([] : List Attribute) fun read => do
    if (← ahead (Ahead.punct "#")) && (← second (Ahead.punct "!")) then
      punct "#"
      punct "!"
      return .next ((← group .bracket (attributeContent g)) :: read)
    return .done read.reverse

/-! ## Visibility -/

/-- Who may see something. -/
inductive Visibility where
  | inherited
  | restricted
  | everyone
deriving DecidableEq

/-- What restricts a visibility, between parentheses. -/
def restriction : Reader Unit := do
  if ← ahead (Ahead.words ["crate", "self", "super"]) then
    let _ ← anyIdent
    if !(← atEnd) then failure
  else
    word "in"
    let _ ← plainPath

/-- A visibility. -/
def visibility : Reader Visibility := do
  if ← word? "pub" then
    match ← attempt (group .paren restriction) with
    | some _ => return .restricted
    | none => return .everyone
  else return .inherited

/-! ## Bodies -/

/-- A block: statements between braces. -/
def block (g : Grammar) : Reader Unit := group .brace g.statements

/-- The body of something to which the attributes at its beginning belong. -/
def body (g : Grammar) : Reader (List Attribute) :=
  group .brace do
    let attributes ← innerAttributes g
    g.statements
    return attributes

end ApiDocs.Source.Grammar
