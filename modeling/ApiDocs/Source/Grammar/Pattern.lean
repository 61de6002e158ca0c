import ApiDocs.Source.Grammar.Type
import ApiDocs.Source.Literal

/-!
# Patterns
-/

namespace ApiDocs.Source.Grammar

open Reader

/-! ## Members -/

/-- The name or number of a field; whether it is a name. Numbers are printed in their plain
form. -/
def member : Reader Bool := do
  if ← ahead Ahead.ident then
    let _ ← rawIdent
    return true
  match (← get).rest with
  | .literal value _ :: _ =>
    if value.kind != .integer then failure
    match fieldNumber? value.spelling.toList with
    | some number =>
      takeAs 1 (toString number)
      return false
    | none => failure
  | _ => failure

/-! ## Alternatives -/

/-- Whether another alternative comes. -/
def alternativeAhead (tokens : List Token) : Bool :=
  Ahead.punct "|" tokens && !Ahead.anyPunct ["||", "|="] tokens

/-- Alternatives, perhaps with a bar before the first one. -/
def alternatives (g : Grammar) : Reader PatternForm := do
  let leading ← if ← ahead alternativeAhead then punct? "|" else pure false
  let first ← g.pattern
  let more ← loop false fun more => do
    if ← ahead alternativeAhead then
      punct "|"
      let _ ← g.pattern
      return .next true
    return .done more
  return if leading || more then .plain else first

/-! ## Ranges -/

/-- The bound of a range; whether there is one. -/
def rangeBound (g : Grammar) : Reader Bool := do
  let isAbsent := fun tokens => tokens.isEmpty || Ahead.anyPunct ["|", "=", ",", ";"] tokens ||
    (Ahead.punct ":" tokens && !Ahead.punct "::" tokens) || Ahead.word "if" tokens
  if ← ahead isAbsent then return false
  if ← ahead Ahead.literal then
    let _ ← literal
  else if ← ahead startsPath then
    let _ ← qualifiedPath g true
  else
    word "const"
    let _ ← body g
  return true

/-- The dots of a range; whether the upper bound belongs to it and so must be given. -/
def rangeLimits (obsolete : Bool) : Reader Bool := do
  if ← punct? "..=" then return true
  if ← ahead (Ahead.punct "...") then
    if !obsolete then failure
    punct "..."
    return true
  punct ".."
  return false

/-- The rest of a range after its lower bound. -/
def rangeRest (g : Grammar) : Reader PatternForm := do
  let isClosed ← rangeLimits true
  let hasEnd ← rangeBound g
  if isClosed && !hasEnd then failure
  return if hasEnd then .plain else .openRange

/-- A range without lower bound, or the two dots that stand for the rest. -/
def rangeWithoutStart (g : Grammar) : Reader PatternForm := do
  let isClosed ← rangeLimits false
  if ← rangeBound g then return .openRange
  if isClosed then failure
  return .rest

/-! ## Parts -/

/-- The field of a pattern for a value with named fields. -/
def fieldPattern (g : Grammar) : Reader Unit := do
  let boxed ← word? "box"
  let byReference ← word? "ref"
  let mutable ← word? "mut"
  if boxed || byReference || mutable then
    let _ ← rawIdent
  else
    let isNamed ← member
    if !isNamed || (← ahead (Ahead.punct ":")) then
      punct ":"
      let _ ← alternatives g

/-- The fields of a pattern between braces. -/
def fieldPatterns (g : Grammar) : Reader Unit :=
  loop () fun _ => do
    if ← atEnd then return .done ()
    let _ ← outerAttributes g
    if ← punct? ".." then return .done ()
    fieldPattern g
    if ← atEnd then return .done ()
    punct ","
    return .next ()

/-- A pattern that begins with a path. -/
def pathPattern (g : Grammar) : Reader PatternForm := do
  let path ← qualifiedPath g true
  if path.namesMacro && (← ahead fun tokens => Ahead.punct "!" tokens && !Ahead.punct "!=" tokens)
  then
    let _ ← macroArguments
    return .plain
  if ← ahead (Ahead.group .brace) then
    group .brace (fieldPatterns g)
    return .plain
  if ← ahead (Ahead.group .paren) then
    let _ ← group .paren (separated "," (alternatives g))
    return .plain
  if ← ahead (Ahead.punct "..") then rangeRest g
  else return .plain

/-- The patterns of a slice, where ranges must have both bounds. -/
def slicePatterns (g : Grammar) : Reader Unit := do
  let _ ← separated "," do
    if (← alternatives g) = .openRange then failure

/-- Whether a pattern begins with a path. -/
def startsPathPattern (tokens : List Token) : Bool :=
  let after := tokens.drop 1
  (Ahead.ident tokens &&
      (Ahead.anyPunct ["::", "!", ".."] after || Ahead.group .brace after ||
        Ahead.group .paren after)) ||
    (Ahead.word "self" tokens && Ahead.punct "::" after) ||
    Ahead.anyPunct ["::", "<"] tokens || Ahead.words ["Self", "super", "crate"] tokens

/-- A pattern without alternatives. -/
def patternRule (g : Grammar) : Reader PatternForm := do
  if ← ahead startsPathPattern then pathPattern g
  else if ← word? "_" then return .plain
  else if ← ahead (Ahead.word "box") then
    verbatim do
      word "box"
      let _ ← g.pattern
      return .plain
  else if ← ahead fun tokens => Ahead.literal tokens || Ahead.word "const" tokens then
    let _ ← rangeBound g
    if ← ahead (Ahead.punct "..") then rangeRest g
    else return .plain
  else if ← ahead fun tokens => Ahead.words ["ref", "mut", "self"] tokens || Ahead.ident tokens then
    let _ ← word? "ref"
    let _ ← word? "mut"
    if !(← word? "self") then
      let _ ← rawIdent
    if ← punct? "@" then
      let _ ← g.pattern
    return .plain
  else if ← punct? "&" then
    let _ ← word? "mut"
    let _ ← g.pattern
    return .plain
  else if ← ahead (Ahead.group .paren) then
    let _ ← group .paren (separated "," (alternatives g))
    return .plain
  else if ← ahead (Ahead.group .bracket) then
    group .bracket (slicePatterns g)
    return .plain
  else if ← ahead (Ahead.punct "..") then rangeWithoutStart g
  else failure

end ApiDocs.Source.Grammar
