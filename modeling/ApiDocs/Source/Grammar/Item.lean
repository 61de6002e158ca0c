import ApiDocs.Source.Grammar.Statement

/-!
# Items

An item that is only let through by the grammar, without a meaning of its own, has no kind: its
tokens are kept as they stand, and nothing inside of it is looked at.
-/

namespace ApiDocs.Source.Grammar

open Reader

/-- An item as it was read, without the attributes before it: its kind, if it has one, and the
attributes at its beginning. -/
structure ReadItem where
  kind? : Option ItemKind
  inner : List Attribute := []

/-- What comes after the visibility. -/
def afterVisibility : Reader (Visibility × List Token) := do
  let found ← peeking do
    let seen ← visibility
    return (seen, (← get).rest)
  return found.getD (.inherited, [])

/-- The tokens without a word at their beginning. -/
def withoutWord (text : String) (tokens : List Token) : List Token :=
  if Ahead.word text tokens then tokens.drop 1 else tokens

/-- Whether a function comes; some may be marked as safe. -/
def functionAhead (safe : Bool) (tokens : List Token) : Bool :=
  let tokens := withoutWord "async" (withoutWord "const" tokens)
  let tokens := if safe && Ahead.word "safe" tokens then tokens.drop 1
    else withoutWord "unsafe" tokens
  let tokens := if Ahead.word "extern" tokens then
      if Ahead.text (tokens.drop 1) then tokens.drop 2 else tokens.drop 1
    else tokens
  Ahead.word "fn" tokens

/-! ## Functions -/

/-- The object of a method. -/
def receiver (g : Grammar) : Reader Unit := do
  let isReference ← punct? "&"
  if isReference then
    let _ ← lifetime?
  let _ ← word? "mut"
  word "self"
  if !isReference then
    if ← punct? ":" then
      let _ ← g.type true

/-- A parameter of a function; whether it stands for any number of further ones. -/
def parameter (g : Grammar) (isFirst : Bool) : Reader Bool := do
  match ← attempt (receiver g) with
  | some _ => if isFirst then return false else failure
  | none =>
    if (← ahead Ahead.ident) && (← second (Ahead.punct "<")) then
      let _ ← g.type true
      return false
    let _ ← g.pattern
    punct ":"
    if ← punct? "..." then return true
    let _ ← g.type true
    return false

/-- The parameters of a function. -/
def parameters (g : Grammar) : Reader Unit :=
  loop true fun isFirst => do
    if ← atEnd then return .done ()
    let _ ← outerAttributes g
    let isVariadic ← if ← punct? "..." then pure true else parameter g isFirst
    if ← atEnd then return .done ()
    punct ","
    if isVariadic then return .done ()
    return .next false

/-- A function up to its body; whether it is marked as safe. -/
def signature (g : Grammar) (safe : Bool) : Reader Bool := do
  let _ ← word? "const"
  let _ ← word? "async"
  let isUnsafe ← word? "unsafe"
  let isSafe ← if safe && !isUnsafe then word? "safe" else pure false
  callingConvention?
  word "fn"
  let _ ← rawIdent
  let _ ← generics g
  group .paren (parameters g)
  let _ ← returnType g true
  let _ ← whereClause? g
  return isSafe

/-- A function. -/
def function (g : Grammar) : Reader ReadItem := do
  let _ ← visibility
  let _ ← signature g false
  if ← punct? ";" then return ⟨none, []⟩
  return ⟨some .documented, ← body g⟩

/-! ## Names for values and types -/

/-- A constant from its name on. One with parameters or without value has no kind. -/
def constant (g : Grammar) : Reader (Option ItemKind) := do
  if !(← ahead fun tokens => Ahead.ident tokens || Ahead.word "_" tokens) then failure
  let (name, _) ← anyIdent
  let parameters ← generics g
  punct ":"
  let (type, _) ← g.type true
  let value? ← if ← punct? "=" then do pure (some (← g.expr true).value) else pure none
  let restricted ← whereClause? g
  punct ";"
  match value? with
  | some value =>
    return if parameters.isSome || restricted then none else some (.const name type value)
  | none => return none

/-- A constant as an item. -/
def constItem (g : Grammar) : Reader ReadItem := do
  let _ ← visibility
  word "const"
  return ⟨← constant g, []⟩

/-- A variable that lives as long as the program. -/
def staticItem (g : Grammar) : Reader ReadItem := do
  let _ ← visibility
  word "static"
  let _ ← word? "mut"
  let _ ← rawIdent
  let isTyped ← punct? ":"
  if isTyped then
    let _ ← g.type true
    if ← punct? ";" then return ⟨none, []⟩
  punct "="
  let _ ← g.expr true
  punct ";"
  return ⟨if isTyped then some .documented else none, []⟩

/-- Where a type definition may have a where clause. -/
inductive WherePlace where
  | before
  | after
  | both
deriving DecidableEq

/-- The definition of a type. One with bounds or without a type has no kind. -/
def typeDefinition (g : Grammar) (mayBeDefault : Bool) (place : WherePlace) :
    Reader (Option ItemKind) := do
  let _ ← visibility
  if mayBeDefault then
    let _ ← word? "default"
  word "type"
  let name ← ident
  let parameters ← generics g
  let hasBounds ← punct? ":"
  if hasBounds then
    let stop := fun tokens => Ahead.word "where" tokens || Ahead.anyPunct ["=", ";"] tokens
    let _ ← separatedUntil stop "+" (g.bound false true)
  let restricted ← if place != .after then whereClause? g else pure false
  let type? ← if ← punct? "=" then do pure (some (← g.type true).1) else pure none
  if place != .before && !restricted then
    let _ ← whereClause? g
  punct ";"
  match type? with
  | some type => return if hasBounds then none else some (.typeAlias name (parameters.getD []) type)
  | none => return none

/-! ## Structures and enumerations -/

/-- A field with a name. -/
def namedField (g : Grammar) (fields : Reader (List Field)) : Reader Field := do
  let attributes ← outerAttributes g
  let seen ← visibility
  let isPlaceholder ← ahead (Ahead.word "_")
  let (name, _) ← if isPlaceholder then anyIdent else rawIdent
  punct ":"
  let isAnonymous ← ahead fun tokens => isPlaceholder && (Ahead.word "struct" tokens ||
    (Ahead.word "union" tokens && Ahead.group .brace (tokens.drop 1)))
  let type ← if isAnonymous then
      verbatim do
        let _ ← anyIdent
        let _ ← fields
        return TypeExpr.other
    else do pure (← g.type true).1
  return ⟨attributes, seen == .everyone, some name, type, (← get).stop⟩

/-- Fields with names between braces, nested at most `depth` times. -/
def namedFieldsUpTo (g : Grammar) : (depth : Nat) → Reader (List Field)
  | 0 => failure
  | depth + 1 => group .brace (separated "," (namedField g (namedFieldsUpTo g depth)))

/-- Fields with names between braces. -/
def namedFields (g : Grammar) : Reader (List Field) := do
  namedFieldsUpTo g (Token.sizes (← get).rest)

/-- A field of a tuple. -/
def unnamedField (g : Grammar) : Reader Field := do
  let attributes ← outerAttributes g
  let seen ← visibility
  let (type, _) ← g.type true
  return ⟨attributes, seen == .everyone, none, type, (← get).stop⟩

/-- The fields of a tuple between parentheses. -/
def unnamedFields (g : Grammar) : Reader (List Field) :=
  group .paren (separated "," (unnamedField g))

/-- The fields of a structure up to its end. -/
def structFields (g : Grammar) : Reader Fields := do
  let restricted ← whereClause? g
  if !restricted && (← ahead (Ahead.group .paren)) then
    let fields ← unnamedFields g
    let _ ← whereClause? g
    punct ";"
    return .unnamed fields
  if ← ahead (Ahead.group .brace) then return .named (← namedFields g)
  punct ";"
  return .unit

/-- A structure. -/
def structItem (g : Grammar) : Reader ReadItem := do
  let _ ← visibility
  word "struct"
  let name ← ident
  let parameters ← generics g
  return ⟨some (.struct name (parameters.getD []) (← structFields g)), []⟩

/-- A variant of an enumeration. -/
def variant (g : Grammar) : Reader Variant := do
  let attributes ← outerAttributes g
  let _ ← visibility
  let name ← ident
  let isUnit ← if ← ahead (Ahead.group .brace) then do
      let _ ← namedFields g
      pure false
    else if ← ahead (Ahead.group .paren) then do
      let _ ← unnamedFields g
      pure false
    else pure true
  if ← punct? "=" then
    let _ ← g.expr true
  return ⟨attributes, name, isUnit⟩

/-- An enumeration. -/
def enumItem (g : Grammar) : Reader ReadItem := do
  let _ ← visibility
  word "enum"
  let name ← ident
  let _ ← generics g
  let _ ← whereClause? g
  return ⟨some (.enum name (← group .brace (separated "," (variant g)))), []⟩

/-- A union. -/
def unionItem (g : Grammar) : Reader ReadItem := do
  let _ ← visibility
  word "union"
  let _ ← rawIdent
  let _ ← generics g
  let _ ← whereClause? g
  let _ ← namedFields g
  return ⟨some .documented, []⟩

/-! ## Macro calls -/

/-- A semicolon that is only needed where no brace ends a macro call. -/
def macroEnd (hasBraces : Bool) : Reader Unit := do
  if !hasBraces then punct ";"

/-- A macro call among other items. -/
def macroCall : Reader Unit := do
  let _ ← plainPath
  macroEnd (← macroArguments)

/-- A macro call as an item, where a name may come before the arguments. -/
def macroItem : Reader ReadItem := do
  let _ ← plainPath
  punct "!"
  if ← ahead fun tokens => Ahead.ident tokens || Ahead.word "try" tokens then
    let _ ← anyIdent
  let (delimiter, _) ← anyGroup
  macroEnd (delimiter == .brace)
  return ⟨some .documented, []⟩

/-- The definition of a macro by a keyword. -/
def macroDefinition : Reader ReadItem := do
  let _ ← visibility
  word "macro"
  let _ ← rawIdent
  if ← ahead (Ahead.group .paren) then
    let _ ← anyGroup
  if !(← ahead (Ahead.group .brace)) then failure
  let _ ← anyGroup
  return ⟨none, []⟩

/-! ## Items of implementations, traits and foreign blocks -/

/-- A method with the attributes before it: it is found unless it has no kind. -/
def method (before : Cursor) (attributes : List Attribute) (reader : Reader ReadItem) :
    Reader Unit := do
  let (item, nested) ← collecting reader
  match item.kind? with
  | some kind => find ⟨attributes ++ item.inner, kind, nested⟩
  | none => asWritten before

/-- An item of an implementation. -/
def implItem (g : Grammar) : Reader Unit := do
  let before ← get
  let attributes ← outerAttributes g
  let (seen, tokens) ← afterVisibility
  let isDefault := Ahead.word "default" tokens && !Ahead.punct "!" (tokens.drop 1)
  let tokens := if isDefault then tokens.drop 1 else tokens
  if functionAhead false tokens then
    method before attributes do
      let _ ← visibility
      let _ ← word? "default"
      let _ ← signature g false
      if ← punct? ";" then return ⟨none, []⟩
      return ⟨some .documented, ← body g⟩
  else if Ahead.word "const" tokens then
    let _ ← visibility
    if isDefault then word "default"
    word "const"
    if (← constant g).isNone then asWritten before
  else if Ahead.word "type" tokens then
    if (← typeDefinition g true .after).isNone then asWritten before
  else if seen == .inherited && !isDefault && Ahead.macroPath tokens then macroCall
  else failure

/-- An item of a trait. One with a visibility or a default mark is only let through. -/
def traitItem (g : Grammar) : Reader Unit := do
  let before ← get
  let attributes ← outerAttributes g
  let seen ← visibility
  let isDefault ← word? "default"
  let tokens := (← get).rest
  let isPlain := seen == .inherited && !isDefault
  if functionAhead false tokens then
    method before attributes do
      let _ ← signature g false
      let inner ← if ← punct? ";" then pure [] else body g
      return ⟨if isPlain then some .documented else none, inner⟩
  else if Ahead.word "const" tokens then
    word "const"
    if !(← ahead fun tokens => Ahead.ident tokens || Ahead.word "_" tokens) then failure
    let _ ← anyIdent
    let parameters ← generics g
    punct ":"
    let _ ← g.type true
    if ← punct? "=" then
      let _ ← g.expr true
    let restricted ← whereClause? g
    punct ";"
    if parameters.isSome || restricted || !isPlain then asWritten before
  else if Ahead.word "type" tokens then
    let _ ← typeDefinition g false .after
    if !isPlain then asWritten before
  else if isPlain && Ahead.macroPath tokens then macroCall
  else failure

/-- An item of a foreign block. -/
def foreignItem (g : Grammar) : Reader Unit := do
  let before ← get
  let _ ← outerAttributes g
  let (seen, tokens) ← afterVisibility
  if functionAhead true tokens then
    let _ ← visibility
    let isSafe ← signature g true
    let hasBody ← ahead (Ahead.group .brace)
    if hasBody then
      let _ ← body g
    else punct ";"
    if isSafe || hasBody then asWritten before
  else if Ahead.word "static" tokens ||
      (Ahead.words ["unsafe", "safe"] tokens && Ahead.word "static" (tokens.drop 1)) then
    let _ ← visibility
    let isMarked ← if ← word? "unsafe" then pure true else word? "safe"
    word "static"
    let _ ← word? "mut"
    let _ ← rawIdent
    punct ":"
    let _ ← g.type true
    let hasValue ← punct? "="
    if hasValue then
      let _ ← g.expr true
    punct ";"
    if isMarked || hasValue then asWritten before
  else if Ahead.word "type" tokens then
    let _ ← typeDefinition g false .both
  else if seen == .inherited && Ahead.macroPath tokens then macroCall
  else failure

/-- Items between braces, with the attributes at their beginning. -/
def itemsWithin (g : Grammar) (element : Reader Unit) : Reader (List Attribute) :=
  group .brace do
    let inner ← innerAttributes g
    let _ ← many element
    return inner

/-! ## Traits, implementations and modules -/

/-- An implementation. One with a visibility, of a constant trait, or of something that is no trait
is only let through. -/
def implementation (g : Grammar) : Reader ReadItem := do
  let seen ← visibility
  let _ ← word? "default"
  let _ ← word? "unsafe"
  word "impl"
  if ← ahead genericsAhead then
    let _ ← generics g
  let isConst ← ahead fun tokens => Ahead.word "const" tokens ||
    (Ahead.punct "?" tokens && Ahead.word "const" (tokens.drop 1))
  if isConst then
    let _ ← punct? "?"
    word "const"
  let isNegative ← if ← second (Ahead.group .brace) then pure false else punct? "!"
  let (_, form) ← g.type true
  let ofTrait ← word? "for"
  if ofTrait then
    let _ ← g.type true
  else if isNegative then failure
  let _ ← whereClause? g
  let inner ← itemsWithin g (implItem g)
  let namesTrait := form = .name || form = .path
  let isPlain := seen == .inherited && !isConst && (!ofTrait || namesTrait)
  return ⟨if isPlain then some .documented else none, inner⟩

/-- A trait, or another name for bounds. -/
def traitDefinition (g : Grammar) : Reader ReadItem := do
  let _ ← visibility
  let isUnsafe ← word? "unsafe"
  let isAuto ← word? "auto"
  word "trait"
  let _ ← rawIdent
  let _ ← generics g
  if ← ahead fun tokens => !isUnsafe && !isAuto && Ahead.punct "=" tokens then
    punct "="
    let stop := fun tokens => Ahead.word "where" tokens || Ahead.punct ";" tokens
    let _ ← separatedUntil stop "+" (g.bound false true)
    let _ ← whereClause? g
    punct ";"
    return ⟨some .undocumented, []⟩
  if ← punct? ":" then
    let stop := fun tokens => Ahead.word "where" tokens || Ahead.group .brace tokens
    let _ ← separatedUntil stop "+" (g.bound false true)
  let _ ← whereClause? g
  return ⟨some .documented, ← itemsWithin g (traitItem g)⟩

/-- A module. Its name is kept as it is spelled. -/
def moduleItem (g : Grammar) : Reader ReadItem := do
  let _ ← visibility
  let _ ← word? "unsafe"
  word "mod"
  let (name, raw) ← if ← ahead (Ahead.word "try") then anyIdent else rawIdent
  let name := identSpelling name raw
  if ← punct? ";" then return ⟨some (.module name false), []⟩
  return ⟨some (.module name true), ← itemsWithin g (do find (← g.item))⟩

/-- A block of foreign items. -/
def foreignBlock (g : Grammar) : Reader ReadItem := do
  let _ ← word? "unsafe"
  if !(← ahead (Ahead.word "extern")) then failure
  callingConvention?
  return ⟨some .undocumented, ← itemsWithin g (foreignItem g)⟩

/-! ## Use declarations -/

/-- The new name after `as`. -/
def newName : Reader String := do
  if ← word? "_" then return "_"
  ident

/-- The trees of a group; nothing if one of them begins at the root. -/
def useTrees (g : Grammar) (rooted : Bool) : Reader (Option (List UseTree)) := do
  let trees ← separated "," do
    let atRoot ← if rooted then punct? "::" else pure false
    let tree? ← g.useTree (rooted && !atRoot)
    return if atRoot then none else tree?
  return trees.mapM id

/-- The tree of a use declaration. -/
def useTreeRule (g : Grammar) (rooted : Bool) : Reader (Option UseTree) := do
  if ← ahead fun tokens => Ahead.ident tokens ||
      Ahead.words ["self", "super", "crate", "try"] tokens then
    let (name, _) ← anyIdent
    if ← punct? "::" then return (← g.useTree false).map (.path name)
    if ← word? "as" then return some (.rename name (← newName))
    return some (.name name)
  if ← punct? "*" then return some .glob
  return (← group .brace (useTrees g rooted)).map .group

/-- A use declaration. -/
def useItem (g : Grammar) : Reader ReadItem := do
  let _ ← visibility
  word "use"
  let rooted ← punct? "::"
  let tree? ← g.useTree (!rooted)
  punct ";"
  return ⟨tree?.map .useDecl, []⟩

/-- The use of another crate under its name or a new one. -/
def externCrateItem : Reader ReadItem := do
  let _ ← visibility
  word "extern"
  word "crate"
  let (name, _) ← if ← ahead (Ahead.word "self") then anyIdent else rawIdent
  let newName? ← if ← word? "as" then do pure (some (← newName)) else pure none
  punct ";"
  return ⟨some (.externCrate name newName?), []⟩

/-! ## All items -/

/-- An item without the attributes before it. -/
def itemContent (g : Grammar) : Reader ReadItem := do
  let (seen, tokens) ← afterVisibility
  let after := tokens.drop 1
  if functionAhead false tokens then function g
  else if Ahead.word "extern" tokens then
    if Ahead.word "crate" after then externCrateItem
    else foreignBlock g
  else if Ahead.word "use" tokens then useItem g
  else if Ahead.word "static" tokens then staticItem g
  else if Ahead.word "const" tokens then constItem g
  else if Ahead.word "unsafe" tokens then
    if Ahead.word "trait" after || (Ahead.word "auto" after && Ahead.word "trait" (tokens.drop 2))
    then traitDefinition g
    else if Ahead.word "impl" after then implementation g
    else if Ahead.word "extern" after then foreignBlock g
    else if Ahead.word "mod" after then moduleItem g
    else failure
  else if Ahead.word "mod" tokens then moduleItem g
  else if Ahead.word "type" tokens then return ⟨← typeDefinition g false .before, []⟩
  else if Ahead.word "struct" tokens then structItem g
  else if Ahead.word "enum" tokens then enumItem g
  else if Ahead.word "union" tokens && Ahead.ident after then unionItem g
  else if Ahead.word "trait" tokens || (Ahead.word "auto" tokens && Ahead.word "trait" after) then
    traitDefinition g
  else if Ahead.word "impl" tokens ||
      (Ahead.word "default" tokens && !Ahead.punct "!" after) then implementation g
  else if Ahead.word "macro" tokens then macroDefinition
  else if seen == .inherited && Ahead.macroPath tokens then macroItem
  else failure

/-- An item after the attributes before it, which began at a former cursor. -/
def itemAfter (g : Grammar) (before : Cursor) (attributes : List Attribute) : Reader Item := do
  let (item, nested) ← collecting (itemContent g)
  match item.kind? with
  | some kind => return ⟨attributes ++ item.inner, kind, nested⟩
  | none =>
    asWritten before
    return ⟨attributes, .undocumented, []⟩

/-- An item. -/
def itemRule (g : Grammar) : Reader Item := do
  let before ← get
  itemAfter g before (← outerAttributes g)

/-! ## Tying the rules together -/

/-- The rules over a grammar for their parts. -/
def layer (parts : Unit → Grammar) : Grammar where
  type := fun plus cursor => typeRule (parts ()) plus cursor
  bound := fun capture const cursor => boundRule (parts ()) capture const cursor
  pattern := fun cursor => patternRule (parts ()) cursor
  expr := fun braces cursor => exprRule (parts ()) braces cursor
  operand := fun braces cursor => operandRule (parts ()) braces cursor
  binary := fun braces level left cursor => binaryRule (parts ()) braces level left cursor
  bounded := fun cursor => boundedRule (parts ()) cursor
  statements := fun cursor => statementsWith (parts ()) (itemAfter (parts ())) cursor
  item := fun cursor => itemRule (parts ()) cursor
  useTree := fun rooted cursor => useTreeRule (parts ()) rooted cursor

/-- The grammar for what is nested at most `depth` times. -/
def upTo : (depth : Nat) → Grammar
  | 0 => empty
  | depth + 1 => layer fun _ => upTo depth

/-- The grammar for given tokens: rules nest only a few times before the next token is taken. -/
def forTokens (tokens : List Token) : Grammar := upTo (8 * (Token.sizes tokens + 2))

end ApiDocs.Source.Grammar
