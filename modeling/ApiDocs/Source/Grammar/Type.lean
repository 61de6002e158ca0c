import ApiDocs.Source.Grammar.Attribute

/-!
# Paths, bounds and types
-/

namespace ApiDocs.Source

/-- The arguments of a name in a path. -/
inductive PathArguments where
  | none
  /-- Arguments between angle brackets; only the types among them are kept. -/
  | angle (types : List TypeExpr) (isEmpty : Bool)
  | parenthesized

/-- A name in a path with its arguments. -/
structure PathSegment where
  name : String
  arguments : PathArguments

/-- A path. One that starts from a type between angle brackets is qualified, one that starts with
two colons is rooted. -/
structure PathExpr where
  qualified : Bool
  rooted : Bool
  segments : List PathSegment

namespace PathArguments

/-- Whether nothing was given. -/
def isEmpty : PathArguments → Bool
  | .none => true
  | .angle _ isEmpty => isEmpty
  | .parenthesized => false

/-- Whether there are none at all. -/
def isNone : PathArguments → Bool
  | .none => true
  | _ => false

/-- The types given between angle brackets. -/
def types : PathArguments → List TypeExpr
  | .angle types _ => types
  | _ => []

end PathArguments

namespace PathExpr

/-- The arguments of the last name. -/
def arguments (path : PathExpr) : PathArguments :=
  (path.segments.getLast?.map PathSegment.arguments).getD .none

/-- The path with one more name. -/
def push (path : PathExpr) (segment : PathSegment) : PathExpr :=
  { path with segments := path.segments ++ [segment] }

/-- The path with parenthesized arguments for its last name. -/
def parenthesized (path : PathExpr) : PathExpr :=
  { path with
    segments := match path.segments.getLast? with
      | some last => path.segments.dropLast ++ [{ last with arguments := .parenthesized }]
      | none => [] }

/-- Whether a macro may be called by the path. -/
def namesMacro (path : PathExpr) : Bool :=
  !path.qualified && path.segments.all (·.arguments.isNone)

/-- The path as a type. -/
def toType (path : PathExpr) : TypeExpr :=
  if path.qualified then .other
  else
    match path.segments, path.segments.getLast? with
    | [only], _ => .path none only.name only.arguments.types
    | first :: _, some last => .path (some first.name) last.name last.arguments.types
    | _, _ => .other

/-- The form of the path as a type. -/
def form (path : PathExpr) : TypeForm :=
  if path.qualified then .other
  else
    match path.rooted, path.segments with
    | false, [⟨_, .parenthesized⟩] => .path
    | false, [_] => .name
    | _, _ => .path

end PathExpr

namespace Grammar

open Reader

/-! ## Arguments -/

/-- What a constant argument begins with, unless it is a name. -/
def startsConstant (tokens : List Token) : Bool :=
  Ahead.literal tokens || Ahead.group .brace tokens

/-- A constant as an argument. -/
def constArgument (g : Grammar) : Reader Unit := do
  if ← ahead Ahead.literal then
    let _ ← literal
  else if ← ahead Ahead.ident then
    let _ ← rawIdent
  else
    let _ ← body g

/-- The type after an arrow, if there is one. -/
def returnType (g : Grammar) (plus : Bool) : Reader (Option TypeExpr) := do
  if ← punct? "->" then return some (← g.type plus).1
  return none

/-- Types between parentheses, and the type after an arrow. -/
def parenthesizedArguments (g : Grammar) : Reader (Option TypeExpr) := do
  let _ ← group .paren (separated "," (g.type true))
  returnType g false

/-- Whether parenthesized arguments come. -/
def parenthesesAhead (tokens : List Token) : Bool :=
  Ahead.group .paren tokens || (Ahead.punct "::" tokens && Ahead.group .paren (tokens.drop 2))

/-- An argument between angle brackets; the type, if it is one. -/
def genericArgument (g : Grammar) : Reader (Option TypeExpr) := do
  if (← ahead Ahead.lifetime) && !(← second (Ahead.punct "+")) then
    lifetime
    return none
  if ← ahead startsConstant then
    constArgument g
    return none
  let (type, form) ← g.type true
  if form = .name then
    if ← punct? "=" then
      if ← ahead startsConstant then constArgument g
      else
        let _ ← g.type true
      return none
    if ← punct? ":" then
      let _ ← joinedUntil (Ahead.anyPunct [",", ">"]) "+" (g.bound false true)
      return none
  return some type

/-- Arguments between angle brackets. -/
def angleArguments (g : Grammar) : Reader PathArguments := do
  punct "<"
  let arguments ← separatedUntil (Ahead.punct ">") "," (genericArgument g)
  punct ">"
  return .angle (arguments.filterMap id) arguments.isEmpty

/-! ## Paths -/

/-- A name in a path. Where values are meant, arguments need two colons before them. -/
def pathSegment (g : Grammar) (inValue : Bool) : Reader PathSegment := do
  if ← ahead (Ahead.words ["super", "self", "crate", "try"]) then
    return ⟨(← anyIdent).1, .none⟩
  let (name, _) ← if ← ahead (Ahead.word "Self") then anyIdent else rawIdent
  let hasArguments ← ahead fun tokens =>
    (!inValue && Ahead.punct "<" tokens && !Ahead.punct "<=" tokens) ||
      (Ahead.punct "::" tokens && Ahead.punct "<" (tokens.drop 2))
  if hasArguments then
    let _ ← punct? "::"
    return ⟨name, ← angleArguments g⟩
  return ⟨name, .none⟩

/-- The names of a path after its beginning, up to parentheses. -/
def pathRest (g : Grammar) (inValue : Bool) (path : PathExpr) : Reader PathExpr :=
  loop path fun path => do
    if (← ahead (Ahead.punct "::")) && !(← third (Ahead.group .paren)) then
      punct "::"
      return .next (path.push (← pathSegment g inValue))
    return .done path

/-- A path that is not qualified. -/
def path (g : Grammar) (inValue : Bool) : Reader PathExpr := do
  let rooted ← punct? "::"
  let first ← pathSegment g inValue
  pathRest g inValue ⟨false, rooted, [first]⟩

/-- A path that may be qualified by a type between angle brackets. -/
def qualifiedPath (g : Grammar) (inValue : Bool) : Reader PathExpr := do
  if ← punct? "<" then
    let _ ← g.type true
    if ← word? "as" then
      let _ ← path g false
    punct ">"
    punct "::"
    loop (⟨true, false, []⟩ : PathExpr) fun path => do
      let path := path.push (← pathSegment g inValue)
      if ← punct? "::" then return .next path
      return .done path
  else path g inValue

/-- A path as a type, where arguments may also be in parentheses. -/
def typePath (g : Grammar) : Reader PathExpr := do
  loop (← qualifiedPath g false) fun path => do
    if path.arguments.isEmpty && (← ahead parenthesesAhead) then
      let _ ← punct? "::"
      match ← parenthesizedArguments g with
      | none | some (.paren _) => return .next (← pathRest g false path.parenthesized)
      | some _ => return .next path.parenthesized
    return .done path

/-! ## Parameters -/

/-- The bounds and the default of a type parameter. -/
def parameterRest (g : Grammar) : Reader Unit := do
  if ← punct? ":" then
    let _ ← joinedUntil (Ahead.anyPunct [",", ">", "="]) "+" (g.bound false true)
  if ← punct? "=" then
    let _ ← g.type true

/-- A parameter; the spelling of a type parameter's name. Some places allow a placeholder. -/
def genericParameter (g : Grammar) (placeholder : Bool) : Reader (Option String) := do
  let _ ← outerAttributes g
  if ← lifetime? then
    if ← punct? ":" then
      let _ ← joinedUntil (Ahead.anyPunct [",", ">"]) "+" lifetime
    return none
  if ← ahead Ahead.ident then
    let (name, raw) ← rawIdent
    parameterRest g
    return some (identSpelling name raw)
  if ← word? "const" then
    let _ ← rawIdent
    punct ":"
    let _ ← g.type true
    if ← punct? "=" then constArgument g
    return none
  if placeholder then
    word "_"
    return some "_"
  failure

/-- The parameters of an item, if it has any: the names of the type parameters. -/
def generics (g : Grammar) : Reader (Option (List String)) := do
  if ← punct? "<" then
    let parameters ← separatedUntil (Ahead.punct ">") "," (genericParameter g true)
    punct ">"
    return some (parameters.filterMap id)
  return none

/-- Whether parameters come rather than a qualified path. -/
def genericsAhead (tokens : List Token) : Bool :=
  let inner := tokens.drop 1
  let after := tokens.drop 2
  Ahead.punct "<" tokens &&
    (Ahead.anyPunct [">", "#"] inner ||
      ((Ahead.lifetime inner || Ahead.ident inner) &&
        (Ahead.anyPunct [">", ",", "="] after ||
          (Ahead.punct ":" after && !Ahead.punct "::" after))) ||
      Ahead.word "const" inner)

/-- The parameters after `for`, if they come. -/
def quantifier? (g : Grammar) : Reader Bool := do
  if ← word? "for" then
    punct "<"
    let _ ← separatedUntil (Ahead.punct ">") "," (genericParameter g false)
    punct ">"
    return true
  return false

/-! ## Bounds -/

/-- The names between angle brackets that a type captures. -/
def captured : Reader Unit := do
  word "use"
  punct "<"
  let _ ← separatedUntil (Ahead.punct ">") "," do
    if !(← lifetime?) then
      if !(← ahead fun tokens => Ahead.ident tokens || Ahead.word "Self" tokens) then failure
      let _ ← anyIdent
  punct ">"

/-- A trait as a bound; whether it is constant. -/
def traitBound (g : Grammar) (const : Bool) : Reader Bool := do
  let quantified ← quantifier? g
  let isConst ← if ← ahead (Ahead.group .bracket) then do
      group .bracket (word "const")
      pure true
    else word? "const"
  if isConst && !const then failure
  if ← punct? "?" then
    if !quantified then
      let _ ← quantifier? g
  let path ← path g false
  if path.arguments.isEmpty && (← ahead parenthesesAhead) then
    let _ ← punct? "::"
    let _ ← parenthesizedArguments g
  return isConst

/-- A bound, and whether it is a trait. -/
def boundRule (g : Grammar) (capture const : Bool) : Reader Bool := do
  if ← lifetime? then return false
  if ← ahead (Ahead.word "use") then
    if !capture then failure
    captured
    return false
  let before ← get
  let isConst ← if ← ahead (Ahead.group .paren) then group .paren (traitBound g const)
    else traitBound g const
  if isConst then asWritten before
  return true

/-- What a further bound may begin with. -/
def startsBound (const : Bool) (tokens : List Token) : Bool :=
  Ahead.anyIdent tokens || Ahead.anyPunct ["::", "?"] tokens || Ahead.lifetime tokens ||
    Ahead.group .paren tokens ||
    (const && (Ahead.group .bracket tokens || Ahead.word "const" tokens))

/-- Bounds of a type, where one of them must be a trait. -/
def typeBounds (g : Grammar) (plus capture const : Bool) : Reader Unit := do
  let hasTrait ← loop false fun hasTrait => do
    let hasTrait := (← g.bound capture const) || hasTrait
    if !plus then return .done hasTrait
    if !(← punct? "+") then return .done hasTrait
    if ← ahead (startsBound const) then return .next hasTrait
    return .done hasTrait
  if !hasTrait then failure

/-- A where clause, if it comes. -/
def whereClause? (g : Grammar) : Reader Bool := do
  let stop := fun tokens => tokens.isEmpty || Ahead.group .brace tokens ||
    Ahead.anyPunct [",", ";", "="] tokens || (Ahead.punct ":" tokens && !Ahead.punct "::" tokens)
  if ← word? "where" then
    let _ ← joinedUntil stop "," do
      if (← ahead Ahead.lifetime) && (← second (Ahead.punct ":")) then
        lifetime
        punct ":"
        let _ ← joinedUntil (fun tokens => stop tokens || Ahead.punct ":" tokens) "+" lifetime
      else
        let _ ← quantifier? g
        let _ ← g.type true
        punct ":"
        let _ ← joinedUntil stop "+" (g.bound false true)
    return true
  return false

/-! ## Types -/

/-- The way functions are called, if it is given. -/
def callingConvention? : Reader Unit := do
  if ← word? "extern" then
    if ← ahead Ahead.text then
      let _ ← literalToken

/-- A parameter of a function type. -/
def functionTypeParameter (g : Grammar) (isFirst : Bool) : Reader Unit := do
  let startsMutSelf := fun tokens =>
    isFirst && Ahead.word "mut" tokens && Ahead.word "self" (tokens.drop 1)
  let mutSelf ← ahead startsMutSelf
  if mutSelf then word "mut"
  let isNamed ← ahead fun tokens =>
    (Ahead.ident tokens || Ahead.word "_" tokens || (isFirst && Ahead.word "self" tokens)) &&
      Ahead.punct ":" (tokens.drop 1) && !Ahead.punct "::" (tokens.drop 1)
  let namedSelf ← ahead fun tokens => isNamed && Ahead.word "self" tokens
  if isNamed then
    let _ ← anyIdent
    punct ":"
  if !namedSelf && (← ahead startsMutSelf) then
    word "mut"
    word "self"
  else if mutSelf && !isNamed then word "self"
  else
    let _ ← g.type true

/-- The parameters of a function type. -/
def functionTypeParameters (g : Grammar) : Reader Unit :=
  loop true fun isFirst => do
    if ← atEnd then return .done ()
    let _ ← outerAttributes g
    let isNamed ← ahead fun tokens =>
      (Ahead.ident tokens || Ahead.word "_" tokens) && Ahead.punct ":" (tokens.drop 1) &&
        Ahead.punct "..." (tokens.drop 2)
    if isNamed then
      let _ ← anyIdent
      punct ":"
    if ← punct? "..." then
      let _ ← punct? ","
      return .done ()
    functionTypeParameter g isFirst
    if ← atEnd then return .done ()
    punct ","
    return .next false

/-- A function type. -/
def functionType (g : Grammar) : Reader Unit := do
  let _ ← word? "unsafe"
  callingConvention?
  word "fn"
  group .paren (functionTypeParameters g)
  let _ ← returnType g false

/-- What stands between the parentheses of a type. -/
inductive ParenContent where
  /-- A tuple, or something that no bounds can be added to. -/
  | closed (type : TypeExpr)
  /-- A bound. -/
  | bound
  /-- One type. -/
  | single (type : TypeExpr) (form : TypeForm)

/-- Reads what stands between the parentheses of a type. -/
def parenContent (g : Grammar) : Reader ParenContent := do
  if ← atEnd then return .closed (.tuple true)
  if ← ahead Ahead.lifetime then
    typeBounds g true false false
    return .closed (.paren .other)
  if ← ahead (Ahead.punct "?") then
    let _ ← traitBound g false
    return .bound
  let (type, form) ← g.type true
  if ← punct? "," then
    let _ ← separated "," (g.type true)
    return .closed (.tuple false)
  return .single type form

/-- Bounds that are added to one, each after a plus sign; whether there are any. -/
def addedBounds (g : Grammar) : Reader Bool :=
  loop false fun added => do
    if ← punct? "+" then
      let _ ← g.bound false false
      return .next true
    return .done added

/-- A type that begins with parentheses. -/
def parenType (g : Grammar) (plus : Bool) : Reader (TypeExpr × TypeForm) := do
  match ← group .paren (parenContent g) with
  | .closed type => return (type, .other)
  | .bound => return (.other, if ← addedBounds g then .other else .bound)
  | .single type form =>
    if plus && form != .other && (← ahead (Ahead.punct "+")) then
      let _ ← addedBounds g
      return (.other, .other)
    return (.paren type, .other)

/-- A type that begins with a path. -/
def pathType (g : Grammar) (plus quantified : Bool) : Reader (TypeExpr × TypeForm) := do
  let path ← typePath g
  if path.namesMacro && (← ahead fun tokens => Ahead.punct "!" tokens && !Ahead.punct "!=" tokens)
  then
    let _ ← macroArguments
    return (.other, .other)
  if path.qualified then return (.other, .other)
  let isSum ← ahead fun tokens => plus && Ahead.punct "+" tokens
  if isSum then
    loop () fun _ => do
      if !(← punct? "+") then return .done ()
      if !(← ahead (startsBound false)) then return .done ()
      let _ ← g.bound false false
      return .next ()
    return (.other, .other)
  if quantified then return (.other, .bound)
  return (path.toType, path.form)

/-- What a path begins with. -/
def startsPath (tokens : List Token) : Bool :=
  Ahead.ident tokens || Ahead.words ["super", "self", "Self", "crate"] tokens ||
    Ahead.anyPunct ["::", "<"] tokens

/-- A type. -/
def typeRule (g : Grammar) (plus : Bool) : Reader (TypeExpr × TypeForm) := do
  let before ← get
  let quantified ← quantifier? g
  let mayFollow := fun tokens => Ahead.ident tokens ||
    Ahead.words ["fn", "unsafe", "extern", "super", "self", "Self", "crate"] tokens
  if quantified && !(← ahead mayFollow) then failure
  if ← ahead (Ahead.group .paren) then parenType g plus
  else if ← ahead (Ahead.words ["fn", "unsafe", "extern"]) then
    functionType g
    return (.other, .other)
  else if ← ahead startsPath then pathType g plus quantified
  else if ← word? "dyn" then
    let starred ← punct? "*"
    typeBounds g plus false false
    if starred then asWritten before
    return (.other, .other)
  else if ← ahead (Ahead.group .bracket) then
    group .bracket do
      let (element, _) ← g.type true
      if ← punct? ";" then
        let _ ← g.expr true
        return (.array element, .other)
      return (.slice element, .other)
  else if ← punct? "*" then
    if !(← word? "const") then word "mut"
    return (.pointer (← g.type false).1, .other)
  else if ← punct? "&" then
    let _ ← lifetime?
    let _ ← word? "mut"
    return (.reference (← g.type false).1, .other)
  else if ← punct? "!" then return (.other, .other)
  else if ← word? "impl" then
    typeBounds g plus true true
    return (.other, .other)
  else if ← word? "_" then return (.other, .other)
  else
    if !(← ahead Ahead.lifetime) then failure
    typeBounds g true false false
    return (.other, .other)

end Grammar

end ApiDocs.Source
