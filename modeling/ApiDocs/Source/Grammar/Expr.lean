import ApiDocs.Source.Grammar.Pattern

/-!
# Expressions
-/

namespace ApiDocs.Source.Grammar

open Reader

/-! ## Levels of operators -/

namespace Level

/-- The level that every operator reaches. -/
def any : Nat := 0

/-- Assignments. -/
def assignment : Nat := 1

/-- Ranges. -/
def range : Nat := 2

/-- Comparisons. -/
def comparison : Nat := 6

/-- Conversions. -/
def conversion : Nat := 13

/-- The operators between two operands with their levels, those first that begin like others. -/
def operators : List (String × Nat) :=
  [("+=", assignment), ("-=", assignment), ("*=", assignment), ("/=", assignment),
   ("%=", assignment), ("^=", assignment), ("&=", assignment), ("|=", assignment),
   ("<<=", assignment), (">>=", assignment), ("&&", 4), ("||", 3), ("<<", 10), (">>", 10),
   ("==", comparison), ("<=", comparison), ("!=", comparison), (">=", comparison), ("+", 11),
   ("-", 11), ("*", 12), ("/", 12), ("%", 12), ("^", 8), ("&", 9), ("|", 7), ("<", comparison),
   (">", comparison)]

/-- The operator that comes, with its level. -/
def operator? (tokens : List Token) : Option (String × Nat) :=
  operators.find? fun (op, _) => Ahead.punct op tokens

/-- Whether an assignment comes. -/
def assigns (tokens : List Token) : Bool := Ahead.punct "=" tokens && !Ahead.punct "=>" tokens

/-- The level of what comes. -/
def ofTokens (tokens : List Token) : Nat :=
  match operator? tokens with
  | some (_, level) => level
  | none =>
    if assigns tokens then assignment
    else if Ahead.punct ".." tokens then range
    else if Ahead.word "as" tokens then conversion
    else any

end Level

/-! ## What comes -/

/-- A dot that is not the first of two. -/
def dotAhead (tokens : List Token) : Bool := Ahead.punct "." tokens && !Ahead.punct ".." tokens

/-- Whether an expression can begin. -/
def startsExpr (tokens : List Token) : Bool :=
  (Ahead.anyIdent tokens && !Ahead.word "as" tokens) || Ahead.anyGroup tokens ||
    Ahead.literal tokens ||
    (Ahead.punct "!" tokens && !Ahead.punct "!=" tokens) ||
    (Ahead.punct "-" tokens && !Ahead.anyPunct ["-=", "->"] tokens) ||
    (Ahead.punct "*" tokens && !Ahead.punct "*=" tokens) ||
    (Ahead.punct "|" tokens && !Ahead.punct "|=" tokens) ||
    (Ahead.punct "&" tokens && !Ahead.punct "&=" tokens) ||
    (Ahead.punct "<" tokens && !Ahead.anyPunct ["<=", "<<="] tokens) ||
    Ahead.anyPunct ["..", "::", "#"] tokens || Ahead.lifetime tokens

/-- Whether a range has no upper bound. -/
def rangeEnds (braces : Bool) (tokens : List Token) : Bool :=
  tokens.isEmpty || dotAhead tokens ||
    Ahead.anyPunct [",", ";", "?", "=>", "=", "+", "/", "%", "^", ">", "<=", "!=", "-=", "*=",
      "&=", "|=", "<<="] tokens ||
    (!braces && Ahead.group .brace tokens) || Ahead.word "as" tokens

/-- Whether parameters come after `for`. -/
def quantifierAhead (tokens : List Token) : Bool :=
  Ahead.word "for" tokens && genericsAhead (tokens.drop 1)

/-- Whether a function without name comes. -/
def startsClosure (tokens : List Token) : Bool :=
  let after := tokens.drop 1
  Ahead.punct "|" tokens || Ahead.words ["move", "static"] tokens || quantifierAhead tokens ||
    (Ahead.word "const" tokens && !Ahead.group .brace after) ||
    (Ahead.word "async" tokens && (Ahead.punct "|" after || Ahead.word "move" after))

/-! ## Operators between operands -/

/-- The right operand of an operator. -/
def rightOperand (g : Grammar) (braces : Bool) (level : Nat) : Reader Unit := do
  loop (← g.operand braces) fun operand => do
    let next := Level.ofTokens (← get).rest
    if next > level || (next = level && level = Level.assignment) then
      let before := (← get).rest.length
      let operand ← g.binary braces next operand
      if (← get).rest.length = before then return .done ()
      return .next operand
    return .done ()

/-- The upper bound of a range after its dots. -/
def rangeEnd (g : Grammar) (braces : Bool) : Reader Unit := do
  let isClosed ← rangeLimits false
  if isClosed || !(← ahead (rangeEnds braces)) then rightOperand g braces Level.range

/-- What may not come after a conversion. -/
def followsConversion (tokens : List Token) : Bool :=
  dotAhead tokens || Ahead.punct "?" tokens || Ahead.group .bracket tokens ||
    Ahead.group .paren tokens

/-- What follows a left operand, with operators of at least the given level. -/
def binaryRule (g : Grammar) (braces : Bool) (level : Nat) (left : ReadExpr) : Reader ReadExpr :=
  loop left fun left => do
    let tokens := (← get).rest
    if left.form = .range then return .done left
    match Level.operator? tokens with
    | some (op, next) =>
      if next < level then return .done left
      if next = Level.comparison && left.form = .comparison then failure
      punct op
      rightOperand g braces next
      return .next (.ofForm (if next = Level.comparison then .comparison else .plain))
    | none =>
      if Level.assignment ≥ level && Level.assigns tokens then
        punct "="
        rightOperand g braces Level.assignment
        return .next .plain
      else if Level.range ≥ level && Ahead.punct ".." tokens then
        rangeEnd g braces
        return .next (.ofForm .range)
      else if Level.conversion ≥ level && Ahead.word "as" tokens then
        word "as"
        let _ ← g.type false
        if ← ahead followsConversion then failure
        return .next .plain
      else return .done left

/-! ## Blocks -/

/-- Whether something with a block comes that may stand as a statement by itself, labels apart. -/
def startsBlock (tokens : List Token) : Bool :=
  let after := tokens.drop 1
  Ahead.words ["if", "while", "loop", "match", "unsafe"] tokens ||
    (Ahead.word "for" tokens && !genericsAhead after) ||
    (Ahead.words ["try", "const"] tokens && Ahead.group .brace after) ||
    Ahead.group .brace tokens

/-- A condition with its block, and the alternatives after `else`. -/
def conditional (g : Grammar) : Reader Unit :=
  loop () fun _ => do
    word "if"
    let _ ← g.expr false
    block g
    if ← word? "else" then
      if ← ahead (Ahead.word "if") then return .next ()
      block g
    return .done ()

/-- A loop. -/
def repetition (g : Grammar) : Reader Unit := do
  if ← word? "while" then
    let _ ← g.expr false
  else if ← word? "for" then
    let _ ← alternatives g
    word "in"
    let _ ← g.expr false
  else word "loop"
  let _ ← body g

/-- An arm of a match. -/
def arm (g : Grammar) : Reader Unit := do
  let _ ← outerAttributes g
  let _ ← alternatives g
  if ← word? "if" then
    let _ ← g.expr true
  punct "=>"
  let result ← g.bounded
  if result.form != .block && !(← atEnd) then punct ","
  else
    let _ ← punct? ","

/-- A match. -/
def selection (g : Grammar) : Reader Unit := do
  word "match"
  let _ ← g.expr false
  group .brace do
    let _ ← innerAttributes g
    let _ ← many (arm g)

/-! ## Operators after operands -/

/-- Expressions between parentheses or brackets. -/
def elements (g : Grammar) : Reader (List Expr) := do
  return (← separated "," (g.expr true)).map ReadExpr.value

/-- The numbers of fields that are written like a number with a point; whether a dot is left that
belongs to what follows. -/
def fieldNumbers (spelling : List Char) : Option (List Nat × Bool) := do
  let dotted := spelling.getLast? = some '.'
  let parts := (if dotted then spelling.dropLast else spelling).splitOn '.'
  return (← parts.mapM fieldNumber?, dotted)

/-- Takes a number with a point as the numbers of fields. -/
def takeFieldNumbers (spelling : String) : Reader Bool := do
  match fieldNumbers spelling.toList with
  | none => failure
  | some (numbers, dotted) =>
    takeAs 1 (".".intercalate (numbers.map toString))
    modify fun cursor =>
      let pieces := (numbers.map fun number => Piece.word (toString number) false).intersperse
        (.word "." false)
      { cursor with
        taken := (if dotted then [Piece.word "." false] else []) ++ pieces.reverse ++
          cursor.taken.drop 1 }
    return dotted

/-- A field, a method call or an awaited value after its dot. -/
def memberAccess (g : Grammar) : Reader Unit := do
  let dotted ← match (← get).rest with
    | .literal value _ :: _ =>
      if value.kind = .float then takeFieldNumbers value.spelling else pure true
    | _ => pure true
  if dotted then
    if !(← word? "await") then
      let isNamed ← member
      if isNamed then
        let turbofish ← punct? "::"
        if turbofish then
          let _ ← angleArguments g
        if turbofish || (← ahead (Ahead.group .paren)) then
          let _ ← group .paren (elements g)

/-- What follows an operand: calls, fields, indices and question marks. -/
def trailers (g : Grammar) (operand : ReadExpr) : Reader ReadExpr :=
  loop operand fun operand => do
    if ← ahead (Ahead.group .paren) then
      return .next ⟨.call (← group .paren (elements g)) [], .plain⟩
    else if operand.form != .range && (← ahead dotAhead) then
      punct "."
      memberAccess g
      return .next .plain
    else if ← ahead (Ahead.group .bracket) then
      let _ ← group .bracket (g.expr true)
      return .next .plain
    else if operand.form != .range && (← ahead (Ahead.punct "?")) then
      punct "?"
      return .next .plain
    else return .done operand

/-! ## Operands -/

/-- Something with a block that may stand as a statement by itself, labels apart. -/
def blockExpr (g : Grammar) : Reader Unit := do
  if ← ahead (Ahead.word "if") then conditional g
  else if ← ahead (Ahead.words ["while", "for", "loop"]) then repetition g
  else if ← ahead (Ahead.word "match") then selection g
  else if ← word? "try" then block g
  else if ← ahead (Ahead.words ["unsafe", "const"]) then
    let _ ← anyIdent
    let _ ← body g
  else
    let _ ← body g

/-- A loop or block with a label. -/
def labelled (g : Grammar) : Reader Unit := do
  lifetime
  punct ":"
  if ← ahead (Ahead.words ["while", "for", "loop"]) then repetition g
  else
    let _ ← body g

/-- What may stand as a statement by itself, if it comes. -/
def standsAlone (g : Grammar) : Reader (Option ReadExpr) := do
  if ← ahead startsBlock then
    blockExpr g
    return some (.ofForm .block)
  else if ← ahead Ahead.lifetime then
    labelled g
    return some (.ofForm .block)
  else return none

/-- A function without name. -/
def closure (g : Grammar) (braces : Bool) : Reader Unit := do
  let _ ← quantifier? g
  let _ ← word? "const"
  let _ ← word? "static"
  let _ ← word? "async"
  let _ ← word? "move"
  punct "|"
  let _ ← separatedUntil (Ahead.punct "|") "," do
    let _ ← outerAttributes g
    let _ ← g.pattern
    if ← punct? ":" then
      let _ ← g.type true
  punct "|"
  if (← returnType g true).isSome then block g
  else
    let _ ← g.expr braces

/-- The fields of a value between braces. -/
def fieldValues (g : Grammar) : Reader Unit :=
  loop () fun _ => do
    if ← atEnd then return .done ()
    if ← punct? ".." then
      if !(← atEnd) then
        let _ ← g.expr true
      return .done ()
    let _ ← outerAttributes g
    let isNamed ← member
    if !isNamed || (← ahead (Ahead.punct ":")) then
      punct ":"
      let _ ← g.expr true
    if ← atEnd then return .done ()
    punct ","
    return .next ()

/-- A path, a macro call, or a value with named fields. -/
def pathExpr (g : Grammar) (braces : Bool) : Reader ReadExpr := do
  let path ← qualifiedPath g true
  if path.namesMacro && (← ahead fun tokens => Ahead.punct "!" tokens && !Ahead.punct "!=" tokens)
  then
    return .ofForm (if ← macroArguments then .bracedMacro else .plain)
  if ← ahead fun tokens => braces && Ahead.group .brace tokens then
    group .brace (fieldValues g)
  return .plain

/-- What stands between parentheses. -/
def parenExpr (g : Grammar) : Reader Expr := do
  if ← atEnd then return .tuple []
  let first := (← g.expr true).value
  if ← atEnd then return .paren first
  punct ","
  return .tuple (first :: (← elements g))

/-- What stands between brackets. -/
def bracketExpr (g : Grammar) : Reader Expr := do
  if ← atEnd then return .array []
  let first := (← g.expr true).value
  if ← punct? ";" then
    let _ ← g.expr true
    return .unprinted
  if ← atEnd then return .array [first]
  punct ","
  return .array (first :: (← elements g))

/-- The value that a jump carries, if there is one. -/
def jumpValue (g : Grammar) : Reader Unit := do
  if ← ahead startsExpr then
    let _ ← g.expr true

/-- A jump: `break`, `continue`, `return`, `yield` or `become`. -/
def jump (g : Grammar) (braces : Bool) : Reader Unit := do
  if ← word? "break" then
    let labelled ← lifetime?
    if labelled && (← ahead (Ahead.punct ":")) then failure
    if ← ahead fun tokens => braces || !Ahead.group .brace tokens then jumpValue g
  else if ← word? "continue" then
    let _ ← lifetime?
  else if ← ahead (Ahead.word "become") then
    verbatim do
      word "become"
      let _ ← g.expr true
  else
    let _ ← anyIdent
    jumpValue g

/-- The condition that something has a certain form. -/
def letCondition (g : Grammar) (braces : Bool) : Reader Unit := do
  word "let"
  let _ ← alternatives g
  punct "="
  let _ ← g.binary braces Level.comparison (← g.operand braces)

/-- A call that is built into the compiler. -/
def builtinCall : Reader Unit :=
  verbatim do
    word "builtin"
    punct "#"
    let _ ← rawIdent
    if !(← ahead (Ahead.group .paren)) then failure
    let _ ← anyGroup

/-- Whether a block without a value at hand comes. -/
def startsAsync (tokens : List Token) : Bool :=
  let after := tokens.drop 1
  Ahead.word "async" tokens && (Ahead.group .brace after ||
    (Ahead.word "move" after && Ahead.group .brace (tokens.drop 2)))

/-- Whether a path comes where a value is meant. -/
def startsPathExpr (tokens : List Token) : Bool :=
  startsPath tokens ||
    (Ahead.word "try" tokens && Ahead.anyPunct ["!", "::"] (tokens.drop 1))

/-- An operand without operators. -/
def atom (g : Grammar) (braces : Bool) : Reader ReadExpr := do
  if ← ahead Ahead.literal then return ⟨.ofLiteral (← literal), .plain⟩
  else if ← ahead startsAsync then
    word "async"
    let _ ← word? "move"
    block g
    return .plain
  else if ← ahead fun tokens => Ahead.word "try" tokens && Ahead.group .brace (tokens.drop 1) then
    blockExpr g
    return .ofForm .block
  else if ← ahead startsClosure then
    closure g braces
    return .plain
  else if ← ahead fun tokens => Ahead.word "builtin" tokens && Ahead.punct "#" (tokens.drop 1) then
    builtinCall
    return .plain
  else if ← ahead startsPathExpr then pathExpr g braces
  else if ← ahead (Ahead.group .paren) then return ⟨← group .paren (parenExpr g), .plain⟩
  else if ← ahead (Ahead.words ["break", "continue", "return", "yield", "become"]) then
    jump g braces
    return .plain
  else if ← ahead (Ahead.group .bracket) then return ⟨← group .bracket (bracketExpr g), .plain⟩
  else if ← ahead (Ahead.word "let") then
    letCondition g braces
    return .plain
  else if ← ahead (Ahead.punct "..") then
    rangeEnd g braces
    return .ofForm .range
  else if ← word? "_" then return .plain
  else
    match ← standsAlone g with
    | some alone => return alone
    | none => failure

/-- The operand of an operator, with how it is printed. -/
def printedOperand (g : Grammar) (braces : Bool) : Reader Expr := do
  let (operand, tokens) ← printing (g.operand braces)
  return operand.value.withTokens tokens

/-- A reference to an operand. -/
def referenceExpr (g : Grammar) (braces : Bool) : Reader ReadExpr := do
  punct "&"
  let raw ← if (← ahead (Ahead.word "raw")) && (← second (Ahead.words ["mut", "const"])) then
      word? "raw"
    else pure false
  let mutable ← word? "mut"
  if raw && !mutable then word "const"
  let operand ← printedOperand g braces
  return if raw then .plain else ⟨.reference operand, .plain⟩

/-! ## The rules -/

/-- An operand with the operators before and after it. -/
def operandRule (g : Grammar) (braces : Bool) : Reader ReadExpr := do
  let before ← get
  let attributes ← outerAttributes g
  if ← ahead (Ahead.punct "&") then referenceExpr g braces
  else if ← punct? "-" then return ⟨.negation (← printedOperand g braces), .plain⟩
  else if ← ahead (Ahead.anyPunct ["*", "!"]) then
    if !(← punct? "*") then punct "!"
    let _ ← g.operand braces
    return .plain
  else
    let isVerbatim ← ahead fun tokens =>
      Ahead.word "become" tokens || (Ahead.word "builtin" tokens && Ahead.punct "#" (tokens.drop 1))
    let first ← atom g braces
    let rest := (← get).rest.length
    let operand ← trailers g first
    if operand.form = .range && !attributes.isEmpty then failure
    if isVerbatim && (← get).rest.length = rest then asWritten before
    return operand

/-- An expression, with how it is printed. -/
def exprRule (g : Grammar) (braces : Bool) : Reader ReadExpr := do
  let (expr, tokens) ← printing do
    g.binary braces Level.any (← g.operand braces)
  return ⟨expr.value.withTokens tokens, expr.form⟩

/-- An expression inside of a block, where one that ends with a block ends there. -/
def boundedRule (g : Grammar) : Reader ReadExpr := do
  let _ ← outerAttributes g
  match ← standsAlone g with
  | some alone =>
    if ← ahead fun tokens => dotAhead tokens || Ahead.punct "?" tokens then
      g.binary true Level.any (← trailers g alone)
    else return alone
  | none => g.binary true Level.any (← g.operand true)

end ApiDocs.Source.Grammar
