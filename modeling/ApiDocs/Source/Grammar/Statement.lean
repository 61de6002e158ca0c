import ApiDocs.Source.Grammar.Expr

/-!
# Statements
-/

namespace ApiDocs.Source.Grammar

open Reader

/-- A declaration of local names. -/
def localDecl (g : Grammar) : Reader Unit := do
  word "let"
  let _ ← g.pattern
  if ← punct? ":" then
    let _ ← g.type true
  if ← punct? "=" then
    let _ ← g.expr true
    let endsWithBrace := (← get).taken.head? = some (.leave .brace)
    if !endsWithBrace then
      if ← word? "else" then block g
  punct ";"

/-- What follows the path of a macro that is called in a statement. -/
inductive MacroStatement where
  /-- The macro defines something with a name. -/
  | item
  /-- Braces that nothing is applied to. -/
  | braces
  /-- Part of an expression, or no macro at all. -/
  | other

/-- Looks at the macro call that may come. -/
def macroStatement : Reader MacroStatement := do
  let found ← peeking do
    let _ ← plainPath
    let tokens := (← get).rest
    let after := tokens.drop 1
    if !Ahead.punct "!" tokens then return .other
    if Ahead.ident after || Ahead.word "try" after then return .item
    let further := tokens.drop 2
    if Ahead.group .brace after && !dotAhead further && !Ahead.punct "?" further then
      return .braces
    return .other
  return found.getD .other

/-- Whether an item comes, macro calls apart. -/
def startsItem (tokens : List Token) : Bool :=
  let after := tokens.drop 1
  let further := tokens.drop 2
  Ahead.words ["pub", "extern", "use", "fn", "mod", "type", "struct", "enum", "trait", "impl",
      "macro"] tokens ||
    (Ahead.word "crate" tokens && !Ahead.punct "::" after) ||
    (Ahead.word "static" tokens && (Ahead.word "mut" after || Ahead.ident after)) ||
    (Ahead.word "const" tokens &&
      !(Ahead.group .brace after || Ahead.words ["static", "move"] after ||
        Ahead.punct "|" after ||
        (Ahead.word "async" after && !Ahead.words ["unsafe", "extern", "fn"] further))) ||
    (Ahead.word "unsafe" tokens && !Ahead.group .brace after) ||
    (Ahead.word "async" tokens && Ahead.words ["unsafe", "extern", "fn"] after) ||
    (Ahead.word "union" tokens && Ahead.ident after) ||
    (Ahead.word "auto" tokens && Ahead.word "trait" after) ||
    (Ahead.word "default" tokens && Ahead.words ["unsafe", "impl"] after)

/-- A statement; whether more statements may follow. The rule for items takes attributes that were
read before them, and where these began. -/
def statement (g : Grammar) (itemAfter : Cursor → List Attribute → Reader Item) : Reader Bool := do
  let before ← get
  let attributes ← outerAttributes g
  let call ← macroStatement
  match call with
  | .braces =>
    let _ ← plainPath
    let _ ← macroArguments
    let _ ← punct? ";"
    return true
  | _ =>
    let isItem ← ahead fun tokens => startsItem tokens || call matches .item
    if ← ahead (Ahead.word "let") then
      localDecl g
      return true
    else if isItem then
      find (← itemAfter before attributes)
      return true
    else
      let expr ← g.bounded
      if ← punct? ";" then return true
      return expr.form = .block || expr.form = .bracedMacro

/-- The statements of a block up to its end. -/
def statementsWith (g : Grammar) (itemAfter : Cursor → List Attribute → Reader Item) :
    Reader Unit :=
  loop () fun _ => do
    if ← punct? ";" then return .next ()
    if ← atEnd then return .done ()
    let mayGoOn ← statement g itemAfter
    if ← atEnd then return .done ()
    if mayGoOn then return .next ()
    failure

end ApiDocs.Source.Grammar
