import ApiDocs.Source.Cursor

/-!
# The shape of the grammar

The rules for types, patterns, expressions, statements and items need each other. Each rule is
written over a `Grammar`, a record of the rules that it may use for its parts, and the rules are
tied together only when a file is read.

Next to what is kept of them, rules tell in which form they read something, where what may follow
depends on it.
-/

namespace ApiDocs.Source

/-- The forms of types. -/
inductive TypeForm where
  /-- One name, with or without arguments. -/
  | name
  /-- Another path. -/
  | path
  /-- One bound that is no path. -/
  | bound
  | other
deriving DecidableEq, Inhabited

/-- The forms of expressions. -/
inductive ExprForm where
  | range
  | comparison
  /-- Blocks and what ends with one, such as loops. -/
  | block
  /-- A macro call with braces. -/
  | bracedMacro
  | plain
deriving DecidableEq, Inhabited

/-- The forms of patterns. -/
inductive PatternForm where
  /-- Two dots. -/
  | rest
  /-- A range that lacks a bound. -/
  | openRange
  | plain
deriving DecidableEq, Inhabited

/-- An expression as it was read. -/
structure ReadExpr where
  value : Expr
  form : ExprForm
deriving Inhabited

namespace Expr

/-- A literal as an expression. -/
def ofLiteral (literal : Literal) : Expr :=
  match literal.kind with
  | .text value => .text value
  | _ => .literal literal.spelling

/-- An expression of which only the printed form is kept, which is still to be filled in. -/
def unprinted : Expr := .other []

/-- The expression with its printed form. -/
def withTokens (tokens : List Piece) : Expr → Expr
  | .call arguments _ => .call arguments tokens
  | .other _ => .other tokens
  | expr => expr

end Expr

namespace ReadExpr

/-- An expression of which only the form counts. -/
def ofForm (form : ExprForm) : ReadExpr := ⟨.unprinted, form⟩

/-- An expression of no particular form. -/
def plain : ReadExpr := ofForm .plain

end ReadExpr

/-- The rules by which the parts of something are read. -/
structure Grammar where
  /-- A type; `plus` tells whether it may be a sum of bounds. -/
  type : (plus : Bool) → Reader (TypeExpr × TypeForm)
  /-- A bound, and whether it is a trait. A bound may name what is captured, or be constant, where
  that is allowed. -/
  bound : (capture const : Bool) → Reader Bool
  /-- A pattern without alternatives. -/
  pattern : Reader PatternForm
  /-- An expression; `braces` tells whether a path may be followed by the braces of a value. -/
  expr : (braces : Bool) → Reader ReadExpr
  /-- An operand with the operators before and after it. -/
  operand : (braces : Bool) → Reader ReadExpr
  /-- What follows a left operand, with operators of at least the given level. -/
  binary : (braces : Bool) → (level : Nat) → ReadExpr → Reader ReadExpr
  /-- An expression inside of a block, where one that ends with a block ends there. -/
  bounded : Reader ReadExpr
  /-- The statements of a block up to its end. -/
  statements : Reader Unit
  /-- An item. -/
  item : Reader Item
  /-- The tree of a use declaration; nothing if a part of it begins at the root, which `rooted`
  allows. -/
  useTree : (rooted : Bool) → Reader (Option UseTree)

namespace Grammar

/-- The grammar of nothing. -/
def empty : Grammar where
  type _ := failure
  bound _ _ := failure
  pattern := failure
  expr _ := failure
  operand _ := failure
  binary _ _ _ := failure
  bounded := failure
  statements := failure
  item := failure
  useTree _ := failure

end Grammar

end ApiDocs.Source
