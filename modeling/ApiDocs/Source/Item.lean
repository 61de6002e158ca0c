import ApiDocs.Source.Token

/-!
# Items

What is kept of a source file after reading: its items with their attributes, types in the detail
that type texts need, and expressions in the detail that the values of constants need. Of all other
items only the attributes and the items nested in them are kept.
-/

namespace ApiDocs.Source

/-- A type. Types whose inside never matters are `other`. -/
inductive TypeExpr where
  | reference (target : TypeExpr)
  | pointer (target : TypeExpr)
  | slice (element : TypeExpr)
  | array (element : TypeExpr)
  | paren (inner : TypeExpr)
  | tuple (isEmpty : Bool)
  /-- The last name of a path with its type arguments, and the first name if it is another one. -/
  | path (first? : Option String) (name : String) (arguments : List TypeExpr)
  | other
deriving Inhabited

/-- An expression; `tokens` is how it is printed. -/
inductive Expr where
  | text (value : String)
  | literal (spelling : String)
  | call (arguments : List Expr) (tokens : List Piece)
  | paren (inner : Expr)
  | reference (inner : Expr)
  | negation (inner : Expr)
  | tuple (elements : List Expr)
  | array (elements : List Expr)
  | other (tokens : List Piece)
deriving Inhabited

/-- What an attribute says after its path. -/
inductive Meta where
  | word
  | list (tokens : List Token)
  | value (value : Expr)
deriving Inhabited

/-- An attribute; one whose path is not a single name has none. -/
structure Attribute where
  name? : Option String
  content : Meta
deriving Inhabited

/-- The tree of a use declaration. -/
inductive UseTree where
  | path (name : String) (tree : UseTree)
  | name (name : String)
  | rename (name newName : String)
  | glob
  | group (trees : List UseTree)
deriving Inhabited

/-- A field of a structure. A field of a tuple has no name. -/
structure Field where
  attributes : List Attribute
  isPublic : Bool
  name? : Option String
  type : TypeExpr
  stop : Position
deriving Inhabited

/-- The fields of a structure or variant. -/
inductive Fields where
  | named (fields : List Field)
  | unnamed (fields : List Field)
  | unit
deriving Inhabited

/-- A variant of an enumeration. -/
structure Variant where
  attributes : List Attribute
  name : String
  isUnit : Bool
deriving Inhabited

/-- The kinds of items. `parameters` holds the names of type parameters as they are spelled. -/
inductive ItemKind where
  | useDecl (tree : UseTree)
  | externCrate (name : String) (newName? : Option String)
  | module (name : String) (hasBody : Bool)
  | struct (name : String) (parameters : List String) (fields : Fields)
  | enum (name : String) (variants : List Variant)
  | typeAlias (name : String) (parameters : List String) (type : TypeExpr)
  | const (name : String) (type : TypeExpr) (value : Expr)
  /-- Functions, methods, implementations, traits, macros and what else can be documented. -/
  | documented
  /-- Items whose own documentation does not count. -/
  | undocumented
deriving Inhabited

/-- An item with what is nested in it: the items of a module, the methods of an implementation or
trait, and the items inside of bodies, in order. -/
structure Item where
  attributes : List Attribute
  kind : ItemKind
  nested : List Item
deriving Inhabited

/-- A file: the attributes that stand in it, and its items. -/
structure File where
  attributes : List Attribute
  items : List Item
deriving Inhabited

end ApiDocs.Source
