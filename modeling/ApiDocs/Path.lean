import ApiDocs.Text.Split

/-!
# Paths

Paths as they are written, with `/` between components. Repeated separators and `.` components do
not count, except for a leading `.`; `..` does. A path is kept as text because joining and parents
keep the spelling, and two paths are the same when their components are.
-/

namespace ApiDocs

/-- A path as it is written. -/
structure Path where
  text : String
deriving DecidableEq, Inhabited

namespace Path

/-- A component of a path. -/
inductive Component where
  | root
  | current
  | parent
  | name (name : String)
deriving DecidableEq, Inhabited

/-- What a piece between separators stands for. -/
def component? (piece : List Char) : Option Component :=
  if piece = [] || piece = ['.'] then none
  else if piece = ['.', '.'] then some .parent
  else some (.name (.ofList piece))

/-- The text up to where pieces count, and the rest: the root or a leading `.` comes first. -/
def splitHead (text : List Char) : List Char × List Char :=
  match text with
  | '/' :: rest => (['/'], rest)
  | ['.'] => (['.'], [])
  | '.' :: '/' :: rest => (['.'], '/' :: rest)
  | text => ([], text)

/-- The component of the head. -/
def headComponent (head : List Char) : List Component :=
  if head = ['/'] then [.root] else if head = ['.'] then [.current] else []

/-- The components of a path. -/
def components (path : Path) : List Component :=
  let (head, body) := splitHead path.text.toList
  headComponent head ++ (Text.splitAll '/' body).filterMap component?

/-- Whether the path starts at the root. -/
def isAbsolute (path : Path) : Bool := path.text.toList.head? == some '/'

/-- A path below another; an absolute path stands for itself. -/
def join (base : Path) (path : String) : Path :=
  let chars := path.toList
  if chars.head? = some '/' then ⟨path⟩
  else if base.text.isEmpty || base.text.toList.getLast? = some '/' then ⟨base.text ++ path⟩
  else ⟨base.text ++ "/" ++ path⟩

/-- Pieces with a separator between any two. -/
def joinPieces (pieces : List (List Char)) : List Char := ['/'].intercalate pieces

/-- The path without its last component, if it has one besides the root. -/
def parent? (path : Path) : Option Path :=
  let (head, body) := splitHead path.text.toList
  let isVoid := fun piece => (component? piece).isNone
  match (Text.splitAll '/' body).reverse.dropWhile isVoid with
  | _ :: before =>
    some ⟨.ofList (head ++ joinPieces (before.dropWhile isVoid).reverse)⟩
  | [] => if head = ['.'] then some ⟨""⟩ else none

/-- The rest of the components after those of `base`, if the path begins with them. -/
def after? (base path : Path) : Option (List Component) :=
  if base.components.isPrefixOf path.components then
    some (path.components.drop base.components.length)
  else none

/-- Whether the path begins with the components of `base`. -/
def startsWith (path base : Path) : Bool := (after? base path).isSome

/-- A component as it is written. -/
def Component.text : Component → String
  | .root => "/"
  | .current => "."
  | .parent => ".."
  | .name piece => piece

/-! ## Lexical evaluation -/

/-- The names after one more component: `..` takes the last name away. -/
def evaluate (names : List String) : Component → List String
  | .root => []
  | .current => names
  | .parent => names.dropLast
  | .name name => names ++ [name]

/-- The names that the components lead to, without asking which of them exist. -/
def evaluated (path : Path) : List String := path.components.foldl evaluate []

/-- The path of names from the root or from the current place. -/
def ofNames (absolute : Bool) (names : List String) : Path :=
  ⟨(if absolute then "/" else "") ++ "/".intercalate names⟩

/-- The path without `.` and `..` components. -/
def normalize (path : Path) : Path := ofNames path.isAbsolute path.evaluated

end Path

/-- The name of a package in source code, where a hyphen cannot stand. -/
def sourceName (package : String) : String := .ofList (Text.swap '-' '_' package.toList)

end ApiDocs
