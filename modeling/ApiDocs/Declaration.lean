/-!
# Declarations

What a unit declares, as far as documents need it. A unit is a package known by its import path;
each of its build targets gives one group of declarations. `selectGroup` picks the group that
stands for the unit.
-/

namespace ApiDocs

/-- The import path of a unit, such as `crates/models`. -/
abbrev ImportPath := String

/-- The kinds of build target. -/
inductive TargetKind where
  | library
  | entryPoint
  | test
deriving DecidableEq, Inhabited

/-- How a field is named on the wire, and whether it is left out when empty. -/
structure WireTag where
  name : String := ""
  omitEmpty : Bool := false
deriving DecidableEq, Inhabited

/-- A declared field. A field without a name is embedded: its type's members become members of the
declaring type. -/
structure FieldDecl where
  name : Option String := none
  typeText : String := ""
  exported : Bool := true
  wire : Option WireTag := none
  validate : Option String := none
  doc : String := ""
  comment : String := ""
  deprecated : Bool := false
deriving DecidableEq, Inhabited

/-- The underlying text of types that have members. -/
def composite : String := "struct"

/-- A declared type: either a composite with fields, or another name for its underlying type. -/
structure TypeDecl where
  name : String := ""
  doc : String := ""
  underlying : String := composite
  fields : List FieldDecl := []
deriving DecidableEq, Inhabited

/-- Declared constants with their type and the texts of their values. -/
structure ConstDecl where
  names : List String
  typeText : String
  values : List String
deriving DecidableEq, Inhabited

/-- An imported unit, under an alias if it has one. -/
structure ImportDecl where
  path : ImportPath
  alias? : Option String := none
deriving DecidableEq, Inhabited

/-- The declarations of one build target. -/
structure DeclGroup where
  name : String := ""
  kind : TargetKind := .library
  types : List TypeDecl := []
  consts : List ConstDecl := []
  imports : List ImportDecl := []
  comments : List String := []
deriving DecidableEq, Inhabited

/-- The first declaration of a type name. -/
def DeclGroup.findType? (group : DeclGroup) (name : String) : Option TypeDecl :=
  group.types.find? (·.name == name)

/-- The choice after one more group: an entry point gives way to any later group that is no
test. -/
def preferGroup (selected : Option DeclGroup) (group : DeclGroup) : Option DeclGroup :=
  if group.kind = .test then selected
  else match selected with
    | none => some group
    | some current => if current.kind = .entryPoint then some group else some current

/-- The group that stands for a unit. -/
def selectGroup (groups : List DeclGroup) : Option DeclGroup := groups.foldl preferGroup none

end ApiDocs
