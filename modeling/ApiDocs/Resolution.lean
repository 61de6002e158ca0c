import ApiDocs.Definition.OfDeclaration
import ApiDocs.UnitGraph

/-!
# Resolution

Finding the declaration that a type reference names, and the values of a primitive type's
constants. Resolution always asks the loader; what is known already is the business of the store.
-/

namespace ApiDocs

/-- The units that types are looked up in. -/
structure Scope where
  graph : UnitGraph
  loader : Loader

/-! ## Enumerations -/

/-- The constants of a group that have the type. -/
def DeclGroup.constsOf (group : DeclGroup) (typeName : String) : List ConstDecl :=
  group.consts.filter (·.typeText == typeName)

/-- The value of a constant that has one name and one value. -/
def ConstDecl.value? (decl : ConstDecl) : Option String :=
  match decl.names, decl.values with
  | [_], [value] => some value
  | _, _ => none

/-- The values of a type's constants, as written. -/
def DeclGroup.enumeration (group : DeclGroup) (typeName : String) : List String :=
  (group.constsOf typeName).filterMap ConstDecl.value?

/-- The notices of constants that give no value. -/
def DeclGroup.enumerationNotices (group : DeclGroup) (typeName : String) : List Notice :=
  (group.constsOf typeName).filterMap fun decl =>
    if decl.value?.isNone then some (.constantsSkipped decl.names typeName) else none

/-- The values of the constants of a type in the unit at a path. -/
def Loader.enumeration (loader : Loader) (path : ImportPath) (typeName : String) :
    Reading (List String) := do
  match ← loader.loadSelected path with
  | none =>
    Reading.report [.enumUnitNotLocated path typeName]
    pure []
  | some group =>
    Reading.report (group.enumerationNotices typeName)
    pure (group.enumeration typeName)

/-! ## References -/

namespace Scope

/-- The notice that there is not exactly one candidate. -/
def candidateNotices (referring : ImportPath) (text : String) (count : Nat) : List Notice :=
  match count with
  | 0 => [.noUnitMatches referring text]
  | 1 => []
  | count => [.unitsMatch text referring count]

/-- The definition of a declared type, with the values of its constants if it stands for a
primitive. -/
def define (scope : Scope) (path : ImportPath) (group : DeclGroup) (decl : TypeDecl) :
    Reading Definition := do
  let definition := decl.definition group.name path
  if definition.isPrimitive then
    let values ← scope.loader.enumeration path definition.name
    pure { definition with enumerations := some values }
  else pure definition

/-- The definition of the named type in the first of the paths that declares it. -/
def firstDeclared (scope : Scope) (text name : String) :
    List ImportPath → Reading (Option Definition)
  | [] => pure none
  | path :: paths => do
    if (scope.graph.get? path).isNone then
      Reading.report [.unitNotLoaded path text]
      scope.firstDeclared text name paths
    else
      match ← scope.loader.loadSelected path with
      | none =>
        Reading.report [.unitNotLocatedResolving path text]
        scope.firstDeclared text name paths
      | some group =>
        match group.findType? name with
        | none => scope.firstDeclared text name paths
        | some decl => some <$> scope.define path group decl

/-- The definition that a type text names when it stands in the unit `referring`. -/
def resolve (scope : Scope) (referring : ImportPath) (text : String) :
    Reading (Option Definition) := do
  let reference := TypeText.reference text
  let candidates := scope.graph.candidates referring reference
  Reading.report (candidateNotices referring text candidates.length)
  scope.firstDeclared text reference.name candidates

end Scope

end ApiDocs
