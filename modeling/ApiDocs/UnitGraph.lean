import ApiDocs.Loader
import ApiDocs.Table
import ApiDocs.TypeText

/-!
# The graph of units

All units that can be reached from a root by imports. Paths that contain an ignored part are not
loaded, and units that are not located are left out. Each unit keeps the paths it imports in order
of first mention, with the aliases that name each of them: the explicit ones, then the declared
name of the imported unit.
-/

namespace ApiDocs

/-- A unit with the aliases of its imports. -/
structure UnitInfo where
  importPath : ImportPath
  name : String
  imports : Table (List String)
deriving DecidableEq, Inhabited

/-- Units with ascending import paths. -/
structure UnitGraph where
  units : Table UnitInfo := []
deriving DecidableEq, Inhabited

namespace UnitGraph

/-! ## Imports of one unit -/

/-- The imports that bind a name. -/
def namedImports (group : DeclGroup) : List ImportDecl :=
  group.imports.filter (·.alias? != some "_")

/-- Adds an import to a table of aliases. -/
def addImport (table : Table (List String)) (decl : ImportDecl) : Table (List String) :=
  let aliases := (table.get? decl.path).getD []
  table.set decl.path
    (match decl.alias? with
      | some name => if aliases.contains name then aliases else aliases ++ [name]
      | none => aliases)

/-- The explicit aliases of each imported path. -/
def importTable (group : DeclGroup) : Table (List String) :=
  (namedImports group).foldl addImport []

/-- The paths that are not yet seen, each once, in order. -/
def unseen (seen : List ImportPath) : List ImportPath → List ImportPath
  | [] => []
  | path :: paths =>
    if seen.contains path then unseen seen paths else path :: unseen (path :: seen) paths

/-! ## Exploration -/

/-- The first pattern that occurs in the path. -/
def ignoredBy? (ignore : List String) (path : ImportPath) : Option String :=
  ignore.find? fun pattern => Text.hasPart pattern.toList path.toList

/-- Loads the queued units and what they import, breadth first. The first argument bounds the
number of units taken from the queue. -/
def explore (loader : Loader) (ignore : List String) :
    Nat → List ImportPath → List ImportPath → Table UnitInfo → Reading (Table UnitInfo)
  | 0, _, _, units => pure units
  | _ + 1, [], _, units => pure units
  | bound + 1, path :: queue, seen, units =>
    match ignoredBy? ignore path with
    | some pattern => do
      Reading.report [.unitIgnored path pattern]
      explore loader ignore bound queue seen units
    | none => do
      match ← loader.loadSelected path with
      | none =>
        Reading.report [.unitNotLocated path]
        explore loader ignore bound queue seen units
      | some group =>
        let found := unseen seen ((namedImports group).map (·.path))
        explore loader ignore bound (queue ++ found) (seen ++ found)
          (units.insert path ⟨path, group.name, importTable group⟩)

/-- How many units can be taken from the queue: the root, and what the units that can be located
import. -/
def queueBound (loader : Loader) : Nat :=
  1 + (loader.paths.flatMap fun path => (loader.answers path).flatMap (·.imports)).length

/-- Adds the declared name of the imported unit to the aliases of a path. -/
def addDeclaredName (units : Table UnitInfo) (path : ImportPath) (aliases : List String) :
    List String :=
  match units.get? path with
  | some unit => if aliases.contains unit.name then aliases else aliases ++ [unit.name]
  | none => aliases

/-- Adds the declared names to the aliases of all imports. -/
def withDeclaredNames (units : Table UnitInfo) : UnitGraph :=
  ⟨units.map fun (path, unit) =>
    (path, { unit with imports := unit.imports.map fun (imported, aliases) =>
      (imported, addDeclaredName units imported aliases) })⟩

/-- The graph of all units that can be reached from the root. -/
def load (loader : Loader) (root : ImportPath) (ignore : List String) : Reading UnitGraph := do
  return withDeclaredNames (← explore loader ignore (queueBound loader) [root] [root] [])

/-! ## Questions -/

/-- The unit of an import path. -/
def get? (graph : UnitGraph) (path : ImportPath) : Option UnitInfo := graph.units.get? path

/-- The import paths in ascending order. -/
def paths (graph : UnitGraph) : List ImportPath := graph.units.keys

/-- The paths that may declare what a reference in the unit `referring` names: the unit itself
when the reference is not qualified, else the imports that the alias names. -/
def candidates (graph : UnitGraph) (referring : ImportPath) (reference : TypeText.Reference) :
    List ImportPath :=
  match reference.alias? with
  | none => [referring]
  | some qualifier =>
    match graph.get? referring with
    | none => []
    | some unit => (unit.imports.filter fun entry => entry.2.contains qualifier).map Prod.fst

end UnitGraph

end ApiDocs
