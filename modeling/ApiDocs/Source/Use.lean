import ApiDocs.Declaration
import ApiDocs.Source.Attribute
import ApiDocs.Table

/-!
# Names from other crates

A use declaration binds local names to paths. `UseTable.ofBindings` keeps those that lead into a
dependency: for each the qualifier under which its type text is written, and the name of the item
it is bound to.
-/

namespace ApiDocs.Source

/-- The items of a file with those of its inline modules in their place, tests left out. -/
def Item.unfolded : Item → List Item
  | ⟨attributes, kind, nested⟩ =>
    match kind with
    | .module _ _ => if isTestOnly attributes then [] else unfoldedAll nested
    | _ => [⟨attributes, kind, nested⟩]
where
  /-- The items of inline modules in their place. -/
  unfoldedAll : List Item → List Item
    | [] => []
    | item :: items => item.unfolded ++ unfoldedAll items

/-- A local name and the path that it stands for. -/
structure Binding where
  name : String
  path : List String
deriving DecidableEq, Inhabited

namespace UseTree

mutual

/-- The names that a tree binds below a path. -/
def bindings (above : List String) : UseTree → List Binding
  | .path first tree => bindings (above ++ [first]) tree
  | .name last =>
    if last = "self" then
      match above.getLast? with
      | some enclosing => [⟨enclosing, above⟩]
      | none => []
    else [⟨last, above ++ [last]⟩]
  | .rename last newName => [⟨newName, if last = "self" then above else above ++ [last]⟩]
  | .glob => []
  | .group trees => bindingsAll above trees

/-- The names that trees bind below a path. -/
def bindingsAll (above : List String) : List UseTree → List Binding
  | [] => []
  | tree :: trees => bindings above tree ++ bindingsAll above trees

end

end UseTree

/-- The names that an item binds to paths. -/
def ItemKind.bindings : ItemKind → List Binding
  | .useDecl tree => tree.bindings []
  | .externCrate name (some newName) => [⟨newName, [name]⟩]
  | _ => []

/-- The names that the items of a file bind to paths. -/
def bindingsOf (items : List Item) : List Binding := items.flatMap (·.kind.bindings)

/-- Local names that lead into another crate. -/
structure UseTable where
  /-- The qualifier under which what the name leads to is written. -/
  qualifiers : Table String
  /-- The declared names of the items that names are bound to. -/
  items : Table String
deriving Inhabited

namespace UseTable

/-- Only the dependencies themselves, which are given with their import paths. -/
def ofCrates (crates : Table ImportPath) : UseTable :=
  { qualifiers := crates.map fun (name, _) => (name, name), items := [] }

/-- The table after one more binding. Only paths into a dependency count. -/
def record (crates : Table ImportPath) (table : UseTable) (binding : Binding) : UseTable :=
  match binding.path with
  | [] => table
  | first :: rest =>
    if !crates.has first || binding.name = "_" then table
    else
      match rest.getLast? with
      | none =>
        { qualifiers := table.qualifiers.set binding.name binding.name
          items := table.items.erase binding.name }
      | some item =>
        { qualifiers := table.qualifiers.set binding.name ((table.qualifiers.get? first).getD first)
          items := table.items.set binding.name item }

/-- The table of the bindings of a file. -/
def ofBindings (crates : Table ImportPath) (bindings : List Binding) : UseTable :=
  bindings.foldl (record crates) (ofCrates crates)

end UseTable

/-- The import that a binding stands for: a dependency under a new name. -/
def Binding.import? (crates : Table ImportPath) (binding : Binding) : Option ImportDecl :=
  match binding.path with
  | [first] =>
    if binding.name = "_" || binding.name = first then none
    else (crates.get? first).map fun path => ⟨path, some binding.name⟩
  | _ => none

/-- Imports with those of further bindings, each once. -/
def addImports (crates : Table ImportPath) (imports : List ImportDecl) (bindings : List Binding) :
    List ImportDecl :=
  (bindings.filterMap (·.import? crates)).foldl
    (fun imports new => if imports.contains new then imports else imports ++ [new]) imports

end ApiDocs.Source
