import ApiDocs.Failure
import ApiDocs.Path
import ApiDocs.Toml.Document

/-!
# Package manifests

What a manifest says that shapes the graph of units: the name of the package, its library, its
dependencies, and the dependencies that a workspace offers to its packages.

Each part may be written as a table or as a list of its values in order. A date counts as a table
whose only key nobody asks for.
-/

namespace ApiDocs

/-- The file that describes a package. -/
def manifestFile : String := "Cargo.toml"

/-- A dependency that is described by more than its version. -/
structure DependencyDetails where
  path? : Option String := none
  /-- The name of the package, where the dependency is known under another one. -/
  package? : Option String := none
  /-- The description is taken from the workspace. -/
  inherited : Bool := false
deriving DecidableEq, Inhabited

/-- A dependency. -/
inductive Dependency where
  | version
  | detailed (details : DependencyDetails)
deriving DecidableEq, Inhabited

/-- The library of a package. -/
structure LibrarySection where
  name? : Option String := none
  path? : Option String := none
deriving DecidableEq, Inhabited

/-- A manifest. -/
structure Manifest where
  package? : Option String := none
  library? : Option LibrarySection := none
  dependencies : Table Dependency := []
  /-- The dependencies of the workspace, where the manifest is that of one. -/
  workspace? : Option (Table Dependency) := none
deriving DecidableEq, Inhabited

/-! ## Reading -/

namespace Toml

/-- The key that a date has as a table. -/
def dateKey : String := "$__toml_private_datetime"

/-- A text. -/
def text? : Toml → Option String
  | .text value => some value
  | _ => none

/-- A truth value. -/
def flag? : Toml → Option Bool
  | .flag value => some value
  | _ => none

/-- The entries of a table. -/
def entries? : Toml → Option (Table Toml)
  | .table entries => some entries
  | .date => some [(dateKey, .text "")]
  | _ => none

end Toml

/-- The name in a package section. -/
def packageName? : Toml → Option String
  | .list items => items.head?.bind Toml.text?
  | part => do (← Table.decode? (← part.entries?) "name" Toml.text?)

namespace LibrarySection

/-- The library of a manifest. -/
def ofToml? : Toml → Option LibrarySection
  | .list items =>
    match items with
    | name :: path :: _ => do return ⟨some (← name.text?), some (← path.text?)⟩
    | _ => none
  | part => do
    let entries ← part.entries?
    return ⟨← entries.decode? "name" Toml.text?, ← entries.decode? "path" Toml.text?⟩

end LibrarySection

namespace Dependency

/-- A dependency of a manifest. -/
def ofToml? : Toml → Option Dependency
  | .text _ => some .version
  | .list items =>
    match items with
    | [path, package] => do
      return .detailed { path? := some (← path.text?), package? := some (← package.text?) }
    | [path, package, inherited] => do
      return .detailed ⟨some (← path.text?), some (← package.text?), ← inherited.flag?⟩
    | _ => none
  | part => do
    let entries ← part.entries?
    return .detailed
      { path? := ← entries.decode? "path" Toml.text?
        package? := ← entries.decode? "package" Toml.text?
        inherited := (← entries.decode? "workspace" Toml.flag?).getD false }

/-- The dependencies of a manifest. -/
def tableOfToml? (part : Toml) : Option (Table Dependency) := do
  (← part.entries?).mapM fun (key, value) => do return (key, ← ofToml? value)

/-- The dependencies that a workspace offers. -/
def workspaceOfToml? : Toml → Option (Table Dependency)
  | .list items =>
    match items with
    | dependencies :: _ => tableOfToml? dependencies
    | [] => some []
  | part => do
    return (← (← part.entries?).decode? "dependencies" tableOfToml?).getD []

end Dependency

namespace Manifest

/-- The manifest in a document. -/
def ofToml? (document : Toml) : Option Manifest := do
  let entries ← document.entries?
  return {
    package? := ← entries.decode? "package" packageName?
    library? := ← entries.decode? "lib" LibrarySection.ofToml?
    dependencies := (← entries.decode? "dependencies" Dependency.tableOfToml?).getD []
    workspace? := ← entries.decode? "workspace" Dependency.workspaceOfToml? }

/-- Reads the manifest in a file. -/
def read (file text : String) : Except Failure Manifest :=
  match (Toml.ofText? text.toList).bind ofToml? with
  | some manifest => .ok manifest
  | none => .error (.badManifest file)

/-! ## Names and dependencies -/

/-- The name of the library in source code. -/
def libraryName? (manifest : Manifest) : Option String :=
  (manifest.library?.bind (·.name?)).or (manifest.package?.map sourceName)

/-- The file of the library, where it is given. -/
def libraryPath? (manifest : Manifest) : Option String := manifest.library?.bind (·.path?)

end Manifest

/-- A dependency after the workspace was asked. -/
structure ResolvedDependency where
  /-- The name of the dependency in source code. -/
  name : String
  /-- The directory of a dependency that is given by its path. -/
  directory? : Option Path
  renamed : Bool
deriving DecidableEq, Inhabited

/-- A manifest with the directory it stands in. -/
structure Workspace where
  directory : Path
  manifest : Manifest
deriving DecidableEq, Inhabited

namespace Workspace

/-- The details of a dependency that the workspace offers. -/
def details? (workspace : Workspace) (key : String) : Option DependencyDetails :=
  match workspace.manifest.workspace?.bind (·.get? key) with
  | some (.detailed details) => some details
  | _ => none

end Workspace

namespace Dependency

/-- The details that count, and the directory that their path starts from. -/
def source? (directory : Path) (workspace? : Option Workspace) (key : String) :
    Dependency → Option (DependencyDetails × Path)
  | .version => none
  | .detailed details =>
    if details.inherited then
      workspace?.bind fun workspace =>
        (workspace.details? key).map fun details => (details, workspace.directory)
    else some (details, directory)

/-- Whether the entry itself names another package. -/
def isRenamed : Dependency → Bool
  | .version => false
  | .detailed details => details.package?.isSome

/-- The dependency of a package in a directory, after the workspace was asked. -/
def resolve (directory : Path) (workspace? : Option Workspace) (key : String)
    (dependency : Dependency) : ResolvedDependency :=
  let source? := dependency.source? directory workspace? key
  { name := sourceName key
    directory? := source?.bind fun (details, base) =>
      details.path?.map fun path => (base.join path).normalize
    renamed := dependency.isRenamed || source?.any fun (details, _) => details.package?.isSome }

end Dependency

/-- The dependencies of a package in a directory, in order. -/
def Manifest.resolved (manifest : Manifest) (directory : Path) (workspace? : Option Workspace) :
    List ResolvedDependency :=
  manifest.dependencies.map fun (key, dependency) => dependency.resolve directory workspace? key

end ApiDocs
