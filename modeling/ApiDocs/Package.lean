import ApiDocs.Loader
import ApiDocs.Manifest
import ApiDocs.Package.Module
import ApiDocs.Package.Target

/-!
# Packages

Units that are packages in folders below a source root. The import path of a package is its folder
relative to the source root; a dependency without a folder there has its name as import path.
-/

namespace ApiDocs

/-! ## Manifests in folders -/

/-- Reads the manifest at a path. -/
def Manifest.load (fs : FileSystem) (path : Path) : Except Failure Manifest :=
  match fs.readText? path with
  | some text => Manifest.read path.text text
  | none => .error (.unreadable path.text)

/-- A path with those it lies in, from the inside out, at most `count` of them. -/
def Path.ancestorsUpTo : (count : Nat) → Path → List Path
  | 0, _ => []
  | count + 1, path =>
    path :: match path.parent? with
      | some parent => ancestorsUpTo count parent
      | none => []

/-- A path with those it lies in, from the inside out. -/
def Path.ancestors (path : Path) : List Path := path.ancestorsUpTo (path.components.length + 1)

namespace Workspace

/-- The first folder whose manifest is that of a workspace. -/
def first? (fs : FileSystem) : List Path → Except Failure (Option Workspace)
  | [] => .ok none
  | folder :: folders => do
    let file := folder.join manifestFile
    if fs.isFile file then
      let manifest ← Manifest.load fs file
      if manifest.workspace?.isSome then return some ⟨folder, manifest⟩
      first? fs folders
    else first? fs folders

/-- The workspace that a folder below the source root belongs to. -/
def enclosing? (fs : FileSystem) (sourceRoot folder : Path) : Except Failure (Option Workspace) :=
  first? fs (folder.ancestors.takeWhile (·.startsWith sourceRoot))

end Workspace

/-! ## Import paths -/

/-- The import path of a folder below the source root. -/
def importPath? (sourceRoot folder : Path) : Option ImportPath :=
  match Path.after? sourceRoot folder with
  | some [] | none => none
  | some components => some ("/".intercalate (components.map Path.Component.text))

/-- The import path of a dependency. -/
def ResolvedDependency.importPath (sourceRoot : Path) (dependency : ResolvedDependency) :
    ImportPath :=
  (dependency.directory?.bind (importPath? sourceRoot)).getD dependency.name

/-- The import of a dependency; one that is renamed is imported under its name. -/
def ResolvedDependency.toImport (sourceRoot : Path) (dependency : ResolvedDependency) :
    ImportDecl :=
  ⟨dependency.importPath sourceRoot, if dependency.renamed then some dependency.name else none⟩

/-! ## Loading -/

namespace Package

/-- The groups of the package in a folder, one for each target. -/
def read (fs : FileSystem) (sourceRoot folder : Path) : Noting (List DeclGroup) := do
  let manifest ← MonadExcept.ofExcept (Manifest.load fs (folder.join manifestFile))
  match manifest.libraryName? with
  | none => return []
  | some name =>
    let workspace? ← MonadExcept.ofExcept (Workspace.enclosing? fs sourceRoot folder)
    let dependencies := manifest.resolved folder workspace?
    let imports := dependencies.map (·.toImport sourceRoot)
    let crates := Table.ofList (dependencies.map fun d => (d.name, d.importPath sourceRoot))
    let targets ← MonadExcept.ofExcept (Target.scan fs folder manifest.libraryPath?)
    targets.mapM fun target => do
      let files ← moduleFiles fs target.file
      Noting.note (fileNotices files)
      let group := DeclGroup.ofFiles name target.kind crates files
      return { group with imports := imports ++ group.imports }

/-- What loading the package in a folder gives. -/
def answer (fs : FileSystem) (sourceRoot folder : Path) : Answer :=
  let (groups, notices) := (read fs sourceRoot folder).run []
  { groups := groups.map some, notices }

/-- Whether a folder has a manifest. -/
def hasManifest (fs : FileSystem) (folder : Path) : Bool := fs.isFile (folder.join manifestFile)

/-- The folders of all packages below the source root. -/
def folders (fs : FileSystem) (sourceRoot : Path) : List Path :=
  match fs.root.find? sourceRoot.evaluated with
  | some tree =>
    ((tree.foldersWith manifestFile sourceRoot.evaluated).map (Path.ofNames true)).filter
      (hasManifest fs)
  | none => []

/-- The folder of an import path. -/
def folderOf (sourceRoot : Path) (path : ImportPath) : Path := (sourceRoot.join path).normalize

end Package

/-- The loader of the packages below a source root, which is a path from the root without `..`. Any
other import path than the given one comes up in an answer first. -/
def Loader.ofPackages (fs : FileSystem) (sourceRoot : Path) (root : ImportPath) : Loader :=
  let answers := (Package.folders fs sourceRoot).map fun folder =>
    (folder.text, Package.answer fs sourceRoot folder)
  { paths := (root :: answers.flatMap fun (_, answer) => answer.imports.map (·.path)).eraseDups
    history := fun path =>
      { settled := (Table.get? answers (Package.folderOf sourceRoot path).text).getD
          .notLocated } }

end ApiDocs
