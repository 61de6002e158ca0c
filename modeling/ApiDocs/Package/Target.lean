import ApiDocs.Failure
import ApiDocs.FileSystem

/-!
# Build targets

What is built from a package, found by where files stand: the library, the main program, the
programs in `src/bin`, and the tests.
-/

namespace ApiDocs

/-- A build target with the file that its modules start from. -/
structure Target where
  kind : TargetKind
  file : Path
deriving DecidableEq, Inhabited

namespace Target

/-- Whether a name is looked at; those of hidden files and of build results are not. -/
def isVisible (name : String) : Bool := name.toList.head? != some '.' && name != "target"

/-- Whether a file has source text by its name. -/
def hasSourceName (name : String) : Bool :=
  match Text.before? ".rs".toList name.toList with
  | some stem => !stem.isEmpty
  | none => false

/-- The source files of a folder and the main files of the folders in it, in ascending order. -/
def filesIn (fs : FileSystem) (folder : Path) : List Path :=
  ((fs.names folder).filter isVisible).flatMap fun name =>
    let path := folder.join name
    let main := path.join "main.rs"
    if fs.isFolder path then (if fs.isFile main then [main] else [])
    else if hasSourceName name then [path] else []

/-- The file if it exists. -/
def existing (fs : FileSystem) (path : Path) : List Path := if fs.isFile path then [path] else []

/-- The targets of the package in a folder: library, programs, tests. The file of the library may
be given. -/
def scan (fs : FileSystem) (folder : Path) (library? : Option String) :
    Except Failure (List Target) :=
  if fs.isFolder folder then
    let sources := folder.join "src"
    let library := match library? with
      | some path => folder.join path
      | none => sources.join "lib.rs"
    .ok ((existing fs library).map (⟨.library, ·⟩)
      ++ (existing fs (sources.join "main.rs") ++ filesIn fs (sources.join "bin")).map
        (⟨.entryPoint, ·⟩)
      ++ (filesIn fs (folder.join "tests")).map (⟨.test, ·⟩))
  else .error (.unreadable folder.text)

end Target

end ApiDocs
