import ApiDocs.CommandLine.Settings
import ApiDocs.Package

/-!
# The command line

A run over the files: the document is generated from the packages below the source root and printed
or written to a file. What a run printed and reported survives a failure.
-/

namespace ApiDocs

/-- A cause of a failed run. The outermost cause comes first. -/
inductive Cause where
  /-- What the run was about to do. -/
  | context (wording : String)
  | failure (reason : Failure)
  /-- The operating system refused something. -/
  | system
deriving DecidableEq, Inhabited

namespace Cause

/-- The causes of a failure. -/
def ofFailure : Failure → List Cause
  | .unreadable path => [.failure (.unreadable path), .system]
  | reason => [.failure reason]

/-- The wording of a cause. -/
def message : Cause → String
  | .context wording => wording
  | .failure reason => reason.message
  | .system => "refused by the operating system"

end Cause

/-- The files, and what was printed and reported. -/
structure RunState where
  files : FileSystem
  printed : String := ""
  notices : List Notice := []

/-- A step of a run. -/
abbrev Running := ExceptT (List Cause) (StateM RunState)

namespace Running

/-- Reports notices. -/
def report (notices : List Notice) : Running Unit :=
  modify fun state => { state with notices := state.notices ++ notices }

/-- Changes the files; where that is refused, the run fails in the given context. -/
def change (context : String) (change : FileSystem → Option FileSystem) : Running Unit := do
  let state ← get
  match change state.files with
  | some files => set { state with files }
  | none => throw [.context context, .system]

/-- Prints a text and ends the line. -/
def print (text : String) : Running Unit :=
  modify fun state => { state with printed := state.printed ++ text ++ "\n" }

/-- Writes a text to a file, in a folder that is made if it is missing. -/
def write (path : Path) (text : String) : Running Unit := do
  if let some parent := path.parent? then
    change ("Failed to create directory: " ++ parent.text) (·.makeFolders parent)
  change ("Failed to write to file: " ++ path.text) (·.writeFile path (.text text))

end Running

namespace Settings

open Running

/-- The packages below the source root. -/
def sources (settings : Settings) : Running Loader := do
  let files := (← get).files
  match files.canonical? settings.sourceRoot with
  | some sourceRoot => return Loader.ofPackages files sourceRoot settings.configuration.root
  | none =>
    throw (.context ("Failed to open source root " ++ settings.sourceRoot.text)
      :: Cause.ofFailure (.unreadable settings.sourceRoot.text))

/-- Generates the document. -/
def generate (settings : Settings) (loader : Loader) : Running Document := do
  let (result, journal) := ApiDocs.generate settings.configuration loader {}
  report journal.notices
  match result with
  | .ok document => return document
  | .error failure =>
    throw (.context ("Failed to generate Swagger for '" ++ settings.configuration.root ++ "'")
      :: Cause.ofFailure failure)

/-- Generates the document, and prints it or writes it to a file. -/
def run (settings : Settings) : Running Unit := do
  report [.starting]
  let loader ← settings.sources
  let document ← settings.generate loader
  report [.serializing (formatName settings.format)]
  let text := document.write settings.format
  match settings.output? with
  | some path => do
    write path text
    report [.wrote path.text]
  | none => print text
  report [.complete document.paths.length document.definitions.length]

end Settings

/-! ## From arguments to the end -/

/-- Runs arguments over files. What is left is the settings, how the run ended, and the files with
what was printed and reported. -/
def Arguments.run (given : Arguments) (files : FileSystem) :
    Except SettingsError (Settings × Except (List Cause) Unit × RunState) :=
  (Settings.ofArguments files given).map fun settings =>
    (settings, settings.run { files, notices := settings.notices })

end ApiDocs
