import ApiDocs.CommandLine

/-!
# The program

Takes a picture of the files below the source root, runs the command line over it, and does to the
disk and the terminal what the run did to the picture. Notices go to the error stream.
-/

namespace ApiDocs

namespace Program

/-- The text that is shown for help. -/
def help : String := "Generates a Swagger 2.0 document from annotated packages

Usage: swagger-from-source [OPTIONS] <PACKAGE>

Arguments:
  <PACKAGE>  Import path of the root package, relative to the source root

Options:
  -s, --src-root <DIR>   Directory that import paths are relative to [default: .]
  -n, --naming <NAMING>  How definition names are written: full, partial or simple [default: full]
  -i, --ignore <IGNORE>  Comma-separated substrings of import paths to skip
  -f, --format <FORMAT>  Output format: json or yaml [default: json]
  -o, --output <FILE>    Output file path (if not specified, outputs to stdout)
  -v, --verbose          Enable verbose output
  -h, --help             Print help
  -V, --version          Print version
"

/-- The text that is shown for the version. -/
def version : String := "swagger-from-source 0.1.0\n"

/-- The text that is shown for arguments that are not taken. -/
def complaint : UsageError → String
  | .missingPackage => "error: the package is missing"
  | .unknownArgument => "error: unexpected argument"
  | .badValue => "error: an option has no value or one that it does not take"
  | .unneededValue => "error: an option has a value that it does not need"
  | .repeatedOption => "error: an option is given more than once"
  | .helpWanted => help
  | .versionWanted => version

/-- A notice as it is shown. -/
def shown (notice : Notice) : String :=
  (if notice.isWarning then "[WARN] " else "[INFO] ") ++ notice.message

/-- The causes of a failed run as they are shown. -/
def shownCauses : List Cause → String
  | [] => "Error"
  | cause :: causes =>
    "Error: " ++ cause.message ++ String.join (causes.map fun c => "\n  caused by: " ++ c.message)

/-- The file or folder at a path on the disk. Hidden folders and build results are left out. -/
partial def treeAt (path : String) : IO FileTree := do
  match ← (do (← IO.FS.realPath path).readDir).toBaseIO with
  | .ok entries =>
    let names := (entries.toList.map (·.fileName)).filter Target.isVisible
    return .folder (← names.mapM fun name => do return (name, ← treeAt (path ++ "/" ++ name)))
  | .error _ =>
    match ← (IO.FS.readBinFile path).toBaseIO with
    | .ok bytes => return (String.fromUTF8? bytes).elim .binary .text
    | .error _ => return .binary

/-- The picture of the files that a run with the given arguments can ask for. -/
def picture (given : Arguments) : IO FileSystem := do
  let here : Path := ⟨toString (← IO.currentDir)⟩
  let start : FileSystem :=
    { root := (FileTree.folder []).insert here.evaluated (.folder []), current := here.evaluated }
  let sourceRoot := given.sourceRoot?.getD ⟨"."⟩
  match ← (IO.FS.realPath sourceRoot.text).toBaseIO with
  | .ok _ =>
    let names := (here.join sourceRoot.text).evaluated
    return start.put names (← treeAt sourceRoot.text)
  | .error _ => return start

/-- Writes the file that a run wrote to the disk. -/
def store (settings : Settings) (files : FileSystem) : IO Unit := do
  if let some path := settings.output? then
    if let some text := files.readText? path then
      if let some parent := path.parent? then
        if !parent.text.isEmpty then IO.FS.createDirAll parent.text
      IO.FS.writeFile path.text text

/-- Runs arguments that were read. The result is the exit code. -/
def run (given : Arguments) : IO UInt32 := do
  IO.eprintln "[INFO] Swagger from source starting..."
  match given.run (← picture given) with
  | .error error =>
    IO.eprintln ("Error: " ++ error.message)
    return 1
  | .ok (settings, result, state) =>
    for notice in state.notices do
      IO.eprintln (shown notice)
    IO.print state.printed
    match result with
    | .ok _ =>
      store settings state.files
      return 0
    | .error causes =>
      IO.eprintln (shownCauses causes)
      return 1

end Program

end ApiDocs

open ApiDocs in
/-- Runs the program. -/
def main (arguments : List String) : IO UInt32 := do
  match Arguments.read arguments with
  | .ok given => Program.run given
  | .error error =>
    if error = .helpWanted || error = .versionWanted then
      IO.print (Program.complaint error)
      return 0
    else
      IO.eprintln (Program.complaint error)
      return 2
