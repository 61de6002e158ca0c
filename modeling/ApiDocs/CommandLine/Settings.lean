import ApiDocs.CommandLine.Arguments
import ApiDocs.FileSystem
import ApiDocs.Generation
import ApiDocs.Manifest

/-!
# Settings

Arguments become settings when the source root is a folder and the package is one below it.
-/

namespace ApiDocs

/-- What a run does. -/
structure Settings where
  sourceRoot : Path
  configuration : Configuration
  format : Document.Format
  output? : Option Path
  verbose : Bool
deriving DecidableEq, Inhabited

/-- Why arguments do not become settings. -/
inductive SettingsError where
  | notFolder (sourceRoot : Path)
  | emptyPackage
  | absolutePackage (package : String)
  /-- The package has a `..` component. -/
  | leavingPackage (package : String)
  | noManifest (package : String) (manifest : Path)
deriving DecidableEq, Inhabited

/-- The wording of an error. -/
def SettingsError.message : SettingsError → String
  | .notFolder sourceRoot => "Source root is not a directory: " ++ sourceRoot.text
  | .emptyPackage => "Package import path must not be empty"
  | .absolutePackage package => "Package import path must be relative: " ++ package
  | .leavingPackage package => "Package import path must not contain '..': " ++ package
  | .noManifest package manifest => "Package '" ++ package ++ "' has no " ++ manifest.text

/-- The import path of a package as it is given. -/
def givenPackage (text : String) : ImportPath :=
  .ofList (Text.dropTail (· == '/') (Text.trim text.toList))

/-- Whether a package can be looked for below a source root. -/
def checkPackage (package : ImportPath) : Except SettingsError Unit :=
  if package.isEmpty || package = "." then .error .emptyPackage
  else if Path.isAbsolute ⟨package⟩ then .error (.absolutePackage package)
  else if (Path.components ⟨package⟩).contains .parent then .error (.leavingPackage package)
  else .ok ()

/-- The patterns that are given, without blanks around them and without empty ones. -/
def givenPatterns (patterns : List String) : List String :=
  (patterns.map Text.trimmed).filter (!·.isEmpty)

namespace Settings

/-- The settings that arguments stand for. -/
def ofArguments (fs : FileSystem) (given : Arguments) : Except SettingsError Settings := do
  let sourceRoot := given.sourceRoot?.getD ⟨"."⟩
  if !fs.isFolder sourceRoot then throw (.notFolder sourceRoot)
  let package := givenPackage (given.package?.getD "")
  checkPackage package
  let manifest := (sourceRoot.join package).join manifestFile
  if !fs.isFile manifest then throw (.noManifest package manifest)
  return {
    sourceRoot
    configuration := ⟨package, given.naming?.getD .full, givenPatterns given.ignore⟩
    format := given.format?.getD .json
    output? := given.output?
    verbose := given.verbose }

/-- The name of a naming in notices. -/
def namingName : Naming → String
  | .full => "Full"
  | .partly => "Partial"
  | .simple => "Simple"

/-- The name of a format in notices. -/
def formatName : Document.Format → String
  | .json => "Json"
  | .yaml => "Yaml"

/-- The notices about settings. -/
def notices (settings : Settings) : List Notice :=
  [.sourceRoot settings.sourceRoot.text, .package settings.configuration.root,
    .naming (namingName settings.configuration.naming)]
  ++ (if settings.configuration.ignore.isEmpty then []
    else [.ignoring settings.configuration.ignore])
  ++ [match settings.output? with
    | some path => .outputFile path.text
    | none => .outputToTerminal]

end Settings

end ApiDocs
