import ApiDocs.Definition
import ApiDocs.Document
import ApiDocs.Path

/-!
# Arguments

The arguments of the command line: one package, and options with a short and a long name. A value
stands in the next argument or is attached to the name, with or without `=` to a short one. After
`--` nothing is an option.

A value counts when the next option, the package or the end is reached. So the first of two errors
is reported, except that a name that is no option is reported before a value that is not yet
counted.
-/

namespace ApiDocs

/-- Why arguments are not taken; help and the version are asked for in this way too. -/
inductive UsageError where
  | missingPackage
  | unknownArgument
  /-- A value is missing, or it is none that the option takes. -/
  | badValue
  /-- An option that takes no value has one. -/
  | unneededValue
  | repeatedOption
  | helpWanted
  | versionWanted
deriving DecidableEq, Inhabited

/-- The options that take a value. -/
inductive Choice where
  | sourceRoot
  | naming
  | ignore
  | format
  | output
deriving DecidableEq, Inhabited

/-- The options that take no value. -/
inductive Flag where
  | verbose
  | help
  | version
deriving DecidableEq, Inhabited

/-- The options. -/
inductive CommandOption where
  | choice (choice : Choice)
  | flag (flag : Flag)
deriving DecidableEq, Inhabited

namespace CommandOption

/-- The option with a short name. -/
def ofLetter? : Char → Option CommandOption
  | 's' => some (.choice .sourceRoot)
  | 'n' => some (.choice .naming)
  | 'i' => some (.choice .ignore)
  | 'f' => some (.choice .format)
  | 'o' => some (.choice .output)
  | 'v' => some (.flag .verbose)
  | 'h' => some (.flag .help)
  | 'V' => some (.flag .version)
  | _ => none

/-- The option with a long name. -/
def ofWord? : String → Option CommandOption
  | "src-root" => some (.choice .sourceRoot)
  | "naming" => some (.choice .naming)
  | "ignore" => some (.choice .ignore)
  | "format" => some (.choice .format)
  | "output" => some (.choice .output)
  | "verbose" => some (.flag .verbose)
  | "help" => some (.flag .help)
  | "version" => some (.flag .version)
  | _ => none

end CommandOption

/-- What arguments say; options that are not given have none. -/
structure Arguments where
  package? : Option String := none
  sourceRoot? : Option Path := none
  naming? : Option Naming := none
  ignore : List String := []
  format? : Option Document.Format := none
  output? : Option Path := none
  verbose : Bool := false
deriving DecidableEq, Inhabited

namespace Arguments

/-! ## Values -/

/-- The value of an option that is given at most once. -/
def once {α : Type} (given : Option α) (value : Option α) : Except UsageError (Option α) :=
  if given.isSome then .error .repeatedOption
  else if value.isSome then .ok value
  else .error .badValue

/-- A path that is given as a value. -/
def pathValue? (value : String) : Option Path := if value.isEmpty then none else some ⟨value⟩

/-- A naming that is given as a value. -/
def namingValue? : String → Option Naming
  | "full" => some .full
  | "partial" => some .partly
  | "simple" => some .simple
  | _ => none

/-- A format that is given as a value. -/
def formatValue? : String → Option Document.Format
  | "json" => some .json
  | "yaml" => some .yaml
  | _ => none

/-- The values between commas. -/
def listValue (value : String) : List String :=
  (Text.splitAll ',' value.toList).map String.ofList

/-- Takes the value of an option. -/
def choose (given : Arguments) (value : String) : Choice → Except UsageError Arguments
  | .sourceRoot => do
    return { given with sourceRoot? := ← once given.sourceRoot? (pathValue? value) }
  | .naming => do return { given with naming? := ← once given.naming? (namingValue? value) }
  | .ignore => .ok { given with ignore := given.ignore ++ listValue value }
  | .format => do return { given with format? := ← once given.format? (formatValue? value) }
  | .output => do return { given with output? := ← once given.output? (pathValue? value) }

/-- Takes an option without a value. -/
def raise (given : Arguments) : Flag → Except UsageError Arguments
  | .verbose =>
    if given.verbose then .error .repeatedOption else .ok { given with verbose := true }
  | .help => .error .helpWanted
  | .version => .error .versionWanted

end Arguments

/-! ## Reading arguments one by one -/

/-- The state of reading arguments: what counts so far, the option that is read last with its value
if that was reached, and whether options are over. -/
structure ArgumentReader where
  given : Arguments := {}
  last? : Option (Choice × Option String) := none
  optionsOver : Bool := false
deriving Inhabited

namespace ArgumentReader

/-- Lets the option that was read last count. -/
def settle (r : ArgumentReader) : Except UsageError ArgumentReader :=
  match r.last? with
  | none => .ok r
  | some (_, none) => .error .badValue
  | some (choice, some value) => do
    return { r with given := ← r.given.choose value choice, last? := none }

/-- Begins an option whose value comes next. -/
def await (r : ArgumentReader) (choice : Choice) : Except UsageError ArgumentReader := do
  return { ← r.settle with last? := some (choice, none) }

/-- Takes an option with its value attached. -/
def attach (r : ArgumentReader) (choice : Choice) (value : List Char) :
    Except UsageError ArgumentReader := do
  let r ← r.settle
  return { r with given := ← r.given.choose (.ofList value) choice }

/-- Takes an option without a value. -/
def raise (r : ArgumentReader) (flag : Flag) : Except UsageError ArgumentReader := do
  let r ← r.settle
  return { r with given := ← r.given.raise flag }

/-- Takes a long name with the value that is attached. -/
def long (r : ArgumentReader) (name : List Char) (value? : Option (List Char)) :
    Except UsageError ArgumentReader :=
  match CommandOption.ofWord? (.ofList name), value? with
  | some (.choice choice), some value => r.attach choice value
  | some (.choice choice), none => r.await choice
  | some (.flag _), some _ => .error .unneededValue
  | some (.flag flag), none => r.raise flag
  | none, _ => .error .unknownArgument

/-- Takes short names; what follows the name of an option with a value is the value. -/
def shorts (r : ArgumentReader) : List Char → Except UsageError ArgumentReader
  | [] => .ok r
  | letter :: rest =>
    match CommandOption.ofLetter? letter with
    | some (.flag flag) => do shorts (← r.raise flag) rest
    | some (.choice choice) =>
      match rest with
      | [] => r.await choice
      | '=' :: value => r.attach choice value
      | value => r.attach choice value
    | none => .error .unknownArgument

/-- Takes the package. -/
def package (r : ArgumentReader) (text : String) : Except UsageError ArgumentReader :=
  if r.given.package?.isSome then .error .unknownArgument
  else do
    let r ← r.settle
    return { r with given := { r.given with package? := some text } }

/-- Takes an argument that is no option: a value that is waited for, or the package. -/
def plain (r : ArgumentReader) (text : String) : Except UsageError ArgumentReader :=
  match r.last? with
  | some (choice, none) => .ok { r with last? := some (choice, some text) }
  | _ => r.package text

/-- Takes the next argument. -/
def next (r : ArgumentReader) (text : String) : Except UsageError ArgumentReader :=
  if r.optionsOver then r.package text
  else
    match text.toList with
    | ['-', '-'] => .ok { r with optionsOver := true }
    | '-' :: '-' :: body =>
      match Text.splitOnce '=' body with
      | some (name, value) => r.long name (some value)
      | none => r.long body none
    | '-' :: letter :: rest => r.shorts (letter :: rest)
    | _ => r.plain text

end ArgumentReader

/-- Reads arguments. -/
def Arguments.read (arguments : List String) : Except UsageError Arguments := do
  let r ← arguments.foldlM ArgumentReader.next {}
  let r ← r.settle
  if r.given.package?.isSome then return r.given else .error .missingPackage

end ApiDocs
