/-!
# Notices

What a run reports besides its result. A notice is a cause; `Notice.message` has the wording of
all of them and `Notice.isWarning` tells warnings from progress reports.
-/

namespace ApiDocs

/-- Something a run reports. -/
inductive Notice where
  -- validation and schemas
  | operandNotNumeric (keyword operand : String)
  | memberNeverResolved (name type : String)
  -- units
  | unitIgnored (unit pattern : String)
  | unitNotLocated (unit : String)
  | enumUnitNotLocated (unit type : String)
  | constantsSkipped (names : List String) (type : String)
  | noUnitMatches (referring text : String)
  | unitsMatch (text referring : String) (count : Nat)
  | unitNotLoaded (unit text : String)
  | unitNotLocatedResolving (unit text : String)
  -- definitions
  | definitionNotStored (canonical : String)
  | nothingToMerge (text host : String)
  -- annotations
  | unknownContentType (text : String)
  | unknownLocation (name location : String)
  | unusableStatus (code : String)
  | noRoute (unit : String)
  -- documents
  | unknownMethod (path method : String)
  | parameterNotPrimitive (name method path location : String)
  | operationRepeated (method path : String)
  -- sources
  | malformedAttribute (name : String)
  | moduleFileNotFound (path : String)
  | moduleWithoutFile (name declaringFile : String)
  -- progress
  | loadingUnits (root : String)
  | loadedUnits (count : Nat)
  | foundOperations (count : Nat)
  | definedTypes (count : Nat)
  | sourceRoot (path : String)
  | package (path : String)
  | naming (scheme : String)
  | ignoring (patterns : List String)
  | outputFile (path : String)
  | outputToTerminal
  | starting
  | serializing (format : String)
  | wrote (path : String)
  | complete (paths definitions : Nat)
deriving DecidableEq

/-- The lower-case hexadecimal digits of a number. -/
def hexText (n : Nat) : String := .ofList (Nat.toDigits 16 n)

/-- Characters that are shown by their code point: controls, formats, and what has no glyph. -/
def isUnseen (c : Char) : Bool :=
  let n := c.toNat
  n < 0x20 || (0x7F ≤ n && n ≤ 0x9F) || n == 0xAD || (0x200B ≤ n && n ≤ 0x200F)
    || (0x2028 ≤ n && n ≤ 0x202E) || (0x2060 ≤ n && n ≤ 0x206F) || (0xE000 ≤ n && n ≤ 0xF8FF)
    || n == 0xFEFF || (0xFFF0 ≤ n && n ≤ 0xFFFB) || n == 0xFFFE || n == 0xFFFF || 0xE0000 ≤ n

/-- A character as it is shown in a quoted text. -/
def shownChar (c : Char) : String :=
  match c with
  | '"' => "\\\""
  | '\\' => "\\\\"
  | '\n' => "\\n"
  | '\r' => "\\r"
  | '\t' => "\\t"
  | '\x00' => "\\0"
  | c => if isUnseen c then "\\u\x7b" ++ hexText c.toNat ++ "\x7d" else c.toString

/-- A text in quotes. -/
def shownText (s : String) : String :=
  "\"" ++ String.join (s.toList.map shownChar) ++ "\""

/-- A list of texts in brackets. -/
def shownTexts (texts : List String) : String :=
  "[" ++ ", ".intercalate (texts.map shownText) ++ "]"

namespace Notice

/-- The wording of a notice. -/
def message : Notice → String
  | operandNotNumeric keyword operand =>
    "Ignoring non-numeric validation operand " ++ keyword ++ "=" ++ operand
  | memberNeverResolved name type =>
    "Member " ++ name ++ " of type " ++ type ++ " was never resolved; emitting a plain object"
  | unitIgnored unit pattern => "Ignoring unit '" ++ unit ++ "' (matches '" ++ pattern ++ "')"
  | unitNotLocated unit => "Could not locate unit '" ++ unit ++ "'"
  | enumUnitNotLocated unit type => "Could not locate unit '" ++ unit ++ "' for enum " ++ type
  | constantsSkipped names type =>
    "Skipping constant group " ++ shownTexts names ++ " of type " ++ type
      ++ ": only single name/value constants become enum values"
  | noUnitMatches referring text =>
    "No unit imported by '" ++ referring ++ "' matches the type reference " ++ text
  | unitsMatch text referring count =>
    "Type reference " ++ text ++ " in '" ++ referring ++ "' matches " ++ toString count
      ++ " units; using the first that declares it"
  | unitNotLoaded unit text => "Unit '" ++ unit ++ "' is not loaded; skipping it for " ++ text
  | unitNotLocatedResolving unit text =>
    "Could not locate unit '" ++ unit ++ "' while resolving " ++ text
  | definitionNotStored canonical =>
    "Definition " ++ canonical ++ " is not stored; nothing to define"
  | nothingToMerge text host =>
    "Embedded field of type " ++ text ++ " in " ++ host ++ " has no members to merge"
  | unknownContentType text => "Unknown content type shorthand '" ++ text ++ "'"
  | unknownLocation name location =>
    "Skipping parameter '" ++ name ++ "' with unknown location '" ++ location ++ "'"
  | unusableStatus code => "Skipping response with status code '" ++ code ++ "'"
  | noRoute unit => "Operation block in '" ++ unit ++ "' has no usable @Router line"
  | unknownMethod path method =>
    "Dropping operation " ++ path ++ " with unknown method '" ++ method ++ "'"
  | parameterNotPrimitive name method path location =>
    "Parameter '" ++ name ++ "' of " ++ method ++ " " ++ path ++ " is in " ++ location
      ++ " but is not a primitive type"
  | operationRepeated method path =>
    "Operation " ++ method ++ " " ++ path ++ " declared twice; keeping the last one"
  | malformedAttribute name => "Ignoring malformed #[" ++ name ++ "] attribute"
  | moduleFileNotFound path => "Module file not found: " ++ path
  | moduleWithoutFile name declaringFile =>
    "Module '" ++ name ++ "' declared in " ++ declaringFile ++ " has no file"
  | loadingUnits root => "Loading units reachable from '" ++ root ++ "'"
  | loadedUnits count => "Loaded " ++ toString count ++ " units"
  | foundOperations count => "Found " ++ toString count ++ " operations"
  | definedTypes count => "Defined " ++ toString count ++ " types"
  | sourceRoot path => "Source root: " ++ path
  | package path => "Package: " ++ path
  | naming scheme => "Naming: " ++ scheme
  | ignoring patterns => "Ignoring: " ++ ", ".intercalate patterns
  | outputFile path => "Output file: " ++ path
  | outputToTerminal => "Output: stdout"
  | starting => "Starting Swagger document generation..."
  | serializing format => "Serializing to " ++ format ++ " format..."
  | wrote path => "Wrote Swagger document to " ++ path
  | complete paths definitions =>
    "Generation complete: " ++ toString paths ++ " paths, " ++ toString definitions
      ++ " definitions"

/-- Whether the notice warns; other notices report progress. -/
def isWarning : Notice → Bool
  | unitIgnored .. | loadingUnits .. | loadedUnits .. | foundOperations .. | definedTypes ..
  | sourceRoot .. | package .. | naming .. | ignoring .. | outputFile .. | outputToTerminal
  | starting | serializing .. | wrote .. | complete .. => false
  | _ => true

end Notice

end ApiDocs
