import ApiDocs.Declaration

/-!
# Failures

What ends a run. A failure is a cause; `Failure.message` has the wording.
-/

namespace ApiDocs

/-- A condition that ends a run. Everything that a run can go on after is a `Notice` instead. -/
inductive Failure where
  | noUsableGroup (unit : ImportPath)
  | unresolvedType (typeText field : String) (unit : ImportPath)
  | unresolvedEmbedded (host embedded : String)
  | badSource (file : String)
  | badManifest (file : String)
  | unreadable (path : String)
  /-- Definitions are nested deeper than there are names to define; see `Definer.depth`. -/
  | nestedTooDeep (canonical : String)
deriving DecidableEq, Inhabited

/-- The wording of a failure. -/
def Failure.message : Failure → String
  | .noUsableGroup unit => "no usable declaration group in unit '" ++ unit ++ "'"
  | .unresolvedType typeText field unit =>
    "failed to generate definition for type '" ++ typeText ++ "' referenced by field '" ++ field
      ++ "' in unit '" ++ unit ++ "'"
  | .unresolvedEmbedded host embedded =>
    "failed to find definition for embedded member " ++ host ++ ":" ++ embedded
  | .badSource file => "failed to parse " ++ file
  | .badManifest file => "invalid manifest " ++ file
  | .unreadable path => "failed to read " ++ path
  | .nestedTooDeep canonical => "definitions are nested too deeply at " ++ canonical

end ApiDocs
