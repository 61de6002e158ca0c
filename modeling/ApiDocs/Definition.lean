import ApiDocs.Declaration
import ApiDocs.Table
import ApiDocs.TypeText
import ApiDocs.Validation

/-!
# Definitions

A definition is a type as it will appear in a document: its names, its members, and what it still
embeds. The members follow the shape of their type text (`Member.ofTypeText`). A scalar member of a
declared type gets a target once the declaring unit is known.
-/

namespace ApiDocs

/-! ## Names -/

/-- How much of a definition's origin its name in a document shows. -/
inductive Naming where
  | full
  | partly
  | simple
deriving DecidableEq, Inhabited

/-- The name under which a definition is stored: import path and type name, with a point for each
slash. -/
def canonicalName (path : ImportPath) (name : String) : String :=
  .ofList (Text.swap '\\' '.' (Text.swap '/' '.' (path ++ "." ++ name).toList))

/-- The name of a type in a document. -/
def displayName (naming : Naming) (unitName : String) (path : ImportPath) (name : String) :
    String :=
  match naming with
  | .full => canonicalName path name
  | .partly => unitName ++ "." ++ name
  | .simple => name

/-! ## Members -/

/-- What is known of a member besides its type. Only the outermost layer of a member carries more
than the name and the origin, the unit whose declaration it comes from. -/
structure MemberInfo where
  name : String := ""
  wireName : String := ""
  omitEmpty : Bool := false
  description : String := ""
  deprecated : Bool := false
  validation : Validation := {}
  origin : ImportPath := ""
deriving DecidableEq, Inhabited

/-- The name of the member's property. -/
def MemberInfo.jsonName (info : MemberInfo) : String :=
  if info.wireName.isEmpty then info.name else info.wireName

/-- What the inner layers of a member know. -/
def MemberInfo.nested (info : MemberInfo) : MemberInfo :=
  { name := info.name, origin := info.origin }

/-- The unit that declares a scalar's type. -/
structure TargetUnit where
  unitName : String
  importPath : ImportPath
deriving DecidableEq, Inhabited

/-- A member by the shape of its type. -/
inductive Member where
  | scalar (info : MemberInfo) (typeText : String) (target : Option TargetUnit)
  | collection (info : MemberInfo) (element : Member)
  | mapping (info : MemberInfo) (key value : Member)
deriving DecidableEq, Inhabited

namespace Member

/-- What is known of the outermost layer. -/
def info : Member → MemberInfo
  | .scalar info _ _ => info
  | .collection info _ => info
  | .mapping info _ _ => info

/-- Whether the member must be present. -/
def isRequired (m : Member) : Bool := m.info.validation.isRequired

/-- The member of a type text without pointers at any layer. -/
def ofTypeText (text : List Char) (info : MemberInfo) : Member :=
  match _shaped : TypeText.shape text with
  | .mapping key value => .mapping info (ofTypeText key info.nested) (ofTypeText value info.nested)
  | .collection element => .collection info (ofTypeText element info.nested)
  | .scalar bare => .scalar info (.ofList bare) none
termination_by text.length
decreasing_by
  · exact (TypeText.length_of_shape_mapping _shaped).1
  · exact (TypeText.length_of_shape_mapping _shaped).2
  · exact TypeText.length_of_shape_collection _shaped

/-- Puts a target on every scalar inside the member that is not primitive. -/
def withTarget (target : TargetUnit) : Member → Member
  | .scalar info typeText old =>
    .scalar info typeText (if TypeText.isPrimitive typeText then old else some target)
  | .collection info element => .collection info (element.withTarget target)
  | .mapping info key value => .mapping info (key.withTarget target) (value.withTarget target)

/-- The document name of a scalar's target. -/
def targetName? (naming : Naming) (typeText : String) (target : Option TargetUnit) :
    Option String :=
  target.map fun unit =>
    displayName naming unit.unitName unit.importPath (TypeText.reference typeText).name

end Member

/-! ## Definitions -/

/-- A type with its members. `embedded` holds the type texts whose members are still to be merged,
and `enumerations` the values of a primitive type's constants. -/
structure Definition where
  name : String := ""
  unitName : String := ""
  importPath : ImportPath := ""
  doc : String := ""
  underlying : String := composite
  members : Table Member := []
  embedded : List String := []
  enumerations : Option (List String) := none
deriving DecidableEq, Inhabited

namespace Definition

/-- The name under which the definition is stored. -/
def canonical (d : Definition) : String := canonicalName d.importPath d.name

/-- The definition's name in a document. -/
def display (d : Definition) (naming : Naming) : String :=
  displayName naming d.unitName d.importPath d.name

/-- Whether the definition is another name for a primitive type. -/
def isPrimitive (d : Definition) : Bool := TypeText.isPrimitive d.underlying

/-- The unit that declares the type. -/
def target (d : Definition) : TargetUnit := ⟨d.unitName, d.importPath⟩

end Definition

end ApiDocs
