import ApiDocs.Schema.Bounds
import ApiDocs.Store

/-!
# Schemas of members and definitions

A scalar of a declared type becomes a reference to its definition, and a composite definition an
object whose properties are its members. What is worth a notice is listed by companion functions,
in the order in which the parts are described.
-/

namespace ApiDocs

/-- The text without blanks at its ends, if any is left. -/
def describing? (text : String) : Option String :=
  let bare := Text.trimmed text
  if bare.isEmpty then none else some bare

namespace Schema

/-- The schema of a primitive, without bounds. -/
def ofPrimitive (p : TypeText.Primitive) : Schema := { kind := some p.kind, format := p.format }

/-- Describes the schema and marks it deprecated. -/
def annotated (schema : Schema) (info : MemberInfo) : Schema :=
  { schema with
    description := describing? info.description
    deprecated := if info.deprecated then some true else schema.deprecated }

/-- The schema of a primitive with the bounds that apply to it. -/
def ofBoundedPrimitive (p : TypeText.Primitive) (v : Validation) : Schema :=
  if p.kind = "string" then (ofPrimitive p).withLengthBounds v
  else if p.isNumeric then (ofPrimitive p).withMagnitudeBounds v
  else ofPrimitive p

end Schema

namespace Member

/-! ## Members -/

/-- The schema of a scalar, without its annotations. -/
def scalarSchema (naming : Naming) (info : MemberInfo) (typeText : String)
    (target : Option TargetUnit) : Schema :=
  match TypeText.primitive? typeText with
  | some p => .ofBoundedPrimitive p info.validation
  | none =>
    match targetName? naming typeText target with
    | some name => .ofReference name
    | none => .ofKind "object"

/-- The schema of a member. The values of a map are described as sequences. -/
def schema (naming : Naming) : Member → Schema
  | .scalar info typeText target => (scalarSchema naming info typeText target).annotated info
  | .collection info element =>
    ((Schema.array (element.schema naming)).withItemBounds info.validation).annotated info
  | .mapping info _ value =>
    ((({ kind := some "object", additional := some (.array (value.schema naming)) } :
      Schema)).withItemBounds info.validation).annotated info

/-- The notices of a scalar's schema. -/
def scalarNotices (info : MemberInfo) (typeText : String) (target : Option TargetUnit) :
    List Notice :=
  match TypeText.primitive? typeText with
  | some p => if p.kind = "string" || p.isNumeric then info.validation.boundNotices else []
  | none => if target.isSome then [] else [.memberNeverResolved info.name typeText]

/-- The notices of a member's schema. -/
def schemaNotices : Member → List Notice
  | .scalar info typeText target => scalarNotices info typeText target
  | .collection info element => element.schemaNotices ++ info.validation.boundNotices
  | .mapping info _ value => value.schemaNotices ++ info.validation.boundNotices

end Member

/-! ## Definitions -/

/-- The text without quotes at its ends. -/
def unquoted (text : List Char) : List Char :=
  Text.dropTail (· == '"') (text.dropWhile (· == '"'))

/-- The value that a constant's text stands for: a text if it is quoted or no number. -/
def EnumValue.read (literal : String) : EnumValue :=
  let bare := Text.trim literal.toList
  if bare.head? = some '"' then .text (.ofList (unquoted bare))
  else
    match readInt64? bare with
    | some n => .number (.integer n)
    | none =>
      match (Binary64.read? bare).bind Numeral.ofBinary64? with
      | some n => .number n
      | none => .text (.ofList (unquoted bare))

namespace Definition

/-- The schema of a primitive with the values it may have. -/
def primitiveSchema (p : TypeText.Primitive) (enumerations : Option (List String)) : Schema :=
  let values := (enumerations.getD []).map EnumValue.read
  { Schema.ofPrimitive p with enumeration := if values.isEmpty then none else some values }

/-- The properties of members by name on the wire; of two with one name the last is kept. -/
def properties (naming : Naming) (members : Table Member) : Table Schema :=
  .ofList (members.values.map fun member => (member.info.jsonName, member.schema naming))

/-- The names of the members that must be present, in order. -/
def requiredNames (members : Table Member) : List String :=
  (members.values.filter Member.isRequired).map (·.info.jsonName)

/-- The schema of a type with members. -/
def objectSchema (naming : Naming) (members : Table Member) : Schema :=
  let required := requiredNames members
  { kind := some "object"
    properties := some (properties naming members)
    required := if required.isEmpty then none else some required }

/-- The schema of a definition. -/
def schema (naming : Naming) (d : Definition) : Schema :=
  let described := match TypeText.primitive? d.underlying with
    | some p => primitiveSchema p d.enumerations
    | none => objectSchema naming d.members
  { described with title := some (d.display naming), description := describing? d.doc }

/-- The notices of a definition's schema. -/
def schemaNotices (d : Definition) : List Notice :=
  if d.isPrimitive then [] else d.members.values.flatMap Member.schemaNotices

end Definition

namespace Store

/-- The schemas of all definitions by name in the document; of two with one name the last is
kept. -/
def schemas (naming : Naming) (store : Store) : Table Schema :=
  .ofList (store.definitions.values.map fun d => (d.display naming, d.schema naming))

/-- The notices of all schemas. -/
def schemaNotices (store : Store) : List Notice :=
  store.definitions.values.flatMap Definition.schemaNotices

end Store

end ApiDocs
