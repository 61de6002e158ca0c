import ApiDocs.Value

/-!
# Schemas

A schema describes a type in a document. `Schema.fields` fixes the order in which its parts are
written; parts that are not set are left out.
-/

namespace ApiDocs

/-- A value of an enumeration. -/
abbrev EnumValue := Value

namespace EnumValue

export Value (text number)

end EnumValue

/-- A schema of a document. -/
structure Schema where
  reference : Option String := none
  kind : Option String := none
  format : Option String := none
  title : Option String := none
  description : Option String := none
  properties : Option (List (String × Schema)) := none
  required : Option (List String) := none
  items : Option Schema := none
  additional : Option Schema := none
  enumeration : Option (List EnumValue) := none
  minLength : Option Int := none
  maxLength : Option Int := none
  pattern : Option String := none
  minimum : Option Numeral := none
  exclusiveMinimum : Option Bool := none
  maximum : Option Numeral := none
  exclusiveMaximum : Option Bool := none
  minItems : Option Int := none
  maxItems : Option Int := none
  deprecated : Option Bool := none
deriving Inhabited

namespace Schema

/-- A schema of a kind alone. -/
def ofKind (kind : String) : Schema := { kind := some kind }

/-- A sequence. -/
def array (items : Schema) : Schema := { kind := some "array", items := some items }

/-- A reference to a definition of the document. -/
def ofReference (name : String) : Schema := { reference := some ("#/definitions/" ++ name) }

/-! ## Writing -/

mutual

/-- All parts of a schema, set or not, in the order in which they are written. -/
def entries : Schema → Table (Option Value)
  | ⟨reference, kind, format, title, description, properties, required, items, additional,
      enumeration, minLength, maxLength, pattern, minimum, exclusiveMinimum, maximum,
      exclusiveMaximum, minItems, maxItems, deprecated⟩ =>
    [("$ref", reference.map .text), ("type", kind.map .text), ("format", format.map .text),
     ("title", title.map .text), ("description", description.map .text),
     ("properties", membersValue? properties), ("required", required.map Value.texts),
     ("items", value? items), ("additionalProperties", value? additional),
     ("enum", enumeration.map .list), ("minLength", minLength.map Value.integer),
     ("maxLength", maxLength.map Value.integer), ("pattern", pattern.map .text),
     ("minimum", minimum.map .number), ("exclusiveMinimum", exclusiveMinimum.map .flag),
     ("maximum", maximum.map .number), ("exclusiveMaximum", exclusiveMaximum.map .flag),
     ("minItems", minItems.map Value.integer), ("maxItems", maxItems.map Value.integer),
     ("x-deprecated", deprecated.map .flag)]

/-- A schema inside another one. -/
def value? : Option Schema → Option Value
  | some schema => some (.record (Value.ofEntries schema.entries))
  | none => none

/-- The properties of a schema. -/
def membersValue? : Option (List (String × Schema)) → Option Value
  | some members => some (.record (memberFields members))
  | none => none

/-- Named schemas as fields. -/
def memberFields : List (String × Schema) → Table Value
  | [] => []
  | (name, schema) :: rest => (name, .record (Value.ofEntries schema.entries)) :: memberFields rest

end

/-- The parts of a schema that are set, in the order in which they are written. -/
def fields (schema : Schema) : Table Value := Value.ofEntries schema.entries

/-- The schema as a value to be written. -/
def toValue (schema : Schema) : Value := .record schema.fields

end Schema

end ApiDocs
