import ApiDocs.Definition
import ApiDocs.Text.Pattern

/-!
# Definitions of declared types

Fields become members. Markers in a field's documentation or trailing comment describe it, mark it
as deprecated, or leave it out.
-/

namespace ApiDocs

open Text

/-! ## Markers -/

/-- `@desc` with a text, which ends at a quote. -/
def descriptionMarker : Pattern :=
  [.exactly ['@'], .anyCase "desc".toList, .run isBlank, .optional '"', .capture (· != '"'),
   .optional '"']

/-- `@ignore` as a word. -/
def ignoreMarker : Pattern := [.exactly ['@'], .anyCase "ignore".toList, .boundary]

/-- `@deprecated` as a word. -/
def deprecatedMarker : Pattern := [.exactly ['@'], .anyCase "deprecated".toList, .boundary]

namespace FieldDecl

/-- Whether a marker stands in the documentation or in the comment. -/
def isMarked (field : FieldDecl) (marker : Pattern) : Bool :=
  marker.occurs field.doc.toList || marker.occurs field.comment.toList

/-- Whether the field is marked to be left out. -/
def isIgnored (field : FieldDecl) : Bool := field.isMarked ignoreMarker

/-- The text of the first description marker, or nothing. -/
def description (field : FieldDecl) : String :=
  let found := [field.doc, field.comment].findSome? fun text =>
    (descriptionMarker.captures text.toList).bind List.head?
  .ofList (trim (found.getD []))

/-- The member of a field that has a name, is exported, is not ignored and is not skipped on the
wire. -/
def member? (field : FieldDecl) (origin : ImportPath) : Option Member :=
  match field.name with
  | none => none
  | some name =>
    let wire := field.wire.getD {}
    if !field.exported || field.isIgnored || wire.name == "-" then none
    else
      some (Member.ofTypeText field.typeText.toList
        { name
          wireName := wire.name
          omitEmpty := wire.omitEmpty
          description := field.description
          deprecated := field.deprecated || field.isMarked deprecatedMarker
          validation := (field.validate.map Validation.read).getD {}
          origin })

end FieldDecl

/-! ## Types -/

/-- Adds what a field contributes: a member, or a type to be embedded. -/
def Definition.addField (path : ImportPath) (d : Definition) (field : FieldDecl) : Definition :=
  if field.isIgnored then d
  else match field.name with
    | none => { d with embedded := d.embedded ++ [field.typeText] }
    | some name =>
      match field.member? path with
      | some member => { d with members := d.members.set name member }
      | none => d

/-- The definition of a declared type. -/
def TypeDecl.definition (decl : TypeDecl) (unitName : String) (path : ImportPath) : Definition :=
  decl.fields.foldl (Definition.addField path)
    { name := decl.name, unitName, importPath := path, doc := decl.doc,
      underlying := decl.underlying }

end ApiDocs
