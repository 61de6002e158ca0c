import ApiDocs.Directive
import ApiDocs.Document
import ApiDocs.Schema.OfDefinition

/-!
# Documents of operations

A document starts with what is said of the interface, and operations are added one by one. A later
operation on the same path and method takes the place of an earlier one.
-/

namespace ApiDocs

/-- The text, if it is not empty. -/
def nonEmpty? (text : String) : Option String := if text.isEmpty then none else some text

namespace Document

/-- A document without operations. -/
def ofApi (api : Directive.Api) : Document :=
  { info := ⟨api.title, nonEmpty? api.description, api.version⟩
    basePath := nonEmpty? api.basePath }

/-! ## Parameters and responses -/

/-- The kind of a parameter that is not in the body: the kind of its primitive. -/
def parameterKind? : Member → Option String
  | .scalar _ typeText _ => (TypeText.primitive? typeText).map (·.kind)
  | _ => none

/-- A parameter as it is documented. -/
def Parameter.ofDirective (naming : Naming) (p : Directive.Parameter) : Parameter :=
  { name := p.name
    location := p.location.name
    required := p.required
    description := nonEmpty? p.description
    schema := if p.location = .body then some (p.member.schema naming) else none
    kind := if p.location = .body then none else parameterKind? p.member }

/-- The notices of documenting a parameter of an operation. -/
def parameterNotices (o : Directive.Operation) (p : Directive.Parameter) : List Notice :=
  if p.location = .body then p.member.schemaNotices
  else if (parameterKind? p.member).isSome then []
  else [.parameterNotPrimitive p.name o.method o.path p.location.name]

/-- The responses by status code; of two with one code the last is kept. -/
def responseTable (naming : Naming) (responses : List Directive.Response) : Table Response :=
  .ofList (responses.map fun r =>
    (toString r.code, { description := r.description, schema := some (r.member.schema naming) }))

/-! ## Operations -/

/-- An operation as it is documented. -/
def Operation.ofDirective (naming : Naming) (o : Directive.Operation) : Operation :=
  { summary := nonEmpty? o.title
    description := nonEmpty? o.description
    consumes := o.accepts
    produces := o.accepts
    tags := o.tag.toList
    parameters := o.parameters.map (Parameter.ofDirective naming)
    responses := responseTable naming o.responses }

/-- The item of a path. -/
def itemOf (d : Document) (path : String) : PathItem := (d.paths.get? path).getD {}

/-- The document with one more operation, which must have a known method. -/
def add (naming : Naming) (d : Document) (o : Directive.Operation) : Document :=
  match HttpMethod.read? o.method with
  | none => d
  | some method =>
    { d with
      paths := d.paths.insert o.path
        ((d.itemOf o.path).withOperation method (.ofDirective naming o)) }

/-- The notices of adding an operation. -/
def addNotices (d : Document) (o : Directive.Operation) : List Notice :=
  match HttpMethod.read? o.method with
  | none => [.unknownMethod o.path o.method]
  | some method =>
    o.parameters.flatMap (parameterNotices o)
      ++ o.responses.flatMap (·.member.schemaNotices)
      ++ if ((d.itemOf o.path).operation? method).isSome then [.operationRepeated o.method o.path]
         else []

/-- The document with all operations. -/
def addAll (naming : Naming) (d : Document) (operations : List Directive.Operation) : Document :=
  operations.foldl (add naming) d

/-- The notices of adding operations in order. -/
def addAllNotices (naming : Naming) (d : Document) : List Directive.Operation → List Notice
  | [] => []
  | o :: operations => d.addNotices o ++ addAllNotices naming (d.add naming o) operations

end Document

end ApiDocs
