import ApiDocs.Json
import ApiDocs.Schema
import ApiDocs.Yaml

/-!
# Documents

A Swagger 2.0 document and the order in which its parts are written. Parts that are not set are
left out, as are empty lists of an operation and an empty table of definitions.
-/

namespace ApiDocs

/-- The methods that an operation can have. -/
inductive HttpMethod where
  | get
  | put
  | post
  | delete
  | options
  | head
  | patch
deriving DecidableEq, Inhabited

namespace HttpMethod

/-- All methods in the order in which their operations are written. -/
def all : List HttpMethod := [.get, .put, .post, .delete, .options, .head, .patch]

/-- The method as it is written. -/
def name : HttpMethod → String
  | .get => "get"
  | .put => "put"
  | .post => "post"
  | .delete => "delete"
  | .options => "options"
  | .head => "head"
  | .patch => "patch"

/-- Reads a method in either case. -/
def read? (text : String) : Option HttpMethod :=
  all.find? fun method => method.name.toList == text.toList.map Char.toLower

end HttpMethod

namespace Document

/-- What the document is about. -/
structure Info where
  title : String := ""
  description : Option String := none
  version : String := ""
deriving DecidableEq, Inhabited

/-- A parameter: with a schema if it is the body of the request, else with a kind. -/
structure Parameter where
  name : String
  location : String
  required : Bool
  description : Option String := none
  schema : Option Schema := none
  kind : Option String := none
deriving Inhabited

/-- A response. -/
structure Response where
  description : String
  schema : Option Schema := none
deriving Inhabited

/-- An operation. Its responses have ascending status codes. -/
structure Operation where
  summary : Option String := none
  description : Option String := none
  consumes : List String := []
  produces : List String := []
  tags : List String := []
  parameters : List Parameter := []
  responses : Table Response := []
deriving Inhabited

/-- The operations of one path. -/
structure PathItem where
  get : Option Operation := none
  put : Option Operation := none
  post : Option Operation := none
  delete : Option Operation := none
  options : Option Operation := none
  head : Option Operation := none
  patch : Option Operation := none
deriving Inhabited

namespace PathItem

/-- The operation of a method. -/
def operation? (item : PathItem) : HttpMethod → Option Operation
  | .get => item.get
  | .put => item.put
  | .post => item.post
  | .delete => item.delete
  | .options => item.options
  | .head => item.head
  | .patch => item.patch

/-- Puts an operation in the place of a method. -/
def withOperation (item : PathItem) (method : HttpMethod) (operation : Operation) : PathItem :=
  match method with
  | .get => { item with get := some operation }
  | .put => { item with put := some operation }
  | .post => { item with post := some operation }
  | .delete => { item with delete := some operation }
  | .options => { item with options := some operation }
  | .head => { item with head := some operation }
  | .patch => { item with patch := some operation }

end PathItem

end Document

/-- A document. Its paths and definitions are in ascending order. -/
structure Document where
  swagger : String := "2.0"
  info : Document.Info := {}
  basePath : Option String := none
  paths : Table Document.PathItem := []
  definitions : Table Schema := []
deriving Inhabited

/-! ## Values -/

namespace Document

/-- The parts of the information. -/
def Info.entries (info : Info) : Table (Option Value) :=
  [("title", some (.text info.title)), ("description", info.description.map .text),
   ("version", some (.text info.version))]

/-- The parts of a parameter. -/
def Parameter.entries (p : Parameter) : Table (Option Value) :=
  [("name", some (.text p.name)), ("in", some (.text p.location)),
   ("required", some (.flag p.required)), ("description", p.description.map .text),
   ("schema", p.schema.map Schema.toValue), ("type", p.kind.map .text)]

/-- A parameter as a value to be written. -/
def Parameter.toValue (p : Parameter) : Value := .record (Value.ofEntries p.entries)

/-- The parts of a response. -/
def Response.entries (r : Response) : Table (Option Value) :=
  [("description", some (.text r.description)), ("schema", r.schema.map Schema.toValue)]

/-- A response as a value to be written. -/
def Response.toValue (r : Response) : Value := .record (Value.ofEntries r.entries)

/-- The parts of an operation. -/
def Operation.entries (o : Operation) : Table (Option Value) :=
  [("summary", o.summary.map .text), ("description", o.description.map .text),
   ("consumes", Value.nonempty? Value.texts o.consumes),
   ("produces", Value.nonempty? Value.texts o.produces),
   ("tags", Value.nonempty? Value.texts o.tags),
   ("parameters", Value.nonempty? (fun ps => .list (ps.map Parameter.toValue)) o.parameters),
   ("responses", some (Value.table Response.toValue o.responses))]

/-- An operation as a value to be written. -/
def Operation.toValue (o : Operation) : Value := .record (Value.ofEntries o.entries)

/-- The operations of a path. -/
def PathItem.entries (item : PathItem) : Table (Option Value) :=
  HttpMethod.all.map fun method => (method.name, (item.operation? method).map Operation.toValue)

/-- The operations of a path as a value to be written. -/
def PathItem.toValue (item : PathItem) : Value := .record (Value.ofEntries item.entries)

/-- The parts of a document. -/
def entries (d : Document) : Table (Option Value) :=
  [("swagger", some (.text d.swagger)), ("info", some (.record (Value.ofEntries d.info.entries))),
   ("basePath", d.basePath.map .text), ("paths", some (Value.table PathItem.toValue d.paths)),
   ("definitions", Value.nonempty? (fun ds => .record (Schema.memberFields ds)) d.definitions)]

/-- The parts of a document that are set, in the order in which they are written. -/
def fields (d : Document) : Table Value := Value.ofEntries d.entries

/-! ## Text -/

/-- The formats in which a document can be written. -/
inductive Format where
  | json
  | yaml
deriving DecidableEq, Inhabited

/-- The text of a document. -/
def write (format : Format) (d : Document) : String :=
  match format with
  | .json => Json.write (.record d.fields)
  | .yaml => Yaml.write d.fields

end Document

end ApiDocs
