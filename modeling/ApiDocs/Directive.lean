import ApiDocs.Definition

/-!
# Directives

What directives in documentation comments describe: the interface as a whole, and its operations
with their parameters and responses.
-/

namespace ApiDocs

/-- A documentation comment and the unit it stands in. -/
structure CommentBlock where
  unit : ImportPath
  text : String
deriving DecidableEq, Inhabited

namespace Directive

/-- A named group of operations whose paths begin alike. -/
structure SubApi where
  name : String
  path : String
deriving DecidableEq, Inhabited

/-- The interface as a whole. -/
structure Api where
  version : String := ""
  title : String := ""
  description : String := ""
  basePath : String := ""
  subApis : List SubApi := []
deriving DecidableEq, Inhabited

/-- Where a request carries a parameter. -/
inductive Location where
  | path
  | query
  | header
  | body
  | formData
deriving DecidableEq, Inhabited

namespace Location

/-- Reads a location; forms have a short name too. -/
def read? : String → Option Location
  | "path" => some .path
  | "query" => some .query
  | "header" => some .header
  | "body" => some .body
  | "formData" | "form" => some .formData
  | _ => none

/-- The location as it is written in a document. -/
def name : Location → String
  | .path => "path"
  | .query => "query"
  | .header => "header"
  | .body => "body"
  | .formData => "formData"

end Location

/-- A parameter of an operation. -/
structure Parameter where
  name : String
  location : Location
  required : Bool
  description : String
  member : Member
deriving DecidableEq, Inhabited

/-- A response of an operation. -/
structure Response where
  success : Bool
  code : Nat
  description : String
  member : Member
deriving DecidableEq, Inhabited

/-- One operation. The method is kept as it is written. -/
structure Operation where
  title : String := ""
  description : String := ""
  accepts : List String := []
  parameters : List Parameter := []
  responses : List Response := []
  path : String := ""
  method : String := ""
  unit : ImportPath := ""
  tag : Option String := none
deriving DecidableEq, Inhabited

/-! ## Choice of blocks -/

/-- The blocks in which a marker stands. -/
def blocksWith (marker : String) (blocks : List CommentBlock) : List CommentBlock :=
  blocks.filter fun block => Text.hasPart marker.toList block.text.toList

/-- The blocks that describe the interface as a whole. -/
def apiBlocks (blocks : List CommentBlock) : List CommentBlock := blocksWith "@APITitle" blocks

/-- The blocks that describe an operation. -/
def operationBlocks (blocks : List CommentBlock) : List CommentBlock := blocksWith "@Router" blocks

/-- The operation with the name of the first group whose path its own begins with. -/
def Operation.tagged (operation : Operation) (api : Api) : Operation :=
  { operation with
    tag := (api.subApis.find? fun sub =>
      (Text.after? sub.path.toList operation.path.toList).isSome).map (·.name) }

end Directive

end ApiDocs
