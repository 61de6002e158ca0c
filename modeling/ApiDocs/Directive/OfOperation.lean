import ApiDocs.Directive.OfApi
import ApiDocs.Directive.TypeName

/-!
# Operations of directive lines

A line of an operation block is read on its own (`Line.read`). The operation is put together from
what the lines say, and what is left out has a notice.
-/

namespace ApiDocs.Directive

open Text

/-! ## Patterns -/

/-- The characters of a content type. -/
def isContentChar (c : Char) : Bool := isWord c || c == '/'

/-- The characters of a parameter's name. -/
def isNameChar (c : Char) : Bool := isWord c || c == '-'

/-- The characters of a response's kind. -/
def isKindChar (c : Char) : Bool := isWord c || c == '\x7b' || c == '\x7d'

/-- The characters of a directive type. -/
def isTypeChar (c : Char) : Bool := isWord c || c == '.' || c == ':' || c == '<' || c == '>'

/-- The characters of a route. -/
def isRouteChar (c : Char) : Bool :=
  isWord c || c == '/' || c == '\x7b' || c == '\x7d' || c == '-'

/-- `@Param name location type required "description"`. -/
def parameterPattern : Pattern :=
  [.exactly "@Param".toList, .run isBlank, .capture isNameChar, .run isBlank, .capture isWord,
   .run isBlank, .capture isTypeChar, .run isBlank, .capture isWord, .run isBlank, .exactly ['"'],
   .capture isInLine, .exactly ['"']]

/-- `@Success code kind type "description"`, or `@Failure`. -/
def responsePattern : Pattern :=
  [.exactly ['@'], .oneOf ["Success".toList, "Failure".toList], .run isBlank, .capture isDigit,
   .run isBlank, .capture isKindChar, .run isBlank, .capture isTypeChar, .run isBlank,
   .exactly ['"'], .capture isInLine, .exactly ['"']]

/-- `@Router /path [method]`. -/
def routePattern : Pattern :=
  [.exactly "@Router".toList, .run isBlank, .capture isRouteChar, .run isBlank, .exactly ['['],
   .capture isWord, .exactly [']']]

/-! ## Content types -/

/-- The content types that have a short name. -/
def contentTypes : Table String :=
  [("json", "application/json"), ("xml", "application/xml"), ("plain", "text/plain"),
   ("html", "text/html"), ("form", "application/x-www-form-urlencoded"),
   ("multipart", "multipart/form-data")]

/-- The content type of a name. -/
def contentType (name : String) : String := (contentTypes.get? name).getD name

/-- The notice of a name that stands for no content type. -/
def contentTypeNotices (name : String) : List Notice :=
  if contentTypes.has name || name.toList.contains '/' then [] else [.unknownContentType name]

/-! ## Lines -/

/-- What a line says about an operation. -/
inductive Line where
  | accept (name : String)
  | description (text : String)
  | parameter (parameter : Parameter)
  | badLocation (name location : String)
  | response (response : Response)
  | badStatus (code : String)
  | route (path method : String)
  | title (text : String)
  | other
deriving DecidableEq

/-- The member of a directive type. -/
def memberOf (unit : ImportPath) (name : String) (text : List Char) : Member :=
  .ofTypeText text { name, origin := unit }

/-- What a parameter line says. -/
def readParameter (unit : ImportPath) (name location type required description : List Char) :
    Line :=
  match Location.read? (.ofList location) with
  | none => .badLocation (.ofList name) (.ofList location)
  | some location =>
    .parameter
      { name := .ofList name
        location
        required := required.map Char.toLower == "true".toList
        description := .ofList description
        member := memberOf unit (.ofList name) (fieldText type) }

/-- What a response line says. The kind `{array}` makes a sequence of the type. -/
def readResponse (unit : ImportPath) (outcome code kind type description : List Char) : Line :=
  match readUInt16? code with
  | none => .badStatus (.ofList code)
  | some status =>
    let text := fieldText type
    let text := if kind = "\x7barray\x7d".toList then '[' :: ']' :: text else text
    .response
      { success := outcome == "Success".toList
        code := status
        description := .ofList description
        member := memberOf unit ("response " ++ toString status) text }

/-- The parameter line of a text. -/
def parameterLine? (unit : ImportPath) (line : List Char) : Option Line :=
  match parameterPattern.captures line with
  | some [name, location, type, required, description] =>
    some (readParameter unit name location type required description)
  | _ => none

/-- The response line of a text. -/
def responseLine? (unit : ImportPath) (line : List Char) : Option Line :=
  match responsePattern.captures line with
  | some [outcome, code, kind, type, description] =>
    some (readResponse unit outcome code kind type description)
  | _ => none

/-- The route line of a text. -/
def routeLine? (line : List Char) : Option Line :=
  match routePattern.captures line with
  | some [path, method] => some (.route (.ofList path) (.ofList method))
  | _ => none

/-- Reads a line; of several words in one line the first of this order counts. -/
def Line.read (unit : ImportPath) (line : List Char) : Line :=
  ((lineToken? "@Accept" isContentChar line).map .accept
    |>.or ((lineText? "@Description" line).map .description)
    |>.or (parameterLine? unit line)
    |>.or (responseLine? unit line)
    |>.or (routeLine? line)
    |>.or ((lineText? "@Title" line).map .title)).getD .other

/-! ## Operations -/

namespace Line

/-- The content type that a line accepts. -/
def accept? : Line → Option String
  | .accept name => some (contentType name)
  | _ => none

/-- The parameter of a line. -/
def parameter? : Line → Option Parameter
  | .parameter found => some found
  | _ => none

/-- The response of a line. -/
def response? : Line → Option Response
  | .response found => some found
  | _ => none

/-- The route of a line. -/
def route? : Line → Option (String × String)
  | .route path method => some (path, method)
  | _ => none

/-- The description of a line. -/
def description? : Line → Option String
  | .description text => some text
  | _ => none

/-- The title of a line. -/
def title? : Line → Option String
  | .title text => some text
  | _ => none

/-- The notices of a line. -/
def notices : Line → List Notice
  | .accept name => contentTypeNotices name
  | .badLocation name location => [.unknownLocation name location]
  | .badStatus code => [.unusableStatus code]
  | _ => []

end Line

/-- The lines of a block. -/
def CommentBlock.operationLines (block : CommentBlock) : List Line :=
  (lines block.text.toList).map (Line.read block.unit)

/-- The last thing that the lines say of one kind. -/
def lastOf {α : Type} (part? : Line → Option α) (lines : List Line) : Option α :=
  (lines.filterMap part?).getLast?

/-- The operation that a block describes, if it has a route. Of several routes, titles or
descriptions the last counts. -/
def Operation.ofBlock? (block : CommentBlock) : Option Operation :=
  let lines := CommentBlock.operationLines block
  (lastOf Line.route? lines).map fun (path, method) =>
    { title := (lastOf Line.title? lines).getD ""
      description := (lastOf Line.description? lines).getD ""
      accepts := lines.filterMap Line.accept?
      parameters := lines.filterMap Line.parameter?
      responses := lines.filterMap Line.response?
      path
      method
      unit := block.unit }

/-- The notices of reading a block. -/
def Operation.blockNotices (block : CommentBlock) : List Notice :=
  let lines := CommentBlock.operationLines block
  lines.flatMap Line.notices
    ++ if (lastOf Line.route? lines).isSome then [] else [.noRoute block.unit]

end ApiDocs.Directive
