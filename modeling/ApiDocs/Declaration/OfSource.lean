import ApiDocs.Failure
import ApiDocs.Source.TypeText

/-!
# Declarations in source files

The files of a build target become a group of declarations: structures and type aliases become
types, enumerations without fields become text types with one constant per variant, constants keep
the texts of their values, and all documentation is collected.
-/

namespace ApiDocs

open Source

/-- A file with its text, which comments after fields are read from. -/
structure SourceFile where
  path : String
  text : String
  content : File
deriving Inhabited

namespace SourceFile

/-- Reads a file. -/
def read (path text : String) : Except Failure SourceFile :=
  match File.ofText? text.toList with
  | some content => .ok ⟨path, text, content⟩
  | none => .error (.badSource path)

/-- The lines of the file. -/
def lines (file : SourceFile) : List (List Char) := Text.lines file.text.toList

/-- A line of the file, counted from one. -/
def line? (file : SourceFile) (number : Nat) : Option String :=
  if number = 0 then none else file.lines[number - 1]?.map String.ofList

end SourceFile

/-! ## Names on the wire -/

/-- Whether the entries of a field or variant leave it out. -/
def leavesOut (entries : List Entry) : Bool :=
  entries.any fun entry => entry.key == "skip" || entry.key == "skip_serializing"

/-- The new name that entries give. -/
def newName? (entries : List Entry) : Option String :=
  (entries.find? fun entry => entry.key == "rename" || entry.key == "rename.serialize").bind
    Entry.value?

/-! ## Values of constants -/

mutual

/-- The texts of the values in the initial value of a constant. -/
def Source.Expr.values : Expr → List String
  | .text value => ["\"" ++ value ++ "\""]
  | .literal spelling => [spelling]
  | .call [argument] _ => argument.values
  | .call _ tokens => [Piece.text tokens]
  | .paren inner => inner.values
  | .reference inner => inner.values
  | .negation inner => inner.values.map ("-" ++ ·)
  | .tuple elements => valuesAll elements
  | .array elements => valuesAll elements
  | .other tokens => [Piece.text tokens]

/-- The texts of the values in several expressions. -/
def Source.Expr.valuesAll : List Expr → List String
  | [] => []
  | expr :: exprs => expr.values ++ valuesAll exprs

end

/-! ## Fields -/

/-- The comment after what ends at a position, on the same line. -/
def trailingComment (lines : List (List Char)) (stop : Position) : String :=
  let line := (lines[stop.line - 1]?).getD []
  let rest := Text.trimStart ((Text.trimStart (line.drop stop.column)).dropWhile (· == ','))
  match Text.after? ['/', '/'] rest with
  | some comment => .ofList (Text.trim (comment.dropWhile (· == '/')))
  | none => ""

/-- What source text is looked at for a declaration. -/
structure SourceContext where
  uses : UseTable
  lines : List (List Char)

/-- The declaration of a field in a structure with type parameters. -/
def FieldDecl.ofSource (context : SourceContext) (parameters : List String) (field : Field) :
    FieldDecl :=
  let entries := entriesNamed "serde" field.attributes
  let wireName? := if leavesOut entries then some "-" else newName? entries
  let omitEmpty := entries.any (·.key == "skip_serializing_if")
  { name := if entries.any (·.key == "flatten") then none else field.name?
    typeText := field.type.text context.uses parameters
    exported := field.isPublic
    wire := if wireName?.isSome || omitEmpty then some ⟨wireName?.getD "", omitEmpty⟩ else none
    validate := validationExpression? field.attributes
    doc := docText field.attributes
    comment := trailingComment context.lines field.stop
    deprecated := field.attributes.any (·.isNamed "deprecated") }

/-! ## Types and constants -/

/-- The text under which the values of a fieldless enumeration are written. -/
def textType : String := "String"

/-- Whether an enumeration has variants, none of them with fields. -/
def isFieldless (variants : List Variant) : Bool :=
  !variants.isEmpty && variants.all (·.isUnit)

/-- The name of a variant on the wire, unless it is left out. -/
def Source.Variant.wireName? (variant : Variant) : Option String :=
  let entries := entriesNamed "serde" variant.attributes
  if leavesOut entries then none else some ((newName? entries).getD variant.name)

/-- The type that an item declares. -/
def TypeDecl.ofSource? (context : SourceContext) (item : Item) : Option TypeDecl :=
  let doc := docText item.attributes
  match item.kind with
  | .struct name parameters (.named fields) =>
    some { name, doc, fields := fields.map (FieldDecl.ofSource context parameters) }
  | .struct name parameters (.unnamed [field]) =>
    some { name, doc, underlying := field.type.text context.uses parameters }
  | .struct name _ _ => some { name, doc }
  | .enum name variants =>
    some { name, doc, underlying := if isFieldless variants then textType else composite }
  | .typeAlias name parameters type =>
    some { name, doc, underlying := type.text context.uses parameters }
  | _ => none

/-- The constants that an item declares. -/
def ConstDecl.ofSource (context : SourceContext) (item : Item) : List ConstDecl :=
  match item.kind with
  | .const name type value => [⟨[name], type.text context.uses [], value.values⟩]
  | .enum name variants =>
    if isFieldless variants then
      variants.filterMap fun variant =>
        variant.wireName?.map fun wire => ⟨[variant.name], name, ["\"" ++ wire ++ "\""]⟩
    else []
  | _ => []

/-! ## Documentation -/

/-- Whether the documentation of an item of this kind counts. -/
def Source.ItemKind.isDocumented : ItemKind → Bool
  | .useDecl _ | .externCrate _ _ | .undocumented => false
  | _ => true

/-- A documentation text as a comment, unless it is empty. -/
def commentOf (attributes : List Attribute) : List String :=
  let doc := docText attributes
  if doc.isEmpty then [] else [doc]

mutual

/-- The comments of an item and of what is nested in it; modules for tests have none. -/
def Source.Item.comments : Item → List String
  | ⟨attributes, kind, nested⟩ =>
    match kind with
    | .module _ _ =>
      if isTestOnly attributes then [] else commentOf attributes ++ commentsAll nested
    | kind => (if kind.isDocumented then commentOf attributes else []) ++ commentsAll nested

/-- The comments of items. -/
def Source.Item.commentsAll : List Item → List String
  | [] => []
  | item :: items => item.comments ++ commentsAll items

end

/-! ## Groups -/

/-- The group with the declarations of one more file, where the dependencies are known by name. -/
def DeclGroup.addFile (crates : Table ImportPath) (group : DeclGroup) (file : SourceFile) :
    DeclGroup :=
  let items := Item.unfolded.unfoldedAll file.content.items
  let bindings := bindingsOf items
  let context := ⟨UseTable.ofBindings crates bindings, file.lines⟩
  { group with
    types := group.types ++ items.filterMap (TypeDecl.ofSource? context)
    consts := group.consts ++ items.flatMap (ConstDecl.ofSource context)
    imports := addImports crates group.imports bindings
    comments := group.comments ++ commentOf file.content.attributes ++
      Item.commentsAll file.content.items }

/-- The declarations of the files of a build target. -/
def DeclGroup.ofFiles (name : String) (kind : TargetKind) (crates : Table ImportPath)
    (files : List SourceFile) : DeclGroup :=
  files.foldl (addFile crates) { name, kind }

/-! ## Notices -/

/-- What reading the attributes inside of an item reports. -/
def Source.Item.notices (item : Item) : List Notice :=
  match item.kind with
  | .struct _ _ (.named fields) =>
    fields.flatMap fun field =>
      entryNotices "serde" field.attributes ++ validationNotices field.attributes
  | .enum _ variants =>
    if isFieldless variants then
      variants.flatMap fun variant => entryNotices "serde" variant.attributes
    else []
  | _ => []

/-- What reading the attributes in files reports. -/
def fileNotices (files : List SourceFile) : List Notice :=
  files.flatMap fun file =>
    (Item.unfolded.unfoldedAll file.content.items).flatMap Item.notices

end ApiDocs
