import ApiDocs.Source.Use

/-!
# Types as type texts

Pointers and smart pointers become `*`, sequences `[]`, and maps `map[...]`. A path becomes its
last name, after the qualifier of the crate that it leads into. What cannot be written becomes
`any`.
-/

namespace ApiDocs.Source

/-- Types that stand for their last argument. -/
def pointerNames : List String := ["Option", "Box", "Rc", "Arc", "Cell", "RefCell", "Cow"]

/-- Types that are sequences of their first argument. -/
def sequenceNames : List String :=
  ["Vec", "VecDeque", "LinkedList", "HashSet", "BTreeSet", "IndexSet", "BinaryHeap"]

/-- Types that are maps from their first argument to their second. -/
def mapNames : List String := ["HashMap", "BTreeMap", "IndexMap"]

/-- The text for what cannot be written. -/
def anyText : String := "any"

/-- The text of a type of a known family from the texts of its arguments. -/
def familyText? (name : String) (arguments : List String) : Option String :=
  let pointer := if pointerNames.contains name then arguments.getLast?.map ("*" ++ ·) else none
  let sequence := if sequenceNames.contains name then arguments.head?.map ("[]" ++ ·) else none
  let map := match arguments with
    | key :: value :: _ =>
      if mapNames.contains name then some ("map[" ++ key ++ "]" ++ value) else none
    | _ => none
  pointer.or (sequence.or map)

namespace UseTable

/-- The text of a single name. -/
def nameText (uses : UseTable) (name : String) : String :=
  let declared := (uses.items.get? name).getD name
  match uses.qualifiers.get? name with
  | some qualifier => if qualifier = name then declared else qualifier ++ "." ++ declared
  | none => declared

/-- The text of a path of several names. -/
def pathText (uses : UseTable) (first name : String) : String :=
  match uses.qualifiers.get? first with
  | some qualifier => qualifier ++ "." ++ name
  | none => name

end UseTable

namespace TypeExpr

mutual

/-- The text of a type where `parameters` are type parameters. -/
def text (uses : UseTable) (parameters : List String) : TypeExpr → String
  | .reference target => "*" ++ text uses parameters target
  | .pointer target => "*" ++ text uses parameters target
  | .slice element => "[]" ++ text uses parameters element
  | .array element => "[]" ++ text uses parameters element
  | .paren inner => text uses parameters inner
  | .tuple isEmpty => if isEmpty then anyText else "[]" ++ anyText
  | .path first? name arguments =>
    match familyText? name (texts uses parameters arguments) with
    | some text => text
    | none =>
      match first? with
      | none => if parameters.contains name then anyText else uses.nameText name
      | some first => uses.pathText first name
  | .other => anyText

/-- The texts of types. -/
def texts (uses : UseTable) (parameters : List String) : List TypeExpr → List String
  | [] => []
  | type :: types => text uses parameters type :: texts uses parameters types

end

end TypeExpr

end ApiDocs.Source
