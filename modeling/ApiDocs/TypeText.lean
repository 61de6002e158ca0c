import ApiDocs.Text.Split

/-!
# Type text

Field types are written in a compact notation: `*T` for optional and pointer-like types, `[]T` for
sequences, `map[K]V` for maps, `alias.Name` for a type of another unit, and a bare name for a type
of the same unit. `shape` takes the outermost layer off such a text; what it returns is always
shorter than the text, so that members can be built from it by recursion. `primitive?` knows the
names that need no declaration.
-/

namespace ApiDocs.TypeText

/-! ## References -/

/-- A reference to a named type, with the alias of the unit it is qualified by. -/
structure Reference where
  alias? : Option String
  name : String
deriving DecidableEq, Inhabited

/-- Removes pointer markers from the front. -/
def stripPointers (text : List Char) : List Char := text.dropWhile (· == '*')

/-- Reads a reference: what stands before the first point is the alias. -/
def reference (text : String) : Reference :=
  let bare := stripPointers text.toList
  match Text.splitOnce '.' bare with
  | some (alias?, name) => ⟨some (.ofList alias?), .ofList name⟩
  | none => ⟨none, .ofList bare⟩

/-! ## Shapes -/

/-- The outermost layer of a type. -/
inductive Shape where
  | mapping (key value : List Char)
  | collection (element : List Char)
  | scalar (text : List Char)
deriving DecidableEq

/-- What stands before and after the first closing bracket that is not opened, where `depth`
brackets are open already. -/
def splitBracket : Nat → List Char → Option (List Char × List Char)
  | _, [] => none
  | depth, c :: rest =>
    if c = '[' then (splitBracket (depth + 1) rest).map fun (key, value) => (c :: key, value)
    else if c = ']' then
      match depth with
      | 0 => some ([], rest)
      | depth + 1 => (splitBracket depth rest).map fun (key, value) => (c :: key, value)
    else (splitBracket depth rest).map fun (key, value) => (c :: key, value)

/-- The key and value of `map[K]V`, neither of which may be empty. -/
def splitMap (text : List Char) : Option (List Char × List Char) := do
  let rest ← Text.after? "map[".toList text
  let (key, value) ← splitBracket 0 rest
  if key.isEmpty || value.isEmpty then none else some (key, value)

/-- The outermost layer of a type text, pointers aside. -/
def shape (text : List Char) : Shape :=
  let bare := stripPointers text
  match splitMap bare with
  | some (key, value) => .mapping key (stripPointers value)
  | none =>
    match Text.after? ['[', ']'] bare with
    | some element => .collection element
    | none => .scalar bare

/-! ## Shapes are shorter -/

theorem length_after? {start text rest : List Char} (found : Text.after? start text = some rest) :
    text.length = start.length + rest.length := by
  induction start generalizing text with
  | nil => simp [Text.after?] at found; simp [found]
  | cons c start ih =>
    cases text with
    | nil => simp [Text.after?] at found
    | cons d text =>
      simp only [Text.after?] at found
      split at found
      · simp [ih found]; omega
      · simp at found

theorem length_stripPointers_le (text : List Char) :
    (stripPointers text).length ≤ text.length :=
  (List.dropWhile_sublist _).length_le

theorem length_splitBracket {depth : Nat} {text key value : List Char}
    (found : splitBracket depth text = some (key, value)) :
    text.length = key.length + value.length + 1 := by
  induction text generalizing depth key with
  | nil => simp [splitBracket] at found
  | cons c text ih =>
    simp only [splitBracket] at found
    split at found
    · obtain ⟨⟨k, v⟩, inner, same⟩ := Option.map_eq_some_iff.1 found
      simp only [Prod.mk.injEq] at same
      obtain ⟨rfl, rfl⟩ := same
      simp [ih inner]; omega
    · split at found
      · split at found
        · simp only [Option.some.injEq, Prod.mk.injEq] at found
          obtain ⟨rfl, rfl⟩ := found
          simp
        · obtain ⟨⟨k, v⟩, inner, same⟩ := Option.map_eq_some_iff.1 found
          simp only [Prod.mk.injEq] at same
          obtain ⟨rfl, rfl⟩ := same
          simp [ih inner]; omega
      · obtain ⟨⟨k, v⟩, inner, same⟩ := Option.map_eq_some_iff.1 found
        simp only [Prod.mk.injEq] at same
        obtain ⟨rfl, rfl⟩ := same
        simp [ih inner]; omega

theorem length_splitMap {text key value : List Char} (found : splitMap text = some (key, value)) :
    key.length + value.length < text.length := by
  simp only [splitMap, Option.bind_eq_bind] at found
  obtain ⟨rest, afterMark, found⟩ := Option.bind_eq_some_iff.1 found
  obtain ⟨⟨k, v⟩, split, found⟩ := Option.bind_eq_some_iff.1 found
  simp only at found
  split at found
  · simp at found
  · simp only [Option.some.injEq, Prod.mk.injEq] at found
    obtain ⟨rfl, rfl⟩ := found
    have := length_after? afterMark
    have := length_splitBracket split
    omega

/-- The key and the value of a map text are shorter than the text. -/
theorem length_of_shape_mapping {text key value : List Char}
    (shaped : shape text = .mapping key value) :
    key.length < text.length ∧ value.length < text.length := by
  simp only [shape] at shaped
  have bare := length_stripPointers_le text
  split at shaped
  · rename_i k v found
    simp only [Shape.mapping.injEq] at shaped
    obtain ⟨rfl, rfl⟩ := shaped
    have := length_splitMap found
    have := length_stripPointers_le v
    omega
  · split at shaped <;> simp at shaped

/-- The element text of a sequence is shorter than the text. -/
theorem length_of_shape_collection {text element : List Char}
    (shaped : shape text = .collection element) : element.length < text.length := by
  simp only [shape] at shaped
  have bare := length_stripPointers_le text
  split at shaped
  · simp at shaped
  · split at shaped
    · rename_i found
      simp only [Shape.collection.injEq] at shaped
      subst shaped
      have := length_after? found
      simp at this
      omega
    · simp at shaped

/-! ## Primitive types -/

/-- The type and format that a primitive has in a document. -/
structure Primitive where
  kind : String
  format : Option String
deriving DecidableEq, Inhabited

/-- Whether magnitude bounds apply to the primitive. -/
def Primitive.isNumeric (p : Primitive) : Bool := p.kind == "integer" || p.kind == "number"

/-- The units whose types may be primitive when qualified. -/
def primitiveUnits : List String := ["chrono", "time", "std", "serde_json"]

/-- The primitive of an unqualified name. -/
def primitiveNamed? (name : String) : Option Primitive :=
  match name with
  | "bool" => some ⟨"boolean", none⟩
  | "f32" => some ⟨"number", some "float"⟩
  | "f64" => some ⟨"number", some "double"⟩
  | "i32" => some ⟨"integer", some "int32"⟩
  | "i64" => some ⟨"integer", some "int64"⟩
  | "String" | "str" => some ⟨"string", none⟩
  | "any" | "Value" => some ⟨"object", none⟩
  | name =>
    if ["i8", "i16", "i128", "isize", "u8", "u16", "u32", "u64", "u128", "usize",
        "char"].contains name then
      some ⟨"integer", none⟩
    else if ["DateTime", "NaiveDateTime", "NaiveDate", "SystemTime",
        "OffsetDateTime"].contains name then
      some ⟨"string", some "date-time"⟩
    else none

/-- Removes pointer markers from both ends. -/
def trimPointers (text : List Char) : List Char := Text.dropTail (· == '*') (stripPointers text)

/-- The primitive that a type text stands for. -/
def primitive? (text : String) : Option Primitive :=
  let bare := trimPointers text.toList
  if bare = "[]u8".toList then some ⟨"string", some "binary"⟩
  else
    match Text.splitOnce '.' bare with
    | some (alias?, name) =>
      if primitiveUnits.contains (.ofList alias?) then primitiveNamed? (.ofList name) else none
    | none => primitiveNamed? (.ofList bare)

/-- Whether a type text needs no declaration. -/
def isPrimitive (text : String) : Bool := (primitive? text).isSome

end ApiDocs.TypeText
