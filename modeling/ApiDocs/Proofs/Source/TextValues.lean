import ApiDocs.Proofs.Source.Enumeration
import ApiDocs.Proofs.Text
import ApiDocs.Schema.OfDefinition

/-!
# Texts as values

A text that a constant or a variant gives is put in quotes as it is, and a schema takes the quotes
off again: all of them that stand at the ends. Blanks, backslashes and quotes inside of the text
come through, but quotes at its own ends are lost (`text_values_in_schema`).
-/

namespace ApiDocs

open Source Text

/-! ## Quotes -/

/-- Quotes around a text are lost on the way, with those at its own ends. -/
theorem unquoted_append (text : List Char) : unquoted ('"' :: text ++ ['"']) = unquoted text := by
  rw [unquoted, unquoted, List.cons_append, List.dropWhile_cons_of_pos rfl, List.dropWhile_append]
  cases gone : (text.dropWhile (· == '"')).isEmpty with
  | true =>
      rw [List.isEmpty_iff.mp gone]
      rfl
  | false => exact dropTail_concat _ rfl

theorem unquoted_eq_self_iff {text : List Char} :
    unquoted text = text ↔ text.head? ≠ some '"' ∧ text.getLast? ≠ some '"' := by
  constructor
  · intro same
    constructor
    · intro quote
      obtain ⟨rest, rfl⟩ := List.head?_eq_some_iff.mp quote
      have shorter : (unquoted ('"' :: rest)).length ≤ rest.length := by
        rw [unquoted, List.dropWhile_cons_of_pos rfl]
        exact Nat.le_trans (length_dropTail_le _) (List.dropWhile_sublist _).length_le
      rw [same, List.length_cons] at shorter
      omega
    · intro quote
      obtain ⟨rest, rfl⟩ := List.getLast?_eq_some_iff.mp quote
      have again : dropTail (· == '"') (rest ++ ['"']) = rest ++ ['"'] := by
        rw [← same, unquoted, dropTail_dropTail]
      have shorter := @length_dropTail_le (· == '"') rest
      rw [dropTail_concat rest rfl] at again
      rw [again, List.length_append, List.length_singleton] at shorter
      omega
  · rintro ⟨noHead, noLast⟩
    have starts : text.dropWhile (· == '"') = text := by
      cases text with
      | nil => rfl
      | cons c text => exact List.dropWhile_cons_of_neg (by simpa using noHead)
    rw [unquoted, starts]
    rcases List.eq_nil_or_concat text with rfl | ⟨rest, c, rfl⟩
    · rfl
    · have kept : (c == '"') = false := by simpa using noLast
      rw [List.concat_eq_append]
      exact @dropTail_append (· == '"') rest c kept []

/-- A text in quotes is read as a text, whatever blanks it has. -/
theorem EnumValue.read_quoted (s : String) :
    EnumValue.read (quoted s) = .text (.ofList (unquoted s.toList)) := by
  have chars : (quoted s).toList = '"' :: s.toList ++ ['"'] := by
    simp [quoted]
  have trims : trim (quoted s).toList = '"' :: s.toList ++ ['"'] := by
    rw [chars, trim, trimStart, List.cons_append, List.dropWhile_cons_of_neg (by decide), trimEnd]
    exact dropTail_append ('"' :: s.toList) (by decide) []
  rw [EnumValue.read, trims, unquoted_append]
  rfl

/-! ## Texts that items give -/

/-- The text that an expression gives: of a text literal, also as the only argument of a call, in
parentheses or behind a reference. -/
def Source.Expr.text? : Expr → Option String
  | .text value => some value
  | .call [argument] _ => argument.text?
  | .paren inner => inner.text?
  | .reference inner => inner.text?
  | _ => none

theorem Source.Expr.values_of_text? {e : Expr} {s : String} (gives : e.text? = some s) :
    e.values = [quoted s] := by
  fun_induction Expr.text? e with
  | case1 value =>
      cases gives
      rfl
  | case2 argument tokens ih =>
      rw [Expr.values]
      exact ih gives
  | case3 inner ih =>
      rw [Expr.values]
      exact ih gives
  | case4 inner ih =>
      rw [Expr.values]
      exact ih gives
  | case5 => cases gives

namespace Source.Item

/-- The type of a constant as it is written, and the text that the constant is given. -/
def textConstant? (context : SourceContext) (item : Item) : Option (String × String) :=
  match item.kind with
  | .const _ type value => value.text?.map fun s => (type.text context.uses [], s)
  | _ => none

/-- The item gives a text as a value of the type: as a constant, or as the name of a variant on the
wire, with the values of the variants before it and after it. -/
inductive Gives (context : SourceContext) (typeName s : String) (item : Item) :
    List String → List String → Prop
  | constant : item.textConstant? context = some (typeName, s) → Gives context typeName s item [] []
  | variant {first last : List Variant} {variant : Variant} :
    item.kind = .enum typeName (first ++ variant :: last) →
    isFieldless (first ++ variant :: last) = true → variant.wireName? = some s →
    Gives context typeName s item (serialized first) (serialized last)

theorem Gives.valuesOf_eq {context : SourceContext} {typeName s : String} {item : Item}
    {first last : List String} (gives : item.Gives context typeName s first last) :
    valuesOf typeName (ConstDecl.ofSource context item) = first ++ quoted s :: last := by
  cases gives with
  | constant given =>
      rw [textConstant?] at given
      split at given
      · rename_i name type value kind
        obtain ⟨text, gives, same⟩ := Option.map_eq_some_iff.mp given
        cases same
        rw [ConstDecl.ofSource, kind]
        simp [valuesOf, ConstDecl.value?, value.values_of_text? gives]
      · cases given
  | variant kind fieldless wire =>
      rw [valuesOf_variants kind fieldless, serialized, List.filterMap_append,
        List.filterMap_cons_some wire, List.map_append, List.map_cons]
      rfl

end Source.Item

/-! ## Schemas -/

/-- The schema of a type that stands for a primitive has the values that its constants are read
as. -/
theorem Definition.enumeration_schema {d : Definition} {p : TypeText.Primitive}
    (primitive : TypeText.primitive? d.underlying = some p) {values : List String}
    (enumerations : d.enumerations = some values) (present : values ≠ []) (naming : Naming) :
    (d.schema naming).enumeration = some (values.map EnumValue.read) := by
  rw [schema, primitive, enumerations]
  simp [primitiveSchema, present]

/-- In whatever files it stands, a text that a constant of a type or a variant of an enumeration
gives has its entry among the values in the schema of the type, between those that come before and
after it. The entry is the text without the quotes at its ends, so it is the text itself exactly if
the text neither begins nor ends with a quote. -/
theorem text_values_in_schema {scope : Scope} (unchanging : scope.loader.Unchanging)
    {path : ImportPath} (known : (scope.graph.get? path).isSome = true) {unit : String}
    {target : TargetKind} {crates : Table ImportPath} {before after : List SourceFile}
    {file : SourceFile} {imports : List ImportDecl}
    (selected : (scope.loader.answer path 0).selection path = .ok (some
      { DeclGroup.ofFiles unit target crates (before ++ file :: after) with imports }))
    {front back : List Item} {item : Item} (items : file.items = front ++ item :: back)
    {name s : String} {first last : List String}
    (gives : item.Gives (file.context crates) name s first last) {decl : TypeDecl}
    (declares : (DeclGroup.ofFiles unit target crates (before ++ file :: after)).findType? name =
      some decl)
    {p : TypeText.Primitive} (primitive : TypeText.primitive? decl.underlying = some p)
    (naming : Naming) :
    let earlier := valuesOf name (before.flatMap (SourceFile.consts crates) ++
      front.flatMap (ConstDecl.ofSource (file.context crates))) ++ first
    let later := last ++ valuesOf name (back.flatMap (ConstDecl.ofSource (file.context crates)) ++
      after.flatMap (SourceFile.consts crates))
    let entry := EnumValue.text (.ofList (unquoted s.toList))
    (∃ d, scope.Stands path name d ∧ ∀ e : Definition, e.core = d.core →
      (e.schema naming).enumeration =
        some (earlier.map EnumValue.read ++ entry :: later.map EnumValue.read)) ∧
    (entry = .text s ↔ s.toList.head? ≠ some '"' ∧ s.toList.getLast? ≠ some '"') := by
  intro earlier later entry
  let group : DeclGroup :=
    { DeclGroup.ofFiles unit target crates (before ++ file :: after) with imports }
  have named : decl.name = name := by
    have found := List.find?_some declares
    simpa using found
  have isPrimitive : TypeText.isPrimitive decl.underlying = true := by
    rw [TypeText.isPrimitive, primitive]
    rfl
  obtain ⟨underlying, enumerations⟩ := group.primitive_definition path isPrimitive
  have values : group.enumeration decl.name = earlier ++ quoted s :: later := by
    rw [named, DeclGroup.enumeration_ofFiles_of_item items, gives.valuesOf_eq]
    simp only [earlier, later, List.append_assoc, List.cons_append]
  constructor
  · refine ⟨_, Scope.stands_of_selected unchanging known selected declares, fun e same => ?_⟩
    have sameUnderlying := (Definition.underlying_eq_of_core same).trans underlying
    have sameEnumerations := (Definition.enumerations_eq_of_core same).trans enumerations
    rw [values] at sameEnumerations
    rw [Definition.enumeration_schema (sameUnderlying ▸ primitive) sameEnumerations (by simp),
      List.map_append, List.map_cons, EnumValue.read_quoted]
  · rw [← unquoted_eq_self_iff, Value.text.injEq, ← String.toList_inj, String.toList_ofList]

/-- A file with a constant whose text has blanks at its ends, a quote and a backslash. -/
def shadeFile : SourceFile :=
  ((SourceFile.read "lib.rs" ("const A: Shade = Shade(&(r#\" a\"b\\ \"#)); " ++
    "struct Shade(String); const B: Shade = Shade(\"red\");")).toOption).getD default

set_option maxRecDepth 100000 in
theorem shadeFile_read :
    (shadeFile.items.map (Item.textConstant? (shadeFile.context [])) =
      [some ("Shade", " a\"b\\ "), none, some ("Shade", "red")]) ∧
    (shadeFile.items.drop 1).flatMap (ConstDecl.ofSource (shadeFile.context [])) =
      [⟨["B"], "Shade", ["\"red\""]⟩] ∧
    ((DeclGroup.ofFiles "app" .library [] [shadeFile]).findType? "Shade").map (·.underlying) =
      some "String" := by
  decide +kernel

theorem text_values_in_schema_shades :
    shadeFile.items.map (Item.textConstant? (shadeFile.context [])) =
      [some ("Shade", " a\"b\\ "), none, some ("Shade", "red")] ∧
    ∃ d, (loneUnit [shadeFile]).Stands "app" "Shade" d ∧
      (d.schema .full).enumeration = some [.text " a\"b\\ ", .text "red"] := by
  obtain ⟨texts, rest, declares⟩ := shadeFile_read
  obtain ⟨item, back, split, isItem, _⟩ := List.map_eq_cons_iff.mp texts
  obtain ⟨decl, found, underlying⟩ := Option.map_eq_some_iff.mp declares
  have primitive : TypeText.primitive? decl.underlying = some ⟨"string", none⟩ := by
    rw [underlying]
    rfl
  rw [split, List.drop_succ_cons, List.drop_zero] at rest
  obtain ⟨⟨d, stands, schema⟩, _⟩ := @text_values_in_schema (loneUnit [shadeFile])
    (Loader.unchanging_fixed _) "app" rfl "app" .library [] [] [] shadeFile _
    (loneUnit_selection [shadeFile]) [] back item split "Shade" " a\"b\\ " [] []
    (.constant isItem) decl found _ primitive .full
  refine ⟨texts, d, stands, ?_⟩
  rw [schema d rfl, rest]
  decide +kernel

/-- A file with a constant whose text ends with a quote. -/
def quotingFile : SourceFile :=
  ((SourceFile.read "lib.rs" ("pub struct Shade(pub String);\n" ++
    "pub const QUOTED: Shade = Shade(r#\"say \"hi\"\"#);\n")).toOption).getD default

set_option maxRecDepth 100000 in
/-- The quote at the end of the text is missing in the schema. -/
theorem closing_quote_lost :
    quotingFile.items.map (Item.textConstant? (quotingFile.context [])) =
      [none, some ("Shade", "say \"hi\"")] ∧
    ∃ found left, (loneUnit [quotingFile]).resolve "app" "Shade" {} = (.ok found, left) ∧
      found.bind (fun d => (d.schema .full).enumeration) = some [.text "say \"hi"] := by
  have read : quotingFile.items.map (Item.textConstant? (quotingFile.context [])) =
        [none, some ("Shade", "say \"hi\"")] ∧
      ((loneUnit [quotingFile]).resolve "app" "Shade" {}).1.toOption.map
        (·.bind fun d => (d.schema .full).enumeration) = some (some [.text "say \"hi"]) := by
    decide +kernel
  exact ⟨read.1, exists_of_toOption read.2⟩

end ApiDocs
