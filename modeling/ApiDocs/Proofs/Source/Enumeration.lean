import ApiDocs.Declaration.OfSource
import ApiDocs.Proofs.Package.Uses
import ApiDocs.Proofs.Resolution
import ApiDocs.Proofs.Source.WireName
import Mathlib.Data.List.Basic

/-!
# Enumerations of source files

The values of a type are those of the constants that are written with its name, and the variants of
a fieldless enumeration are constants among them. So the values come file by file and item by item
(`DeclGroup.enumeration_ofFiles_of_item`), and an enumeration has its variants in one place, between
the values of the constants before it and after it (`fieldless_enumeration`).
-/

namespace ApiDocs

open Source

namespace SourceFile

/-- The items of a file with those of its inline modules in their place. -/
def items (file : SourceFile) : List Item := Item.unfolded.unfoldedAll file.content.items

/-- What is looked at for the declarations of a file. -/
def context (crates : Table ImportPath) (file : SourceFile) : SourceContext :=
  ⟨file.uses crates, file.lines⟩

/-- The types that a file declares. -/
def types (crates : Table ImportPath) (file : SourceFile) : List TypeDecl :=
  file.items.filterMap (TypeDecl.ofSource? (file.context crates))

/-- The constants that a file declares. -/
def consts (crates : Table ImportPath) (file : SourceFile) : List ConstDecl :=
  file.items.flatMap (ConstDecl.ofSource (file.context crates))

end SourceFile

/-- The values of a type among constants, as written. -/
def valuesOf (typeName : String) (consts : List ConstDecl) : List String :=
  (consts.filter (·.typeText == typeName)).filterMap ConstDecl.value?

theorem valuesOf_append (typeName : String) (consts more : List ConstDecl) :
    valuesOf typeName (consts ++ more) = valuesOf typeName consts ++ valuesOf typeName more := by
  rw [valuesOf, List.filter_append, List.filterMap_append, ← valuesOf, ← valuesOf]

theorem valuesOf_flatMap {α : Type} (typeName : String) (consts : α → List ConstDecl)
    (parts : List α) :
    valuesOf typeName (parts.flatMap consts) =
      parts.flatMap fun part => valuesOf typeName (consts part) := by
  rw [valuesOf, List.filter_flatMap, List.filterMap_flatMap]
  rfl

namespace DeclGroup

/-- The types and constants of files stand in the group in their order. -/
theorem decls_ofFiles (name : String) (kind : TargetKind) (crates : Table ImportPath)
    (files : List SourceFile) :
    (ofFiles name kind crates files).types = files.flatMap (SourceFile.types crates) ∧
      (ofFiles name kind crates files).consts = files.flatMap (SourceFile.consts crates) := by
  have added : ∀ (files : List SourceFile) (group : DeclGroup),
      (files.foldl (addFile crates) group).types =
        group.types ++ files.flatMap (SourceFile.types crates) ∧
      (files.foldl (addFile crates) group).consts =
        group.consts ++ files.flatMap (SourceFile.consts crates) := by
    intro files
    induction files with
    | nil => simp
    | cons first files ih =>
        intro group
        obtain ⟨types, consts⟩ := ih (addFile crates group first)
        rw [List.foldl_cons, types, consts, List.flatMap_cons, List.flatMap_cons,
          ← List.append_assoc, ← List.append_assoc]
        exact ⟨rfl, rfl⟩
  exact added files _

section Parts

variable {unit : String} {target : TargetKind} {crates : Table ImportPath}
  {before after : List SourceFile} {file : SourceFile} {front back : List Item} {item : Item}
  (items : file.items = front ++ item :: back)

include items

/-- The types that are declared before an item, the one that it declares, and those after it. -/
theorem types_ofFiles_of_item {decl : TypeDecl}
    (made : TypeDecl.ofSource? (file.context crates) item = some decl) :
    (ofFiles unit target crates (before ++ file :: after)).types =
      (before.flatMap (SourceFile.types crates) ++
        front.filterMap (TypeDecl.ofSource? (file.context crates))) ++ decl ::
      (back.filterMap (TypeDecl.ofSource? (file.context crates)) ++
        after.flatMap (SourceFile.types crates)) := by
  rw [(decls_ofFiles unit target crates _).1, List.flatMap_append, List.flatMap_cons,
    SourceFile.types, items, List.filterMap_append, List.filterMap_cons_some made]
  simp only [List.append_assoc, List.cons_append]

/-- The values of a type before an item, in it and after it. -/
theorem enumeration_ofFiles_of_item (imports : List ImportDecl) (typeName : String) :
    enumeration { ofFiles unit target crates (before ++ file :: after) with imports } typeName =
      valuesOf typeName (before.flatMap (SourceFile.consts crates) ++
        front.flatMap (ConstDecl.ofSource (file.context crates))) ++
      valuesOf typeName (ConstDecl.ofSource (file.context crates) item) ++
      valuesOf typeName (back.flatMap (ConstDecl.ofSource (file.context crates)) ++
        after.flatMap (SourceFile.consts crates)) := by
  rw [enumeration, constsOf, (decls_ofFiles unit target crates _).2, ← valuesOf,
    List.flatMap_append, List.flatMap_cons, SourceFile.consts, items, List.flatMap_append,
    List.flatMap_cons]
  simp only [valuesOf_append, List.append_assoc]

end Parts

/-- The definition of a type that stands for a primitive. -/
theorem primitive_definition (group : DeclGroup) (path : ImportPath) {decl : TypeDecl}
    (primitive : TypeText.isPrimitive decl.underlying = true) :
    (group.definition path decl).underlying = decl.underlying ∧
      (group.definition path decl).enumerations = some (group.enumeration decl.name) := by
  have core := decl.core_definition group.name path
  have name := Definition.name_eq_of_core core
  have underlying := Definition.underlying_eq_of_core core
  rw [definition, Definition.isPrimitive, underlying, if_pos primitive, name]
  exact ⟨rfl, rfl⟩

end DeclGroup

/-! ## What stands for a type -/

/-- The type of a unit stands for a definition: its name in the unit itself is resolved to it, and
whatever a reference anywhere is resolved to is this definition, if it is of this type. -/
def Scope.Stands (scope : Scope) (path : ImportPath) (name : String) (d : Definition) : Prop :=
  (∀ text journal, TypeText.reference text = ⟨none, name⟩ →
    (scope.resolve path text journal).1 = .ok (some d)) ∧
  ∀ referring text journal e, (scope.resolve referring text journal).1 = .ok (some e) →
    e.importPath = path → e.name = name → e = d

theorem Scope.stands_of_selected {scope : Scope} (unchanging : scope.loader.Unchanging)
    {path : ImportPath} (known : (scope.graph.get? path).isSome = true) {group : DeclGroup}
    (selected : (scope.loader.answer path 0).selection path = .ok (some group)) {name : String}
    {decl : TypeDecl} (declares : group.findType? name = some decl) :
    scope.Stands path name (group.definition path decl) := by
  have declared : scope.declared path name = .ok (some (group.definition path decl)) := by
    obtain ⟨unit, present⟩ := Option.isSome_iff_exists.mp known
    rw [Scope.declared, present, selected]
    simp [declares]
  constructor
  · intro text journal bare
    rw [resolve_fst unchanging, bare, UnitGraph.candidates, found, declared]
  · intro referring text journal e resolves samePath sameName
    have finds := resolved?_of_resolve unchanging (Prod.ext resolves rfl)
    obtain ⟨_, _, again⟩ := declared_of_resolved? unchanging finds
    rw [samePath, sameName, declared] at again
    exact (Option.some.inj (Except.ok.inj again)).symm

/-! ## Items -/

/-- A text in quotes. -/
def quoted (text : String) : String := "\"" ++ text ++ "\""

/-- The values that variants have on the wire, in quotes. -/
def serialized (variants : List Variant) : List String :=
  (variants.filterMap Variant.wireName?).map quoted

/-- The values of variants by the entries that are written at them: a variant that is left out has
none, and any other has its name on the wire. -/
inductive Serializes : List Variant → List String → Prop
  | nil : Serializes [] []
  | omitted {variant : Variant} {variants : List Variant} {values : List String} :
    Omitted (entriesNamed "serde" variant.attributes) → Serializes variants values →
    Serializes (variant :: variants) values
  | named {variant : Variant} {variants : List Variant} {name : String} {values : List String} :
    variant.Named name → Serializes variants values →
    Serializes (variant :: variants) (quoted name :: values)

/-- Variants have exactly one list of values, and it is the one that is computed. -/
theorem serializes_iff {variants : List Variant} {values : List String} :
    Serializes variants values ↔ serialized variants = values := by
  constructor
  · intro serializes
    induction serializes with
    | nil => rfl
    | omitted out _ ih =>
        rw [serialized, List.filterMap_cons_none (Variant.wireName?_eq_none_iff.mpr out)]
        exact ih
    | named named _ ih =>
        rw [serialized, List.filterMap_cons_some (Variant.wireName?_eq_some_iff.mpr named),
          List.map_cons]
        exact congrArg _ ih
  · rintro rfl
    induction variants with
    | nil => exact .nil
    | cons variant variants ih =>
        cases wire : variant.wireName? with
        | none =>
            rw [serialized, List.filterMap_cons_none wire]
            exact .omitted (Variant.wireName?_eq_none_iff.mp wire) ih
        | some name =>
            rw [serialized, List.filterMap_cons_some wire]
            exact .named (Variant.wireName?_eq_some_iff.mp wire) ih

namespace Source.Item

/-- The value of a constant that is declared with the type and has one value. -/
def constant? (context : SourceContext) (typeName : String) (item : Item) : Option String :=
  match item.kind with
  | .const name type value =>
    if type.text context.uses [] = typeName then ConstDecl.value? ⟨[name], typeName, value.values⟩
    else none
  | _ => none

variable {context : SourceContext} {typeName : String} {item : Item}

theorem valuesOf_variants {variants : List Variant} (kind : item.kind = .enum typeName variants)
    (fieldless : isFieldless variants = true) :
    valuesOf typeName (ConstDecl.ofSource context item) = serialized variants := by
  have made : ConstDecl.ofSource context item = variants.filterMap fun variant =>
      variant.wireName?.map fun wire => ⟨[variant.name], typeName, [quoted wire]⟩ := by
    rw [ConstDecl.ofSource, kind]
    exact if_pos fieldless
  rw [made, valuesOf, List.filter_eq_self.mpr, List.filterMap_filterMap, serialized,
    List.map_filterMap]
  · apply List.filterMap_congr
    intro variant _
    cases variant.wireName? <;> rfl
  · intro decl among
    obtain ⟨variant, _, given⟩ := List.mem_filterMap.mp among
    obtain ⟨wire, _, rfl⟩ := Option.map_eq_some_iff.mp given
    exact beq_self_eq_true typeName

/-- Apart from the enumeration itself, values come from constants. -/
theorem valuesOf_other
    (other : ∀ decl, TypeDecl.ofSource? context item = some decl → decl.name ≠ typeName) :
    valuesOf typeName (ConstDecl.ofSource context item) =
      (item.constant? context typeName).toList := by
  rw [ConstDecl.ofSource, constant?]
  cases kind : item.kind with
  | const name type value =>
      by_cases same : type.text context.uses [] = typeName
      · cases value : ConstDecl.value? ⟨[name], typeName, value.values⟩ with
        | none => simp [valuesOf, same, value]
        | some text => simp [valuesOf, same, value]
      · simp [valuesOf, same]
  | enum name variants =>
      have differs : name ≠ typeName := by
        have declares : (TypeDecl.ofSource? context item).map (·.name) = some name := by
          rw [TypeDecl.ofSource?, kind]
          rfl
        obtain ⟨decl, made, rfl⟩ := Option.map_eq_some_iff.mp declares
        exact other decl made
      dsimp only
      split
      · refine List.filterMap_eq_nil_iff.mpr fun decl among => ?_
        obtain ⟨among, named⟩ := List.mem_filter.mp among
        obtain ⟨variant, _, made⟩ := List.mem_filterMap.mp among
        obtain ⟨wire, _, rfl⟩ := Option.map_eq_some_iff.mp made
        exact absurd (by simpa using named) differs
      · rfl
  | _ => rfl

/-- The values of items that do not declare the type. -/
theorem valuesOf_others {items : List Item}
    (others : ∀ decl ∈ items.filterMap (TypeDecl.ofSource? context), decl.name ≠ typeName) :
    valuesOf typeName (items.flatMap (ConstDecl.ofSource context)) =
      items.filterMap (constant? context typeName) := by
  rw [valuesOf_flatMap, List.filterMap_eq_flatMap_toList]
  apply List.flatMap_congr
  intro item among
  exact valuesOf_other fun decl made => others decl (List.mem_filterMap.mpr ⟨item, among, made⟩)

end Source.Item

/-- The values of the constants in a file that are declared with the type. -/
def SourceFile.constants (crates : Table ImportPath) (typeName : String) (file : SourceFile) :
    List String :=
  file.items.filterMap (Item.constant? (file.context crates) typeName)

/-- The values of files that do not declare the type. -/
theorem SourceFile.valuesOf_others {crates : Table ImportPath} {typeName : String}
    {files : List SourceFile}
    (others : ∀ decl ∈ files.flatMap (SourceFile.types crates), decl.name ≠ typeName) :
    valuesOf typeName (files.flatMap (SourceFile.consts crates)) =
      files.flatMap (SourceFile.constants crates typeName) := by
  rw [valuesOf_flatMap]
  apply List.flatMap_congr
  intro file among
  exact Item.valuesOf_others fun decl here => others decl (List.mem_flatMap.mpr ⟨file, among, here⟩)

/-- Where a declaration is the only one of its name, those before and after it have other names. -/
theorem others_of_count {front back : List TypeDecl} {decl : TypeDecl}
    (only : ((front ++ decl :: back).map (·.name)).count decl.name = 1) :
    (∀ other ∈ front, other.name ≠ decl.name) ∧ ∀ other ∈ back, other.name ≠ decl.name := by
  rw [List.map_append, List.map_cons, List.count_append, List.count_cons_self] at only
  have none : ∀ decls : List TypeDecl, (decls.map (·.name)).count decl.name = 0 →
      ∀ other ∈ decls, other.name ≠ decl.name := by
    intro decls absent other among same
    exact List.count_eq_zero.mp absent (List.mem_map.mpr ⟨other, among, same⟩)
  exact ⟨none front (by omega), none back (by omega)⟩

/-! ## Fieldless enumerations -/

/-- In whatever files it stands, a fieldless enumeration that is the only type of its name has for
its values those of its variants on the wire, in their order and in one place. Before and after them
stand the values of the constants that are declared with the enumeration as their type, and it has
the values of its variants alone exactly if there are no such constants. -/
theorem fieldless_enumeration {scope : Scope} (unchanging : scope.loader.Unchanging)
    {path : ImportPath} (known : (scope.graph.get? path).isSome = true) {unit : String}
    {target : TargetKind} {crates : Table ImportPath} {before after : List SourceFile}
    {file : SourceFile} {imports : List ImportDecl}
    (selected : (scope.loader.answer path 0).selection path = .ok (some
      { DeclGroup.ofFiles unit target crates (before ++ file :: after) with imports }))
    {front back : List Item} {item : Item} (items : file.items = front ++ item :: back)
    {name : String} {variants : List Variant} (kind : item.kind = .enum name variants)
    (fieldless : isFieldless variants = true)
    (only : ((DeclGroup.ofFiles unit target crates (before ++ file :: after)).types.map
      (·.name)).count name = 1) :
    let earlier := before.flatMap (SourceFile.constants crates name) ++
      front.filterMap (Item.constant? (file.context crates) name)
    let later := back.filterMap (Item.constant? (file.context crates) name) ++
      after.flatMap (SourceFile.constants crates name)
    ∃ d, scope.Stands path name d ∧
      d.enumerations = some (earlier ++ serialized variants ++ later) ∧
      (d.enumerations = some (serialized variants) ↔ earlier = [] ∧ later = []) := by
  intro earlier later
  let group : DeclGroup :=
    { DeclGroup.ofFiles unit target crates (before ++ file :: after) with imports }
  obtain ⟨decl, made, named, isText⟩ : ∃ decl, TypeDecl.ofSource? (file.context crates) item =
      some decl ∧ decl.name = name ∧ decl.underlying = textType := by
    refine ⟨⟨name, docText item.attributes, textType, []⟩, ?_, rfl, rfl⟩
    simp [TypeDecl.ofSource?, kind, fieldless]
  subst named
  have types : group.types = _ := DeclGroup.types_ofFiles_of_item items made
  rw [DeclGroup.types_ofFiles_of_item items made] at only
  obtain ⟨othersBefore, othersAfter⟩ := others_of_count only
  -- it is the declaration that is found, since those before it have other names
  have declares : group.findType? decl.name = some decl := by
    rw [DeclGroup.findType?, types, List.find?_append, List.find?_eq_none.mpr]
    · simp
    · simpa using othersBefore
  rw [List.forall_mem_append] at othersBefore othersAfter
  have enumerations : (group.definition path decl).enumerations =
      some (earlier ++ serialized variants ++ later) := by
    have primitive : TypeText.isPrimitive decl.underlying = true := by
      rw [isText]
      decide
    rw [(group.primitive_definition path primitive).2,
      DeclGroup.enumeration_ofFiles_of_item items, valuesOf_append, valuesOf_append,
      SourceFile.valuesOf_others othersBefore.1, Item.valuesOf_others othersBefore.2,
      Item.valuesOf_variants kind fieldless, Item.valuesOf_others othersAfter.1,
      SourceFile.valuesOf_others othersAfter.2]
  refine ⟨_, Scope.stands_of_selected unchanging known selected declares, enumerations, ?_⟩
  rw [enumerations, Option.some.injEq]
  constructor
  · intro same
    have lengths := congrArg List.length same
    simp only [List.length_append] at lengths
    exact ⟨List.eq_nil_of_length_eq_zero (by omega), List.eq_nil_of_length_eq_zero (by omega)⟩
  · intro none
    rw [none.1, none.2, List.nil_append, List.append_nil]

/-! ## Pets -/

/-- What an item is to the values of a type: an enumeration with its name, whether it is fieldless
and its values, or a constant of the type with its value. -/
def Source.Item.outline (context : SourceContext) (typeName : String) (item : Item) :
    Option (String × Bool × List String) × Option String :=
  (match item.kind with
    | .enum name variants => some (name, isFieldless variants, serialized variants)
    | _ => none,
   item.constant? context typeName)

theorem Source.Item.exists_of_outline {context : SourceContext} {typeName name : String}
    {item : Item} {values : List String} {value? : Option String}
    (outlined : item.outline context typeName = (some (name, true, values), value?)) :
    ∃ variants, item.kind = .enum name variants ∧ isFieldless variants = true ∧
      serialized variants = values := by
  have declares := congrArg Prod.fst outlined
  rw [outline] at declares
  split at declares
  · rename_i enumName variants kind
    simp only [Option.some.injEq, Prod.mk.injEq] at declares
    obtain ⟨rfl, fieldless, rfl⟩ := declares
    exact ⟨variants, kind, fieldless, rfl⟩
  · cases declares

/-- A unit of files that uses no other. -/
def loneUnit (files : List SourceFile) : Scope where
  graph := ⟨[("app", { importPath := "app", name := "app", imports := [] })]⟩
  loader := .fixed [("app", [.ofFiles "app" .library [] files])]

theorem loneUnit_selection (files : List SourceFile) :
    ((loneUnit files).loader.answer "app" 0).selection "app" = .ok (some
      { DeclGroup.ofFiles "app" .library [] files with
        imports := (DeclGroup.ofFiles "app" .library [] files).imports }) := by
  have kind : ∀ (files : List SourceFile) (group : DeclGroup),
      (files.foldl (DeclGroup.addFile []) group).kind = group.kind := by
    intro files
    induction files with
    | nil => exact fun group => rfl
    | cons first files ih => exact fun group => ih _
  have chosen : selectGroup [.ofFiles "app" .library [] files] =
      some (.ofFiles "app" .library [] files) := by
    rw [selectGroup, List.foldl_cons, List.foldl_nil, preferGroup, if_neg]
    rw [DeclGroup.ofFiles, kind]
    decide
  have answered : ((loneUnit files).loader.answer "app" 0).groups =
      .ok (some [.ofFiles "app" .library [] files]) := rfl
  rw [Answer.selection, answered]
  simp only [chosen]

/-- A file with a constant, and with an enumeration in a module. -/
def petFile : SourceFile :=
  ((SourceFile.read "lib.rs" ("const A: Kind = 1; mod m \x7b enum Kind \x7b Cat, " ++
    "#[serde(rename = \"dog\")] Dog, #[serde(skip)] Eel \x7d \x7d")).toOption).getD default

/-- A file with another constant. -/
def petDefaultFile : SourceFile :=
  ((SourceFile.read "m.rs" "const B: Kind = Kind::Cat;").toOption).getD default

set_option maxRecDepth 100000 in
theorem petFiles_read :
    (DeclGroup.ofFiles "app" .library [] [petFile, petDefaultFile]).types.map (·.name) = ["Kind"] ∧
    petFile.items.map (Item.outline (petFile.context []) "Kind") =
      [(none, some "1"), (some ("Kind", true, ["\"Cat\"", "\"dog\""]), none)] ∧
    petDefaultFile.constants [] "Kind" = ["Kind :: Cat"] := by
  decide +kernel

theorem fieldless_enumeration_pets :
    ((DeclGroup.ofFiles "app" .library [] [petFile, petDefaultFile]).types.map (·.name)).count
      "Kind" = 1 ∧
    ∃ d, (loneUnit [petFile, petDefaultFile]).Stands "app" "Kind" d ∧
      d.enumerations = some ["1", "\"Cat\"", "\"dog\"", "Kind :: Cat"] := by
  obtain ⟨names, outlines, constants⟩ := petFiles_read
  have only : ((DeclGroup.ofFiles "app" .library [] [petFile, petDefaultFile]).types.map
      (·.name)).count "Kind" = 1 := by
    rw [names]
    decide
  obtain ⟨first, rest, split, isFirst, restOutlines⟩ := List.map_eq_cons_iff.mp outlines
  obtain ⟨item, last, rfl, isItem, lastOutlines⟩ := List.map_eq_cons_iff.mp restOutlines
  obtain rfl := List.map_eq_nil_iff.mp lastOutlines
  obtain ⟨variants, kind, fieldless, wires⟩ := Item.exists_of_outline isItem
  have value : first.constant? (petFile.context []) "Kind" = some "1" := congrArg Prod.snd isFirst
  obtain ⟨d, stands, enumerations, _⟩ := @fieldless_enumeration (loneUnit [petFile, petDefaultFile])
    (Loader.unchanging_fixed _) "app" rfl "app" .library [] [] [petDefaultFile] petFile _
    (loneUnit_selection [petFile, petDefaultFile]) [first] [] item split "Kind" variants kind
    fieldless only
  refine ⟨only, d, stands, ?_⟩
  rw [enumerations, wires]
  simp [value, constants]

/-- A file with an enumeration and a constant of its type. -/
def kindFile : SourceFile :=
  ((SourceFile.read "lib.rs" ("pub enum Kind \x7b Cat, Dog \x7d\n" ++
    "pub const DEFAULT: Kind = Kind::Cat;\n")).toOption).getD default

set_option maxRecDepth 100000 in
/-- The expression of the constant stands among the values of the enumeration, although no variant
is written so. -/
theorem constant_joins_enumeration :
    (DeclGroup.ofFiles "app" .library [] [kindFile]).types.map (·.name) = ["Kind"] ∧
    kindFile.items.map (Item.outline (kindFile.context []) "Kind") =
      [(some ("Kind", true, ["\"Cat\"", "\"Dog\""]), none), (none, some "Kind :: Cat")] ∧
    ∃ found left, (loneUnit [kindFile]).resolve "app" "Kind" {} = (.ok found, left) ∧
      found.bind (·.enumerations) = some ["\"Cat\"", "\"Dog\"", "Kind :: Cat"] := by
  have read : (DeclGroup.ofFiles "app" .library [] [kindFile]).types.map (·.name) = ["Kind"] ∧
      kindFile.items.map (Item.outline (kindFile.context []) "Kind") =
        [(some ("Kind", true, ["\"Cat\"", "\"Dog\""]), none), (none, some "Kind :: Cat")] ∧
      ((loneUnit [kindFile]).resolve "app" "Kind" {}).1.toOption.map
        (·.bind (·.enumerations)) = some (some ["\"Cat\"", "\"Dog\"", "Kind :: Cat"]) := by
    decide +kernel
  exact ⟨read.1, read.2.1, exists_of_toOption read.2.2⟩

end ApiDocs
