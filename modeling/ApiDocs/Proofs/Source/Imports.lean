import ApiDocs.Proofs.Source.Bound
import Mathlib.Data.List.Perm.Basic

/-!
# How imports are written

A file can name the same things in many ways: by one use declaration with groups in it or by
several, in any order, at the top or in an inline module. `Regrouped` and `Rearranged` say which
files differ in such ways only. Their bindings are the same up to order
(`Rearranged.bindings_perm`), so if these are clear, every type is written alike in both files
(`types_written_alike`).
-/

namespace ApiDocs.Source

/-! ## Use declarations -/

namespace UseTree

/-- The trees name the same things: groups are dissolved or formed, and `self` stands for the name
that the tree is below. -/
inductive Regrouped : List UseTree → List UseTree → Prop
  | perm {trees others : List UseTree} : trees.Perm others → Regrouped trees others
  | symm {trees others : List UseTree} : Regrouped trees others → Regrouped others trees
  | trans {trees others further : List UseTree} :
    Regrouped trees others → Regrouped others further → Regrouped trees further
  | append {trees others trees' others' : List UseTree} :
    Regrouped trees others → Regrouped trees' others' →
      Regrouped (trees ++ trees') (others ++ others')
  | group (trees : List UseTree) : Regrouped [.group trees] trees
  | inside (name : String) {trees others : List UseTree} :
    Regrouped trees others → Regrouped (trees.map (.path name)) (others.map (.path name))
  | itself {name : String} : name ≠ "self" → Regrouped [.path name (.name "self")] [.name name]
  | renamed {name : String} (newName : String) : name ≠ "self" →
    Regrouped [.path name (.rename "self" newName)] [.rename name newName]

theorem Regrouped.refl (trees : List UseTree) : Regrouped trees trees := .perm (.refl trees)

theorem bindingsAll_eq_flatMap (above : List String) (trees : List UseTree) :
    bindingsAll above trees = trees.flatMap (bindings above) := by
  induction trees with
  | nil => rfl
  | cons tree trees ih => rw [bindingsAll, List.flatMap_cons, ih]

/-- However they are grouped, use declarations bind the same names to the same paths. -/
theorem Regrouped.bindings_perm {trees others : List UseTree} (same : Regrouped trees others)
    (above : List String) :
    (trees.flatMap (bindings above)).Perm (others.flatMap (bindings above)) := by
  induction same generalizing above with
  | perm reordered => exact reordered.flatMap_right _
  | symm _ ih => exact (ih above).symm
  | trans _ _ ih ih' => exact (ih above).trans (ih' above)
  | append _ _ ih ih' =>
      rw [List.flatMap_append, List.flatMap_append]
      exact (ih above).append (ih' above)
  | group trees =>
      rw [List.flatMap_singleton, bindings, bindingsAll_eq_flatMap]
  | inside name _ ih =>
      rw [List.flatMap_map, List.flatMap_map]
      simp only [bindings]
      exact ih (above ++ [name])
  | itself proper =>
      simp [bindings, proper]
  | renamed newName proper =>
      simp [bindings, proper]

end UseTree

/-! ## Files -/

/-- The kind without the places at which fields stand in the text. -/
def ItemKind.unplaced : ItemKind → ItemKind
  | .struct name parameters (.named fields) =>
    .struct name parameters (.named (fields.map ({ · with stop := default })))
  | .struct name parameters (.unnamed fields) =>
    .struct name parameters (.unnamed (fields.map ({ · with stop := default })))
  | kind => kind

/-- Whether the item is a module. -/
def ItemKind.isModule : ItemKind → Bool
  | .module _ _ => true
  | _ => false

/-- The files declare the same types and constants and name the same things: use declarations are
regrouped, items are put in another order, or moved out of inline modules that are not for tests or
into such. An item may come to stand at another place of the text. -/
inductive Rearranged : List Item → List Item → Prop
  | perm {items others : List Item} : items.Perm others → Rearranged items others
  | symm {items others : List Item} : Rearranged items others → Rearranged others items
  | trans {items others further : List Item} :
    Rearranged items others → Rearranged others further → Rearranged items further
  | append {items others items' others' : List Item} :
    Rearranged items others → Rearranged items' others' →
      Rearranged (items ++ items') (others ++ others')
  | regrouped {items others : List Item} {trees trees' : List UseTree} :
    UseTree.Regrouped trees trees' →
    List.Forall₂ (fun item tree => item.kind = .useDecl tree) items trees →
    List.Forall₂ (fun item tree => item.kind = .useDecl tree) others trees' →
      Rearranged items others
  | moduled {attributes : List Attribute} (name : String) (items : List Item) :
    isTestOnly attributes = false → Rearranged [⟨attributes, .module name true, items⟩] items
  | placed {attributes : List Attribute} {kind kind' : ItemKind} (nested nested' : List Item) :
    kind.unplaced = kind'.unplaced → (kind.isModule = true → isTestOnly attributes = true) →
      Rearranged [⟨attributes, kind, nested⟩] [⟨attributes, kind', nested'⟩]

theorem Rearranged.refl (items : List Item) : Rearranged items items := .perm (.refl items)

theorem unfoldedAll_eq_flatMap (items : List Item) :
    Item.unfolded.unfoldedAll items = items.flatMap Item.unfolded := by
  induction items with
  | nil => rfl
  | cons item items ih => rw [Item.unfolded.unfoldedAll, List.flatMap_cons, ih]

theorem unfoldedAll_append (items others : List Item) :
    Item.unfolded.unfoldedAll (items ++ others) =
      Item.unfolded.unfoldedAll items ++ Item.unfolded.unfoldedAll others := by
  rw [unfoldedAll_eq_flatMap, unfoldedAll_eq_flatMap, unfoldedAll_eq_flatMap, List.flatMap_append]

/-- Items other than modules are taken as they are. -/
theorem unfolded_of_not_module {attributes : List Attribute} {kind : ItemKind} {nested : List Item}
    (single : kind.isModule = false) :
    Item.unfolded ⟨attributes, kind, nested⟩ = [⟨attributes, kind, nested⟩] := by
  cases kind with
  | module name hasBody => cases single
  | _ => rfl

/-- The items of a module are taken in its place, unless it is for tests only. -/
theorem unfolded_of_module {attributes : List Attribute} {kind : ItemKind} {nested : List Item}
    (inner : kind.isModule = true) :
    Item.unfolded ⟨attributes, kind, nested⟩ =
      if isTestOnly attributes then [] else Item.unfolded.unfoldedAll nested := by
  cases kind with
  | module name hasBody => rfl
  | _ => cases inner

theorem unfoldedAll_uses {items : List Item} {trees : List UseTree}
    (uses : List.Forall₂ (fun item tree => item.kind = .useDecl tree) items trees) :
    Item.unfolded.unfoldedAll items = items := by
  induction uses with
  | nil => rfl
  | @cons item tree items trees own _ ih =>
      obtain ⟨attributes, kind, nested⟩ := item
      have single : kind.isModule = false := by rw [show kind = _ from own]; rfl
      rw [Item.unfolded.unfoldedAll, unfolded_of_not_module single, ih]
      rfl

theorem isModule_unplaced (kind : ItemKind) : kind.unplaced.isModule = kind.isModule := by
  cases kind with
  | struct name parameters fields => cases fields <;> rfl
  | _ => rfl

/-- What the items of a file give, if use declarations give the same when they are regrouped and the
places of fields do not matter, is the same up to order in rearranged files. -/
theorem Rearranged.flatMap_perm {α : Type} {part : Item → List α}
    (regroups : ∀ {trees trees' : List UseTree} {items others : List Item},
      UseTree.Regrouped trees trees' →
      List.Forall₂ (fun item tree => item.kind = .useDecl tree) items trees →
      List.Forall₂ (fun item tree => item.kind = .useDecl tree) others trees' →
        (items.flatMap part).Perm (others.flatMap part))
    (places : ∀ {attributes : List Attribute} {kind kind' : ItemKind} (nested nested' : List Item),
      kind.unplaced = kind'.unplaced → part ⟨attributes, kind, nested⟩ =
        part ⟨attributes, kind', nested'⟩)
    {items others : List Item} (same : Rearranged items others) :
    ((Item.unfolded.unfoldedAll items).flatMap part).Perm
      ((Item.unfolded.unfoldedAll others).flatMap part) := by
  induction same with
  | perm reordered =>
      rw [unfoldedAll_eq_flatMap, unfoldedAll_eq_flatMap]
      exact (reordered.flatMap_right _).flatMap_right _
  | symm _ ih => exact ih.symm
  | trans _ _ ih ih' => exact ih.trans ih'
  | append _ _ ih ih' =>
      rw [unfoldedAll_append, unfoldedAll_append, List.flatMap_append, List.flatMap_append]
      exact ih.append ih'
  | regrouped same ofTrees ofTrees' =>
      rw [unfoldedAll_uses ofTrees, unfoldedAll_uses ofTrees']
      exact regroups same ofTrees ofTrees'
  | @moduled attributes name items noTest =>
      have dissolved : Item.unfolded.unfoldedAll [⟨attributes, .module name true, items⟩] =
          Item.unfolded.unfoldedAll items := by
        rw [Item.unfolded.unfoldedAll, unfolded_of_module rfl, noTest]
        exact List.append_nil _
      rw [dissolved]
  | @placed attributes kind kind' nested nested' samePlace tests =>
      have modules : kind'.isModule = kind.isModule := by
        rw [← isModule_unplaced, ← samePlace, isModule_unplaced]
      simp only [Item.unfolded.unfoldedAll, List.append_nil]
      cases inner : kind.isModule with
      | true =>
          rw [unfolded_of_module inner, unfolded_of_module (modules.trans inner), tests inner]
          exact .nil
      | false =>
          rw [unfolded_of_not_module inner, unfolded_of_not_module (modules.trans inner),
            List.flatMap_singleton, List.flatMap_singleton, places nested nested' samePlace]

/-! ## Parts of files -/

/-- Bindings do not depend on where in the file something stands. -/
theorem bindings_unplaced (kind : ItemKind) : kind.unplaced.bindings = kind.bindings := by
  cases kind with
  | struct name parameters fields => cases fields <;> rfl
  | _ => rfl

/-- Use declarations bind what their trees bind. -/
theorem flatMap_bindings_uses {items : List Item} {trees : List UseTree}
    (uses : List.Forall₂ (fun item tree => item.kind = .useDecl tree) items trees) :
    items.flatMap (·.kind.bindings) = trees.flatMap (UseTree.bindings []) := by
  induction uses with
  | nil => rfl
  | cons own _ ih => rw [List.flatMap_cons, List.flatMap_cons, ih, own, ItemKind.bindings]

/-- Rearranged files bind the same names. -/
theorem Rearranged.bindings_perm {items others : List Item} (same : Rearranged items others) :
    (bindingsOf (Item.unfolded.unfoldedAll items)).Perm
      (bindingsOf (Item.unfolded.unfoldedAll others)) := by
  refine same.flatMap_perm ?_ ?_
  · intro trees trees' items others regrouped ofTrees ofTrees'
    rw [flatMap_bindings_uses ofTrees, flatMap_bindings_uses ofTrees']
    exact regrouped.bindings_perm []
  · intro attributes kind kind' _ _ places
    dsimp only
    rw [← bindings_unplaced, places, bindings_unplaced]

end Source

open Source

/-- The type without the comments after its fields. -/
def TypeDecl.uncommented (decl : TypeDecl) : TypeDecl :=
  { decl with fields := decl.fields.map ({ · with comment := "" }) }

/-- Comments apart, the type that an item declares does not depend on places in the text. -/
theorem TypeDecl.uncommented_ofSource? (uses : UseTable) (lines : List (List Char))
    (attributes : List Attribute) (kind : ItemKind) (nested : List Item) :
    (ofSource? ⟨uses, lines⟩ ⟨attributes, kind, nested⟩).map uncommented =
      (ofSource? ⟨uses, []⟩ ⟨attributes, kind.unplaced, []⟩).map uncommented := by
  cases kind with
  | struct name parameters fields =>
      cases fields with
      | named fields => simp [ofSource?, ItemKind.unplaced, uncommented, FieldDecl.ofSource]
      | unnamed fields =>
          rcases fields with _ | ⟨field, _ | ⟨second, fields⟩⟩ <;> rfl
      | unit => rfl
  | _ => rfl

/-- Constants do not depend on where in the file they stand. -/
theorem ConstDecl.ofSource_unplaced (uses : UseTable) (lines : List (List Char))
    (attributes : List Attribute) (kind : ItemKind) (nested : List Item) :
    ofSource ⟨uses, lines⟩ ⟨attributes, kind, nested⟩ =
      ofSource ⟨uses, []⟩ ⟨attributes, kind.unplaced, []⟩ := by
  cases kind with
  | struct name parameters fields => cases fields <;> rfl
  | _ => rfl

/-- Tables of names that agree give the same declaration of a type. -/
theorem TypeDecl.ofSource?_of_agrees {uses other : UseTable} (agrees : uses.Agrees other)
    (lines : List (List Char)) : ofSource? ⟨uses, lines⟩ = ofSource? ⟨other, lines⟩ := by
  have texts := TypeExpr.text_of_agrees agrees
  have fields : FieldDecl.ofSource ⟨uses, lines⟩ = FieldDecl.ofSource ⟨other, lines⟩ := by
    funext parameters field
    unfold FieldDecl.ofSource
    rw [texts]
  funext item
  unfold ofSource?
  simp only [texts, fields]

theorem ConstDecl.ofSource_of_agrees {uses other : UseTable} (agrees : uses.Agrees other)
    (lines : List (List Char)) : ofSource ⟨uses, lines⟩ = ofSource ⟨other, lines⟩ := by
  funext item
  unfold ofSource
  simp only [TypeExpr.text_of_agrees agrees]

/-- What does not come from use declarations, and depends on kinds without places only, is the same
up to order in rearranged files. -/
theorem Source.Rearranged.declared_perm {α : Type}
    (part : List Attribute → ItemKind → List α)
    (silent : ∀ attributes tree, part attributes (.useDecl tree) = [])
    {items others : List Item} (same : Rearranged items others) :
    ((Item.unfolded.unfoldedAll items).flatMap fun item =>
        part item.attributes item.kind.unplaced).Perm
      ((Item.unfolded.unfoldedAll others).flatMap fun item =>
        part item.attributes item.kind.unplaced) := by
  have ofUses : ∀ {items : List Item} {trees : List UseTree},
      List.Forall₂ (fun item tree => item.kind = .useDecl tree) items trees →
      (items.flatMap fun item => part item.attributes item.kind.unplaced) = [] := by
    intro items trees uses
    induction uses with
    | nil => rfl
    | cons own _ ih =>
        rw [List.flatMap_cons, ih, own, ItemKind.unplaced, silent, List.append_nil]
        all_goals nofun
  refine same.flatMap_perm ?_ ?_
  · intro _ _ _ _ _ ofTrees ofTrees'
    rw [ofUses ofTrees, ofUses ofTrees']
  · intro attributes kind kind' _ _ places
    dsimp only
    rw [places]

/-- Rearranged items declare the same types, apart from the comments that follow fields. -/
theorem Source.Rearranged.types_perm {items others : List Item} (same : Rearranged items others)
    (uses : UseTable) (lines lines' : List (List Char)) :
    (((Item.unfolded.unfoldedAll items).filterMap (TypeDecl.ofSource? ⟨uses, lines⟩)).map
        TypeDecl.uncommented).Perm
      (((Item.unfolded.unfoldedAll others).filterMap (TypeDecl.ofSource? ⟨uses, lines'⟩)).map
        TypeDecl.uncommented) := by
  have parts : ∀ (lines : List (List Char)) (items : List Item),
      (items.filterMap (TypeDecl.ofSource? ⟨uses, lines⟩)).map TypeDecl.uncommented =
        items.flatMap fun item => ((TypeDecl.ofSource? ⟨uses, []⟩
          ⟨item.attributes, item.kind.unplaced, []⟩).map TypeDecl.uncommented).toList := by
    intro lines items
    rw [List.map_filterMap, List.filterMap_eq_flatMap_toList]
    refine congrArg (items.flatMap ·) (funext fun item => ?_)
    exact congrArg Option.toList
      (TypeDecl.uncommented_ofSource? uses lines item.attributes item.kind item.nested)
  rw [parts, parts]
  exact same.declared_perm (fun attributes kind =>
    ((TypeDecl.ofSource? ⟨uses, []⟩ ⟨attributes, kind, []⟩).map TypeDecl.uncommented).toList)
    fun _ _ => rfl

/-- Rearranged items declare the same constants. -/
theorem Source.Rearranged.consts_perm {items others : List Item} (same : Rearranged items others)
    (uses : UseTable) (lines lines' : List (List Char)) :
    ((Item.unfolded.unfoldedAll items).flatMap (ConstDecl.ofSource ⟨uses, lines⟩)).Perm
      ((Item.unfolded.unfoldedAll others).flatMap (ConstDecl.ofSource ⟨uses, lines'⟩)) := by
  have parts : ∀ lines : List (List Char), ConstDecl.ofSource ⟨uses, lines⟩ = fun item =>
      ConstDecl.ofSource ⟨uses, []⟩ ⟨item.attributes, item.kind.unplaced, []⟩ := fun lines =>
    funext fun item =>
      ConstDecl.ofSource_unplaced uses lines item.attributes item.kind item.nested
  rw [parts lines, parts lines']
  exact same.declared_perm (fun attributes kind =>
    ConstDecl.ofSource ⟨uses, []⟩ ⟨attributes, kind, []⟩) fun _ _ => rfl

/-! ## Written types -/

/-- A file whose bindings are clear may write its imports in other ways, put its items in another
order or move them into inline modules that are not for tests. Every type is written alike, so the
types and constants that the file declares stay the same. How a path is written follows from what
its first name is bound to, under whatever name. -/
theorem types_written_alike (crates : Table ImportPath) (file other : SourceFile)
    (clear : Clear crates file.bindings)
    (same : Rearranged file.content.items other.content.items) :
    (∀ parameters type, TypeExpr.text (file.uses crates) parameters type =
      TypeExpr.text (other.uses crates) parameters type) ∧
    (∀ group, ((DeclGroup.addFile crates group file).types.map TypeDecl.uncommented).Perm
        ((DeclGroup.addFile crates group other).types.map TypeDecl.uncommented) ∧
      (DeclGroup.addFile crates group file).consts.Perm
        (DeclGroup.addFile crates group other).consts) ∧
    ∀ parameters, WritesPaths crates file.bindings parameters
      (TypeExpr.text (file.uses crates) parameters) := by
  have bound : file.bindings.Perm other.bindings := same.bindings_perm
  have reflects := reflects_ofBindings clear
  have agrees : (file.uses crates).Agrees (other.uses crates) :=
    reflects.agrees (reflects_ofBindings (clear.subset bound.symm.subset)) fun _ => bound.mem_iff
  refine ⟨TypeExpr.text_of_agrees agrees, fun group => ⟨?_, ?_⟩, reflects.writesPaths clear⟩
  · have types : ∀ file : SourceFile, (DeclGroup.addFile crates group file).types = group.types ++
        (Item.unfolded.unfoldedAll file.content.items).filterMap
          (TypeDecl.ofSource? ⟨file.uses crates, file.lines⟩) := fun _ => rfl
    rw [types, types, List.map_append, List.map_append, TypeDecl.ofSource?_of_agrees agrees]
    exact (same.types_perm _ _ _).append_left _
  · have consts : ∀ file : SourceFile, (DeclGroup.addFile crates group file).consts =
        group.consts ++ (Item.unfolded.unfoldedAll file.content.items).flatMap
          (ConstDecl.ofSource ⟨file.uses crates, file.lines⟩) := fun _ => rfl
    rw [consts, consts, ConstDecl.ofSource_of_agrees agrees]
    exact (same.consts_perm _ _ _).append_left _

/-- A use declaration. -/
def useItem (tree : UseTree) : Item := ⟨[], .useDecl tree, []⟩

/-- A structure with fields of imported types, which end anywhere. -/
def importingStruct (stop : Position) : Item :=
  ⟨[], .struct "S" [] (.named
    [⟨[], true, some "x", .path none "e" [], stop⟩,
     ⟨[], true, some "y", .path (some "c") "T" [], stop⟩]), []⟩

/-- Imports in one use declaration, before the structure. -/
def groupedFile : SourceFile :=
  ⟨"lib.rs", "", [], [useItem (.path "a" (.group [.name "b",
    .path "c" (.group [.name "self", .rename "d" "e"])])), importingStruct ⟨2, 0⟩]⟩

/-- The same imports in three use declarations, one of them in a module with the structure. -/
def separateFile : SourceFile :=
  ⟨"lib.rs", "", [], [⟨[], .module "m" true,
      [importingStruct ⟨3, 4⟩, useItem (.path "a" (.path "c" (.rename "d" "e")))]⟩,
    useItem (.path "a" (.name "c")), useItem (.path "a" (.name "b"))]⟩

/-- The one file regroups the use declarations of the other. -/
theorem rearranged_separateFile :
    Rearranged groupedFile.content.items separateFile.content.items := by
  have inner : UseTree.Regrouped [.path "c" (.group [.name "self", .rename "d" "e"])]
      [.name "c", .path "c" (.rename "d" "e")] :=
    (UseTree.Regrouped.inside "c" (.group _)).trans (.append (.itself (by decide)) (.refl _))
  have ungrouped : UseTree.Regrouped
      [.path "a" (.group [.name "b", .path "c" (.group [.name "self", .rename "d" "e"])])]
      [.path "a" (.name "b"), .path "a" (.name "c"), .path "a" (.path "c" (.rename "d" "e"))] :=
    .inside "a" ((UseTree.Regrouped.group _).trans (.append (.refl [.name "b"]) inner))
  have separate : Rearranged groupedFile.content.items
      ([useItem (.path "a" (.name "b")), useItem (.path "a" (.name "c")),
        useItem (.path "a" (.path "c" (.rename "d" "e")))] ++ [importingStruct ⟨3, 4⟩]) :=
    .append (.regrouped ungrouped (.cons rfl .nil) (.cons rfl (.cons rfl (.cons rfl .nil))))
      (.placed [] [] rfl nofun)
  have moved : Rearranged
      ([importingStruct ⟨3, 4⟩, useItem (.path "a" (.path "c" (.rename "d" "e")))] ++
        [useItem (.path "a" (.name "c")), useItem (.path "a" (.name "b"))])
      separateFile.content.items :=
    .append (.symm (.moduled "m" _ rfl)) (.refl _)
  exact (separate.trans (.perm (List.reverse_perm _).symm)).trans moved

/-- The type of the first field is written alike in both files, with the name that it has in the
dependency. -/
theorem types_written_alike_separate :
    Clear [("a", "crates/a")] groupedFile.bindings ∧
      Rearranged groupedFile.content.items separateFile.content.items ∧
      TypeExpr.text (separateFile.uses [("a", "crates/a")]) [] (.path none "e" []) = "a.d" := by
  have clear : Clear [("a", "crates/a")] groupedFile.bindings :=
    ⟨by decide +kernel, by decide +kernel⟩
  obtain ⟨alike, _, writes⟩ :=
    types_written_alike _ groupedFile separateFile clear rearranged_separateFile
  refine ⟨clear, rearranged_separateFile, ?_⟩
  rw [← alike]
  exact (writes []).item "e" [] "a" "d" (by decide) (by decide)
    ⟨["c"], by decide +kernel, by decide, by decide⟩

end ApiDocs
