import ApiDocs.Proofs.Package.Qualifiers

/-!
# The first unit that declares a name

In a loaded graph resolution never fails. A bare name is looked up in the unit itself, a qualified
one in the imports that bind the qualifier, in order of first mention, and the first declaration of
the name in the first of these units that has one is what the reference stands for
(`resolve_first_declaring`). An import under `_` binds nothing and is no mention.
-/

namespace ApiDocs

/-! ## Texts of references -/

namespace TypeText

/-- A text of pointer markers and a reference. -/
inductive Denotes : List Char → Reference → Prop
  | bare {name : List Char} : name.head? ≠ some '*' → '.' ∉ name →
    Denotes name ⟨none, .ofList name⟩
  | qualified {qualifier : List Char} (name : List Char) : qualifier.head? ≠ some '*' →
    '.' ∉ qualifier → Denotes (qualifier ++ '.' :: name) ⟨some (.ofList qualifier), .ofList name⟩
  | pointer {text : List Char} {reference : Reference} : Denotes text reference →
    Denotes ('*' :: text) reference

theorem stripPointers_of_head? {text : List Char} (unmarked : text.head? ≠ some '*') :
    stripPointers text = text := by
  cases text with
  | nil => rfl
  | cons c text => exact List.dropWhile_cons_of_neg (by simpa using unmarked)

theorem denotes_reference (text : List Char) : Denotes text (reference (.ofList text)) := by
  induction text with
  | nil => exact .bare nofun List.not_mem_nil
  | cons c text ih =>
      by_cases marked : c = '*'
      · subst marked
        have same : reference (.ofList ('*' :: text)) = reference (.ofList text) := by
          rw [reference, reference, String.toList_ofList, String.toList_ofList]
          rfl
        rw [same]
        exact .pointer ih
      · have unmarked : (c :: text).head? ≠ some '*' := by simpa using marked
        rw [reference, String.toList_ofList, stripPointers_of_head? unmarked]
        by_cases pointed : '.' ∈ c :: text
        · obtain ⟨qualifier, name, split, fresh⟩ := List.eq_append_cons_of_mem pointed
          rw [split, Text.splitOnce_append _ fresh]
          refine .qualified name (fun first => unmarked ?_) fresh
          rw [split, List.head?_append, first]
          rfl
        · rw [Text.splitOnce_eq_none pointed]
          exact .bare unmarked pointed

/-- Every text denotes one reference. -/
theorem denotes_iff {text : List Char} {denoted : Reference} :
    Denotes text denoted ↔ denoted = reference (.ofList text) := by
  refine ⟨fun denotes => ?_, fun same => same ▸ denotes_reference text⟩
  induction denotes with
  | bare unmarked noPoint =>
      rw [reference, String.toList_ofList, stripPointers_of_head? unmarked,
        Text.splitOnce_eq_none noPoint]
  | @qualified qualifier name unmarked noPoint =>
      have first : (qualifier ++ '.' :: name).head? ≠ some '*' := by
        rw [List.head?_append]
        cases qualifier with
        | nil => simp
        | cons c qualifier => exact unmarked
      rw [reference, String.toList_ofList, stripPointers_of_head? first,
        Text.splitOnce_append _ noPoint]
  | pointer _ ih =>
      rw [ih, reference, reference, String.toList_ofList, String.toList_ofList]
      rfl

end TypeText

/-! ## Declarations of a unit -/

/-- The values of the constants that have exactly this type, one name and one value, in order. -/
def DeclGroup.singleValues (group : DeclGroup) (typeText : String) : List String :=
  (group.consts.filter fun decl =>
    decl.typeText = typeText ∧ decl.names.length = 1 ∧ decl.values.length = 1).flatMap (·.values)

/-- A constant gives a value if it has one name and one value. -/
theorem ConstDecl.toList_value? (decl : ConstDecl) :
    decl.value?.toList =
      if decl.names.length = 1 ∧ decl.values.length = 1 then decl.values else [] := by
  obtain ⟨names, _, values⟩ := decl
  rcases names with _ | ⟨name, _ | ⟨_, names⟩⟩
  · rfl
  · rcases values with _ | ⟨value, _ | ⟨_, values⟩⟩
    · rfl
    · rfl
    · simp [value?]
  · simp [value?]

/-- The values of a type are those of its enumeration. -/
theorem DeclGroup.singleValues_eq (group : DeclGroup) (typeText : String) :
    group.singleValues typeText = group.enumeration typeText := by
  rw [singleValues, enumeration, constsOf, List.filterMap_eq_flatMap_toList]
  induction group.consts with
  | nil => rfl
  | cons decl consts ih =>
      by_cases typed : decl.typeText = typeText
      · by_cases single : decl.names.length = 1 ∧ decl.values.length = 1
        · rw [List.filter_cons_of_pos (by simp [typed, single]),
            List.filter_cons_of_pos (by simp [typed]), List.flatMap_cons, List.flatMap_cons, ih,
            decl.toList_value?, if_pos single]
        · rw [List.filter_cons_of_neg (by simpa [typed] using single),
            List.filter_cons_of_pos (by simp [typed]), List.flatMap_cons, ih,
            decl.toList_value?, if_neg single, List.nil_append]
      · rw [List.filter_cons_of_neg (by simp [typed]), List.filter_cons_of_neg (by simp [typed]),
          ih]

/-- A group defines a type as it is declared, with its enumeration if the type is primitive. -/
theorem DeclGroup.definition_eq (group : DeclGroup) (path : ImportPath) (decl : TypeDecl) :
    group.definition path decl = { decl.definition group.name path with
      enumerations := if TypeText.isPrimitive decl.underlying then
        some (group.singleValues decl.name) else none } := by
  have core := decl.core_definition group.name path
  have name : (decl.definition group.name path).name = decl.name :=
    Definition.name_eq_of_core core
  have primitive : (decl.definition group.name path).isPrimitive =
      TypeText.isPrimitive decl.underlying :=
    congrArg TypeText.isPrimitive (Definition.underlying_eq_of_core core)
  have unlisted : (decl.definition group.name path).enumerations = none :=
    Definition.enumerations_eq_of_core core
  rw [definition, primitive, group.singleValues_eq]
  split
  · rw [← name]
  · rw [← unlisted]

namespace Scope

/-- The unit at the path is loaded, and the group stands for it. -/
def Selects (scope : Scope) (path : ImportPath) (group : DeclGroup) : Prop :=
  path ∈ scope.graph.paths ∧ ∃ groups,
    (scope.loader.answer path 0).groups = .ok (some groups) ∧ selectGroup groups = some group

/-- The first declaration of the name in the group that stands for a loaded unit, as a definition:
with the name and path of the unit, and with the values of its constants if it stands for a
primitive. -/
def Declares (scope : Scope) (path : ImportPath) (name : String) (d : Definition) : Prop :=
  ∃ group before decl after, scope.Selects path group ∧
    group.types = before ++ decl :: after ∧ decl.name = name ∧
    (∀ earlier ∈ before, earlier.name ≠ name) ∧
    d = { decl.definition group.name path with
          enumerations :=
            if TypeText.isPrimitive decl.underlying then some (group.singleValues name) else none }

variable {scope : Scope}

/-- A unit is selected if it is in the graph and its first answer gives a group. -/
theorem selects_iff {path : ImportPath} {group : DeclGroup} :
    scope.Selects path group ↔ (scope.graph.get? path).isNone = false ∧
      (scope.loader.answer path 0).selection path = .ok (some group) := by
  have loaded : path ∈ scope.graph.paths ↔ (scope.graph.get? path).isNone = false := by
    rw [Option.isNone_eq_false_iff]
    exact Table.has_iff.symm
  rw [Selects, loaded, Answer.selection]
  refine and_congr_right fun _ => ?_
  cases (scope.loader.answer path 0).groups with
  | error failure => simp
  | ok groups =>
      cases groups with
      | none => simp
      | some groups => cases chosen : selectGroup groups <;> simp [chosen]

/-- To declare a name is to be asked for it and to give a definition. -/
theorem declares_iff {path : ImportPath} {name : String} {d : Definition} :
    scope.Declares path name d ↔ scope.declared path name = .ok (some d) := by
  have first : ∀ group : DeclGroup, ∀ decl, group.findType? name = some decl ↔
      decl.name = name ∧ ∃ before after, group.types = before ++ decl :: after ∧
        ∀ earlier ∈ before, earlier.name ≠ name := by
    intro group decl
    rw [DeclGroup.findType?, List.find?_eq_some_iff_append]
    simp
  constructor
  · rintro ⟨group, before, decl, after, selects, split, rfl, earlier, rfl⟩
    obtain ⟨present, selected⟩ := selects_iff.mp selects
    have declares := (first group decl).mpr ⟨rfl, before, after, split, earlier⟩
    rw [declared, present, if_neg Bool.false_ne_true, selected]
    dsimp only
    rw [declares, Option.map_some, DeclGroup.definition_eq]
  · intro declares
    rw [declared] at declares
    split at declares
    · cases declares
    · rename_i present
      split at declares
      · cases declares
      · cases declares
      · rename_i group selected
        obtain ⟨decl, found, rfl⟩ := Option.map_eq_some_iff.mp (Except.ok.inj declares)
        obtain ⟨named, before, after, split, earlier⟩ := (first group decl).mp found
        refine ⟨group, before, decl, after,
          selects_iff.mpr ⟨Bool.eq_false_iff.mpr present, selected⟩, split, named, earlier, ?_⟩
        rw [DeclGroup.definition_eq, named]

/-- What is declared has the name that was asked for and the name and path of its unit, and lists
values just if it is primitive. -/
theorem Declares.origin {path : ImportPath} {name : String} {d : Definition}
    (declares : scope.Declares path name d) :
    d.name = name ∧ d.importPath = path ∧
      (∃ group, scope.Selects path group ∧ d.unitName = group.name) ∧
      (d.enumerations.isSome = true ↔ d.isPrimitive = true) := by
  obtain ⟨group, _, decl, _, selects, _, rfl, _, rfl⟩ := declares
  have core := decl.core_definition group.name path
  refine ⟨Definition.name_eq_of_core core, Definition.importPath_eq_of_core core,
    ⟨group, selects, congrArg TargetUnit.unitName (Definition.target_eq_of_core core)⟩, ?_⟩
  rw [Definition.isPrimitive]
  dsimp only
  rw [Definition.underlying_eq_of_core core]
  split
  · rename_i primitive
    exact ⟨fun _ => primitive, fun _ => rfl⟩
  · rename_i other
    exact ⟨nofun, fun primitive => absurd primitive other⟩

/-! ## Candidates -/

/-- The qualifier is an alias of the path in the group, or the declared name of the unit there. -/
def Binds (scope : Scope) (group : DeclGroup) (qualifier : String) (path : ImportPath) : Prop :=
  ⟨path, some qualifier⟩ ∈ UnitGraph.namedImports group ∨
    (scope.graph.get? path).map (·.name) = some qualifier

/-- The path is where a reference in a unit may lead: to the unit itself, or to one of its imports
that binds the qualifier. -/
def Candidate (scope : Scope) (referring : ImportPath) (reference : TypeText.Reference)
    (path : ImportPath) : Prop :=
  match reference.alias? with
  | none => path = referring
  | some qualifier => ∃ group, scope.Selects referring group ∧
      (∃ decl ∈ UnitGraph.namedImports group, decl.path = path) ∧ scope.Binds group qualifier path

/-- The definition is declared by the first import of a unit that binds the qualifier and declares
the name. -/
def FirstImport (scope : Scope) (referring : ImportPath) (qualifier name : String)
    (d : Definition) : Prop :=
  ∃ group before decl after, scope.Selects referring group ∧
    UnitGraph.namedImports group = before ++ decl :: after ∧
    scope.Binds group qualifier decl.path ∧ scope.Declares decl.path name d ∧
    ∀ earlier ∈ before, scope.Binds group qualifier earlier.path →
      ∀ e, ¬ scope.Declares earlier.path name e

/-- Nothing is found if no unit on the way declares the name. -/
theorem found_eq_none_iff {name : String} {paths : List ImportPath} :
    scope.found name paths = .ok none ↔ ∀ path ∈ paths, scope.declared path name = .ok none := by
  induction paths with
  | nil => simp [found]
  | cons path paths ih =>
      rw [found, List.forall_mem_cons, ← ih]
      split
      · rename_i absent
        simp [absent]
      · rename_i present
        exact ⟨fun ends => absurd ends present, And.left⟩

end Scope

/-! ## The first import -/

/-- Repetitions do not matter to the first that fits. -/
theorem find?_eraseDups {α : Type} [DecidableEq α] (p : α → Bool) (xs : List α) :
    xs.eraseDups.find? p = xs.find? p := by
  induction xs using List.reverseRecOn with
  | nil => rfl
  | append_singleton xs x ih =>
      rw [eraseDups_concat, List.find?_append]
      split
      · rename_i among
        rw [ih]
        cases found : xs.find? p with
        | some y => rfl
        | none => simp [List.find?_eq_none.mp found x among]
      · rw [List.find?_append, ih]

/-- The first that fits has none before it that fits. -/
theorem first_iff_find? {α : Type} {P : α → Prop} [DecidablePred P] {xs : List α} {x : α} :
    (P x ∧ ∃ before after, xs = before ++ x :: after ∧ ∀ y ∈ before, ¬ P y) ↔
      xs.find? (fun y => decide (P y)) = some x := by
  rw [List.find?_eq_some_iff_append]
  simp

open Classical in
/-- The first imported path with a property is that of the first import that has it: later mentions
of a path change nothing. -/
theorem UnitGraph.first_importedPaths_iff (P : ImportPath → Prop) (listed : ImportPath → Bool)
    {decls : List ImportDecl} {path : ImportPath} :
    (P path ∧ ∃ before after, (importedPaths decls).filter listed = before ++ path :: after ∧
      ∀ earlier ∈ before, ¬ P earlier) ↔
    ∃ decl, decl.path = path ∧ (listed decl.path = true ∧ P decl.path) ∧
      ∃ before after, decls = before ++ decl :: after ∧
        ∀ earlier ∈ before, ¬ (listed earlier.path = true ∧ P earlier.path) := by
  have test : (fun p => decide (listed p = true ∧ decide (P p) = true)) ∘ ImportDecl.path =
      fun decl => decide (listed decl.path = true ∧ P decl.path) := by
    funext decl
    simp
  rw [first_iff_find?, List.find?_filter, importedPaths, find?_eraseDups, List.find?_map, test,
    Option.map_eq_some_iff]
  exact exists_congr fun decl => and_comm.trans (and_congr_right fun _ => first_iff_find?.symm)

/-! ## Loaded graphs -/

section Loaded

variable {loader : Loader} {root : ImportPath} {ignore : List String} {journal : Journal}
  {graph : UnitGraph} (unchanging : loader.Unchanging)
  (loaded : (UnitGraph.load loader root ignore journal).1 = .ok graph)

include unchanging loaded

/-- Selected units are listed in the graph as they were loaded. -/
theorem get?_of_selects {path : ImportPath} {group : DeclGroup}
    (selects : (Scope.mk graph loader).Selects path group) :
    graph.get? path = some (UnitGraph.listed graph path group) := by
  obtain ⟨unit, known⟩ := Table.exists_get?_of_mem_keys selects.1
  obtain ⟨other, reached, rfl⟩ := (UnitGraph.get?_of_load loaded path unit).mp known
  have same := (selection_of_reached unchanging reached).symm.trans (Scope.selects_iff.mp selects).2
  cases same
  exact known

/-- Each unit of a loaded graph can be selected. -/
theorem exists_selects {path : ImportPath} {unit : UnitInfo}
    (known : graph.get? path = some unit) :
    ∃ group, (Scope.mk graph loader).Selects path group := by
  obtain ⟨group, reached, _⟩ := (UnitGraph.get?_of_load loaded path unit).mp known
  refine ⟨group, Scope.selects_iff.mpr ⟨?_, selection_of_reached unchanging reached⟩⟩
  rw [known]
  rfl

theorem declared_eq_none_iff {path : ImportPath} {name : String} :
    (Scope.mk graph loader).declared path name = .ok none ↔
      ∀ d, ¬ (Scope.mk graph loader).Declares path name d := by
  obtain ⟨found, given⟩ := exists_declared_of_load unchanging loaded path name
  simp only [Scope.declares_iff, given, Except.ok.injEq]
  exact Option.eq_none_iff_forall_ne_some

/-- The candidates are the units to which the reference can lead from the unit that has it. -/
theorem candidate_iff {referring path : ImportPath} {reference : TypeText.Reference} :
    (Scope.mk graph loader).Candidate referring reference path ↔
      path ∈ graph.candidates referring reference := by
  obtain ⟨qualifier?, name⟩ := reference
  cases qualifier? with
  | none => exact List.mem_singleton.symm
  | some qualifier =>
      constructor
      · rintro ⟨group, selects, ⟨decl, among, rfl⟩, binds⟩
        have listed := get?_of_selects unchanging loaded selects
        have imported : decl.path ∈ UnitGraph.importedPaths (UnitGraph.namedImports group) :=
          List.mem_eraseDups.mpr (List.mem_map_of_mem among)
        exact (UnitGraph.mem_candidates_of_listed listed).mpr
          ⟨imported, UnitGraph.mem_allAliases.mpr binds⟩
      · intro among
        cases known : graph.get? referring with
        | none =>
            rw [UnitGraph.candidates, known] at among
            cases among
        | some unit =>
            obtain ⟨group, selects⟩ := exists_selects unchanging loaded known
            have listed := get?_of_selects unchanging loaded selects
            obtain ⟨imported, aliases⟩ := (UnitGraph.mem_candidates_of_listed listed).mp among
            exact ⟨group, selects, List.mem_map.mp (List.mem_eraseDups.mp imported),
              UnitGraph.mem_allAliases.mp aliases⟩

/-- What is found among the candidates of a qualified reference is declared by the first import. -/
theorem found_iff_firstImport {referring : ImportPath} {qualifier name : String}
    {d : Definition} :
    (Scope.mk graph loader).found name (graph.candidates referring ⟨some qualifier, name⟩) =
        .ok (some d) ↔
      (Scope.mk graph loader).FirstImport referring qualifier name d := by
  let scope : Scope := ⟨graph, loader⟩
  let listed (group : DeclGroup) (path : ImportPath) : Bool :=
    (UnitGraph.allAliases graph (UnitGraph.namedImports group) path).contains qualifier
  have binds : ∀ group path, listed group path = true ↔ scope.Binds group qualifier path := by
    intro group path
    rw [List.contains_iff_mem, UnitGraph.mem_allAliases]
    rfl
  have first := fun group path => @UnitGraph.first_importedPaths_iff
    (fun path => ∃ e, scope.Declares path name e) (listed group) (UnitGraph.namedImports group) path
  rw [Scope.found_eq_some_iff]
  simp only [declared_eq_none_iff unchanging loaded, ← Scope.declares_iff]
  constructor
  · rintro ⟨before, path, after, split, earlier, declares⟩
    have among : path ∈ graph.candidates referring ⟨some qualifier, name⟩ := by simp [split]
    obtain ⟨group, selects, _⟩ := (candidate_iff unchanging loaded).mpr among
    rw [UnitGraph.candidates_of_listed (get?_of_selects unchanging loaded selects)] at split
    obtain ⟨decl, rfl, ⟨bound, _⟩, before', after', split', earlier'⟩ := (first group path).mp
      ⟨⟨d, declares⟩, before, after, split, fun p among => not_exists.mpr (earlier p among)⟩
    refine ⟨group, before', decl, after', selects, split', (binds _ _).mp bound, declares, ?_⟩
    exact fun p among bound e declares => earlier' p among ⟨(binds _ _).mpr bound, e, declares⟩
  · rintro ⟨group, before, decl, after, selects, split, bound, declares, earlier⟩
    rw [UnitGraph.candidates_of_listed (get?_of_selects unchanging loaded selects)]
    have none_ : ∀ p ∈ before,
        ¬ (listed group p.path = true ∧ ∃ e, scope.Declares p.path name e) := by
      rintro p among ⟨bound, e, declares⟩
      exact earlier p among ((binds _ _).mp bound) e declares
    obtain ⟨_, before', after', split', earlier'⟩ := (first group decl.path).mpr
      ⟨decl, rfl, ⟨(binds _ _).mpr bound, d, declares⟩, before, after, split, none_⟩
    exact ⟨before', decl.path, after', split', fun p among => not_exists.mp (earlier' p among),
      declares⟩

end Loaded

/-- Resolution in a loaded graph never fails. A bare name stands for what the unit itself declares,
and a qualified one for what the first import declares that binds the qualifier and declares the
name. Nothing is found just if there is no such unit. -/
theorem resolve_first_declaring (loader : Loader) (unchanging : loader.Unchanging)
    (root : ImportPath) (ignore : List String) (journal : Journal) (graph : UnitGraph)
    (loaded : (UnitGraph.load loader root ignore journal).1 = .ok graph) (referring : ImportPath)
    (text : String) (past : Journal) :
    let scope : Scope := ⟨graph, loader⟩
    ∃ reference found, (∀ denoted, TypeText.Denotes text.toList denoted ↔ denoted = reference) ∧
      (scope.resolve referring text past).1 = .ok found ∧
      (reference.alias? = none →
        ∀ d, found = some d ↔ scope.Declares referring reference.name d) ∧
      (∀ qualifier, reference.alias? = some qualifier →
        ∀ d, found = some d ↔ scope.FirstImport referring qualifier reference.name d) ∧
      (found = none ↔ ∀ path, scope.Candidate referring reference path →
        ∀ d, ¬ scope.Declares path reference.name d) ∧
      ∀ d, found = some d → d.name = reference.name ∧
        scope.Candidate referring reference d.importPath ∧
        (graph.get? d.importPath).map (·.name) = some d.unitName ∧
        (d.enumerations.isSome = true ↔ d.isPrimitive = true) := by
  intro scope
  obtain ⟨found, finds⟩ := exists_found_of_load unchanging loaded (TypeText.reference text).name
    (graph.candidates referring (TypeText.reference text))
  have resolves := (Scope.resolve_fst unchanging referring text past).trans finds
  have denotes : ∀ denoted, TypeText.Denotes text.toList denoted ↔
      denoted = TypeText.reference text := by
    intro denoted
    rw [TypeText.denotes_iff, String.ofList_toList]
  refine ⟨TypeText.reference text, found, denotes, resolves, ?_⟩
  generalize TypeText.reference text = reference at finds
  obtain ⟨qualifier?, name⟩ := reference
  have holds : ∀ d, found = some d ↔
      scope.found name (graph.candidates referring ⟨qualifier?, name⟩) = .ok (some d) := by
    intro d
    rw [finds, Except.ok.injEq]
  refine ⟨?_, ?_, ?_, ?_⟩
  · rintro rfl d
    rw [holds, Scope.declares_iff, Scope.found_eq_some_iff]
    constructor
    · rintro ⟨before, path, after, split, _, declares⟩
      have among : path ∈ [referring] := by
        rw [show [referring] = before ++ path :: after from split]
        simp
      rwa [List.mem_singleton.mp among] at declares
    · exact fun declares => ⟨[], referring, [], rfl, List.forall_mem_nil _, declares⟩
  · rintro qualifier rfl d
    rw [holds]
    exact found_iff_firstImport unchanging loaded
  · have none_ : found = none ↔
        scope.found name (graph.candidates referring ⟨qualifier?, name⟩) = .ok none := by
      rw [finds, Except.ok.injEq]
    rw [none_, Scope.found_eq_none_iff]
    simp only [candidate_iff unchanging loaded, declared_eq_none_iff unchanging loaded, scope]
  · intro d same
    obtain ⟨before, path, after, split, _, declares⟩ :=
      Scope.found_eq_some_iff.mp ((holds d).mp same)
    have among : path ∈ graph.candidates referring ⟨qualifier?, name⟩ := by simp [split]
    obtain ⟨named, rfl, ⟨group, selects, unitName⟩, values⟩ :=
      (Scope.declares_iff.mpr declares).origin
    refine ⟨named, (candidate_iff unchanging loaded).mpr among, ?_, values⟩
    rw [get?_of_selects unchanging loaded selects, unitName]
    rfl

/-- A group whose first import is discarded, while the other two bind `m`. -/
def importingGroup : DeclGroup where
  name := "app"
  imports := [⟨"second", some "_"⟩, ⟨"first", some "m"⟩, ⟨"second", some "m"⟩]

/-- A group that declares a name twice. -/
def levelGroup : DeclGroup where
  name := "second"
  types := [{ name := "User" }, { name := "Level", underlying := "u8" }, { name := "Level" }]
  consts := [⟨["LOW"], "Level", ["1"]⟩, ⟨["A", "B"], "Level", ["2"]⟩, ⟨["TOP"], "Level", ["9"]⟩]

/-- The units of these groups, and one that declares a name that the second declares too. -/
def importingScope : Scope where
  graph := ⟨[
    ("app", {
      importPath := "app"
      name := "app"
      imports := [("first", ["m", "first"]), ("second", ["m", "second"])] }),
    ("first", { importPath := "first", name := "first", imports := [] }),
    ("second", { importPath := "second", name := "second", imports := [] })]⟩
  loader := .fixed [("app", [importingGroup]), ("second", [levelGroup]),
    ("first", [{ name := "first", types := [{ name := "User" }] }])]

theorem resolve_first_declaring_level :
    importingScope.loader.Unchanging ∧
    (UnitGraph.load importingScope.loader "app" [] {}).1 = .ok importingScope.graph ∧
    ∃ d, (importingScope.resolve "app" "**m.Level" {}).1 = .ok (some d) ∧
      importingScope.FirstImport "app" "m" "Level" d ∧
      d.importPath = "second" ∧ d.enumerations = some ["1", "9"] := by
  have unchanging : importingScope.loader.Unchanging := Loader.unchanging_fixed _
  have loaded : (UnitGraph.load importingScope.loader "app" [] {}).1 =
      .ok importingScope.graph := by decide +kernel
  have given : (importingScope.resolve "app" "**m.Level" {}).1.toOption.join.map
      (fun d => (d.importPath, d.enumerations)) = some ("second", some ["1", "9"]) := by
    decide +kernel
  obtain ⟨reference, found, denotes, resolves, _, qualified, _, _⟩ := resolve_first_declaring
    importingScope.loader unchanging "app" [] {} importingScope.graph loaded "app" "**m.Level" {}
  have chars : "**m.Level".toList = '*' :: '*' :: (['m'] ++ '.' :: "Level".toList) := by decide
  have read : (⟨some "m", "Level"⟩ : TypeText.Reference) = reference := by
    refine (denotes _).mp ?_
    rw [chars]
    exact .pointer (.pointer (.qualified _ (by decide) (by decide)))
  rw [resolves] at given
  obtain ⟨d, rfl, parts⟩ := Option.map_eq_some_iff.mp given
  obtain ⟨path, values⟩ := Prod.mk.inj parts
  subst read
  exact ⟨unchanging, loaded, d, resolves, (qualified "m" rfl d).mp rfl, path, values⟩

/-- The discarded import mentions `second` before `first`, and both declare the name and have the
alias, but the reference leads to `first`. -/
theorem discarded_import_is_no_mention :
    (UnitGraph.load importingScope.loader "app" [] {}).1 = .ok importingScope.graph ∧
    importingScope.Selects "app" importingGroup ∧
    UnitGraph.importedPaths importingGroup.imports = ["second", "first"] ∧
    ⟨"second", some "m"⟩ ∈ importingGroup.imports ∧
    (∃ d, importingScope.Declares "second" "User" d) ∧
    ∃ d, (importingScope.resolve "app" "m.User" {}).1 = .ok (some d) ∧ d.importPath = "first" := by
  have given : (importingScope.resolve "app" "m.User" {}).1.toOption.map
      (fun found => found.map (·.importPath)) = some (some "first") := by decide +kernel
  obtain ⟨found, _, resolves, leads⟩ := exists_of_toOption given
  obtain ⟨d, rfl, path⟩ := Option.map_eq_some_iff.mp leads
  have selects : importingScope.Selects "second" levelGroup := ⟨by decide, [levelGroup], rfl, rfl⟩
  have declares : importingScope.Declares "second" "User" _ :=
    ⟨levelGroup, [], _, _, selects, rfl, rfl, List.forall_mem_nil _, rfl⟩
  exact ⟨by decide +kernel, ⟨by decide, [importingGroup], rfl, rfl⟩, by decide, by decide,
    ⟨_, declares⟩, d, congrArg Prod.fst resolves, path⟩

end ApiDocs
