import ApiDocs.Proofs.Names
import ApiDocs.Proofs.Package.Contents
import ApiDocs.Proofs.Text

/-!
# Qualifiers and aliases

A path in a source file is written under a qualifier that its own file decides on, and resolved by
the aliases of the whole unit. A dependency that a file leads to is listed under the qualifier,
unless this is only the key of a dependency whose library has another name. But other files or the
manifest may list further imports under it. Then the first of them decides that declares the name
(`qualified_path_resolves`).
-/

namespace ApiDocs

/-! ## Texts with a qualifier -/

/-- A name that can stand in a path. -/
def Source.IsName (name : String) : Prop :=
  wordLength? name.toList = some name.toList.length ∧ name ≠ "_"

theorem Source.chars_of_wordLength? {text : List Char}
    (word : wordLength? text = some text.length) :
    ∃ c rest, text = c :: rest ∧ Text.isIdentStart c ∧ ∀ d ∈ rest, Text.isIdentContinue d := by
  cases text with
  | nil => cases word
  | cons c rest =>
      rw [wordLength?] at word
      split at word
      · rename_i start
        refine ⟨c, rest, rfl, start, ?_⟩
        have whole : (rest.takeWhile Text.isIdentContinue).length = rest.length := by
          have same := Option.some.inj word
          rw [List.length_cons] at same
          omega
        have taken := (List.takeWhile_prefix Text.isIdentContinue (l := rest)).eq_of_length whole
        rw [← taken]
        exact List.all_eq_true.mp List.all_takeWhile
      · cases word

/-- A text with a qualifier is read as it was written. -/
theorem TypeText.reference_qualified {qualifier : String} (isName : Source.IsName qualifier)
    (name : String) : reference (qualifier ++ "." ++ name) = ⟨some qualifier, name⟩ := by
  obtain ⟨c, rest, chars, start, continues⟩ := Source.chars_of_wordLength? isName.1
  have noPointer : c ≠ '*' := by
    rintro rfl
    exact absurd start (by decide)
  have noPoint : '.' ∉ qualifier.toList := by
    rw [chars]
    intro among
    rcases List.mem_cons.mp among with rfl | later
    · exact absurd start (by decide)
    · exact absurd (continues _ later) (by decide)
  have text : (qualifier ++ "." ++ name).toList = qualifier.toList ++ '.' :: name.toList := by
    simp
  have bare : stripPointers (qualifier ++ "." ++ name).toList =
      qualifier.toList ++ '.' :: name.toList := by
    rw [text, chars, stripPointers, List.cons_append,
      List.dropWhile_cons_of_neg (by simpa using noPointer)]
  rw [reference, bare, Text.splitOnce_append _ noPoint]
  simp

/-! ## Aliases of imports -/

namespace UnitGraph

theorem mem_allAliases {graph : UnitGraph} {decls : List ImportDecl} {path : ImportPath}
    {name : String} :
    name ∈ allAliases graph decls path ↔
      ⟨path, some name⟩ ∈ decls ∨ (graph.get? path).map (·.name) = some name := by
  have explicit : name ∈ explicitAliases decls path ↔ ⟨path, some name⟩ ∈ decls := by
    rw [explicitAliases, List.mem_eraseDups, List.mem_filterMap]
    constructor
    · rintro ⟨⟨path', _⟩, among, rfl⟩
      obtain ⟨listed, same⟩ := List.mem_filter.mp among
      rw [← of_decide_eq_true same]
      exact listed
    · exact fun listed => ⟨_, List.mem_filter.mpr ⟨listed, decide_eq_true rfl⟩, rfl⟩
  rw [allAliases, List.mem_append, List.mem_filter, Option.mem_toList, decide_eq_true_eq,
    ← explicit]
  constructor
  · exact fun known => known.imp_right And.left
  · intro known
    by_cases listed : name ∈ explicitAliases decls path
    · exact Or.inl listed
    · exact Or.inr ⟨known.resolve_left listed, listed⟩

/-- The candidates for a qualified reference are the imports that are listed under the qualifier, in
order of first mention. -/
theorem candidates_of_listed {graph : UnitGraph} {referring : ImportPath} {group : DeclGroup}
    (among : graph.get? referring = some (listed graph referring group)) (qualifier name : String) :
    graph.candidates referring ⟨some qualifier, name⟩ =
      (importedPaths (namedImports group)).filter
        fun path => (allAliases graph (namedImports group) path).contains qualifier := by
  rw [candidates, among]
  simp [listed, List.filter_map, List.map_map, Function.comp_def]

theorem mem_candidates_of_listed {graph : UnitGraph} {referring path : ImportPath}
    {group : DeclGroup} (among : graph.get? referring = some (listed graph referring group))
    {qualifier name : String} :
    path ∈ graph.candidates referring ⟨some qualifier, name⟩ ↔
      path ∈ importedPaths (namedImports group) ∧
        qualifier ∈ allAliases graph (namedImports group) path := by
  rw [candidates_of_listed among, List.mem_filter, List.contains_iff_mem]

end UnitGraph

/-- A dependency to which a file leads is listed under its qualifier, unless this is only the key of
a dependency whose library has another name. -/
theorem mem_candidates_of_called {sourceRoot : Path} {contents : Package.Contents}
    {graph : UnitGraph} {referring path : ImportPath} {file : SourceFile} {qualifier : String}
    (among : graph.get? referring =
      some (UnitGraph.listed graph referring (contents.group sourceRoot)))
    (inside : file ∈ contents.files) (bound : qualifier ≠ "_")
    (called : Source.Called (contents.crates sourceRoot) file.bindings qualifier path)
    (name : String) :
    path ∈ graph.candidates referring ⟨some qualifier, name⟩ ∨
      ∃ dependency ∈ contents.dependencies, dependency.name = qualifier ∧
        dependency.importPath sourceRoot = path ∧ dependency.renamed = false ∧
        (graph.get? path).map (·.name) ≠ some qualifier := by
  rw [UnitGraph.mem_candidates_of_listed among, UnitGraph.mem_allAliases]
  have named : ∀ decl ∈ (contents.group sourceRoot).imports, decl.alias? ≠ some "_" →
      decl ∈ UnitGraph.namedImports (contents.group sourceRoot) :=
    fun decl listed binds => List.mem_filter.mpr ⟨listed, by simpa using binds⟩
  have imported : ∀ decl ∈ UnitGraph.namedImports (contents.group sourceRoot),
      decl.path ∈ UnitGraph.importedPaths (UnitGraph.namedImports (contents.group sourceRoot)) :=
    fun decl listed => List.mem_eraseDups.mpr (List.mem_map_of_mem listed)
  have explicit : (⟨path, some qualifier⟩ : ImportDecl) ∈ (contents.group sourceRoot).imports →
      path ∈ UnitGraph.importedPaths (UnitGraph.namedImports (contents.group sourceRoot)) ∧
        ((⟨path, some qualifier⟩ : ImportDecl) ∈
          UnitGraph.namedImports (contents.group sourceRoot) ∨
          (graph.get? path).map (·.name) = some qualifier) := fun listed => by
    have kept := named _ listed fun same => bound (Option.some.inj same)
    exact ⟨imported _ kept, Or.inl kept⟩
  rcases called with known | ⟨binding, binds, renames⟩
  · obtain ⟨dependency, listed, same⟩ :=
      List.mem_map.mp (Table.mem_of_mem_ofList (Table.mem_of_get? known))
    obtain ⟨rfl, rfl⟩ := Prod.mk.inj same
    have import_ : dependency.toImport sourceRoot ∈ (contents.group sourceRoot).imports :=
      List.mem_append_left _ (List.mem_map_of_mem listed)
    cases renamed : dependency.renamed with
    | true =>
        rw [ResolvedDependency.toImport, renamed] at import_
        exact Or.inl (explicit import_)
    | false =>
        by_cases declared : (graph.get? (dependency.importPath sourceRoot)).map (·.name) =
            some dependency.name
        · have kept := named _ import_ (by simp [ResolvedDependency.toImport, renamed])
          exact Or.inl ⟨imported _ kept, Or.inr declared⟩
        · exact Or.inr ⟨dependency, listed, rfl, rfl, renamed, declared⟩
  · refine Or.inl (explicit (List.mem_append_right _ ?_))
    exact DeclGroup.mem_imports_ofFiles.mpr ⟨file, inside, binding, binds, renames⟩

/-! ## Resolution in loaded graphs -/

section Loaded

variable {loader : Loader} {root : ImportPath} {ignore : List String} {journal : Journal}
  {graph : UnitGraph}

theorem selection_of_reached (unchanging : loader.Unchanging) {past : List ImportPath}
    {path : ImportPath} {group : DeclGroup}
    (reached : UnitGraph.Reached loader ignore past root path group) :
    (loader.answer path 0).selection path = .ok (some group) := by
  obtain ⟨_, located⟩ := UnitGraph.reached_iff.mp reached
  have found := UnitGraph.findAt_eq_some_iff.mpr located
  rwa [UnitGraph.findAt_of_not_ignored located.1, unchanging] at found

/-- Every unit of a loaded graph can be asked for what it declares. -/
theorem exists_declared_of_load (unchanging : loader.Unchanging)
    (loaded : (UnitGraph.load loader root ignore journal).1 = .ok graph) (path : ImportPath)
    (name : String) : ∃ found, (Scope.mk graph loader).declared path name = .ok found := by
  rw [Scope.declared]
  split
  · exact ⟨none, rfl⟩
  · rename_i present
    obtain ⟨unit, known⟩ := Option.isSome_iff_exists.mp
      (Option.isSome_iff_ne_none.mpr (by simpa using present))
    obtain ⟨group, reached, _⟩ := (UnitGraph.get?_of_load loaded path unit).mp known
    rw [selection_of_reached unchanging reached]
    exact ⟨_, rfl⟩

theorem exists_found_of_load (unchanging : loader.Unchanging)
    (loaded : (UnitGraph.load loader root ignore journal).1 = .ok graph) (name : String)
    (paths : List ImportPath) : ∃ found, (Scope.mk graph loader).found name paths = .ok found := by
  induction paths with
  | nil => exact ⟨none, rfl⟩
  | cons path paths ih =>
      obtain ⟨declared, given⟩ := exists_declared_of_load unchanging loaded path name
      rw [Scope.found, given]
      cases declared with
      | none => exact ih
      | some d => exact ⟨some d, rfl⟩

/-- Resolution in a loaded graph gives what the first unit declares that declares the name. -/
theorem resolve_of_load (unchanging : loader.Unchanging)
    (loaded : (UnitGraph.load loader root ignore journal).1 = .ok graph) (referring : ImportPath)
    (text : String) (past : Journal) :
    ∃ found, ((Scope.mk graph loader).resolve referring text past).1 = .ok found ∧
      ∀ d, found = some d ↔ ∃ path, (Scope.mk graph loader).First referring text path ∧
        (Scope.mk graph loader).declared path (TypeText.reference text).name = .ok (some d) := by
  obtain ⟨found, finds⟩ := exists_found_of_load unchanging loaded (TypeText.reference text).name
    (graph.candidates referring (TypeText.reference text))
  have resolves : ((Scope.mk graph loader).resolve referring text past).1 = .ok found :=
    (Scope.resolve_fst unchanging referring text past).trans finds
  refine ⟨found, resolves, fun d => ?_⟩
  have some_ : found = some d ↔ (Scope.mk graph loader).found (TypeText.reference text).name
      (graph.candidates referring (TypeText.reference text)) = .ok (some d) := by
    rw [finds, Except.ok.injEq]
  rw [some_, Scope.found_eq_some_iff]
  constructor
  · rintro ⟨before, path, after, split, earlier, here⟩
    exact ⟨path, ⟨before, after, split, earlier⟩, here⟩
  · rintro ⟨path, ⟨before, after, split, earlier⟩, here⟩
    exact ⟨before, path, after, split, earlier, here⟩

end Loaded

/-- The contents that the unit at an import path is read from, for the group that stands for it. -/
def Package.Contents.Stand (fs : FileSystem) (sourceRoot : Path) (root path : ImportPath)
    (contents : Package.Contents) : Prop :=
  contents.Held fs sourceRoot (Package.folderOf sourceRoot path) ∧
    ((Loader.ofPackages fs sourceRoot root).answer path 0).selection path =
      .ok (some (contents.group sourceRoot))

/-- In a graph that is loaded from packages, each unit is read from some contents. A path in one of
their files that is written as `q.N`, because its first name leads to a dependency, resolves without
failure to what is declared under `N` by the first unit to declare it among those that are listed
under `q`. The dependency is one of these, unless `q` is only the key of a dependency whose library
has another name. -/
theorem qualified_path_resolves (fs : FileSystem) (sourceRoot : Path) (root : ImportPath)
    (ignore : List String) (journal : Journal) (graph : UnitGraph)
    (loaded : (UnitGraph.load (Loader.ofPackages fs sourceRoot root) root ignore journal).1 =
      .ok graph)
    (referring : ImportPath) (among : referring ∈ graph.paths) :
    let scope : Scope := ⟨graph, Loader.ofPackages fs sourceRoot root⟩
    (∃ contents : Package.Contents, contents.Stand fs sourceRoot root referring) ∧
    ∀ contents : Package.Contents, contents.Stand fs sourceRoot root referring →
    ∀ file ∈ contents.files, ∀ (parameters : List String) (first? : Option String) (last : String)
      (arguments : List Source.TypeExpr) (q N : String), Source.IsName q →
    let uses := file.uses (contents.crates sourceRoot)
    let text := (Source.TypeExpr.path first? last arguments).text uses parameters
    text = q ++ "." ++ N → uses.qualifiers.get? (first?.getD last) = some q →
    ∃ path,
      Source.dependencyOf (contents.crates sourceRoot) file.bindings (first?.getD last) =
        some path ∧
      (path ∈ graph.candidates referring (TypeText.reference text) ∨
        ∃ dependency ∈ contents.dependencies, dependency.name = q ∧
          dependency.importPath sourceRoot = path ∧ dependency.renamed = false ∧
          (graph.get? path).map (·.name) ≠ some q) ∧
      ∀ past, ∃ found, (scope.resolve referring text past).1 = .ok found ∧
        ∀ d, found = some d ↔ ∃ unit, scope.First referring text unit ∧
          scope.declared unit N = .ok (some d) := by
  intro scope
  have unchanging := Loader.unchanging_ofPackages fs sourceRoot root
  obtain ⟨unit, known⟩ := Table.exists_get?_of_mem_keys among
  obtain ⟨group, reached, rfl⟩ := (UnitGraph.get?_of_load loaded referring unit).mp known
  have selected := selection_of_reached unchanging reached
  refine ⟨?_, ?_⟩
  · obtain ⟨_, _, groups, given, chosen⟩ := UnitGraph.reached_iff.mp reached
    obtain ⟨contents, held, rfl⟩ := exists_contents given chosen
    exact ⟨contents, held, selected⟩
  · rintro contents ⟨held, stands⟩ file inside parameters first? last arguments q N isName uses text
      written qualified
    cases selected.symm.trans stands
    obtain ⟨path, leads, called⟩ := Source.called_of_qualifiers file.bindings qualified
    have reference : TypeText.reference text = ⟨some q, N⟩ := by
      rw [written, TypeText.reference_qualified isName]
    have resolved := resolve_of_load unchanging loaded referring text
    rw [reference] at resolved ⊢
    exact ⟨path, leads, mem_candidates_of_called known inside isName.2 called N, resolved⟩

/-! ## A name that files share -/

/-- A package with these dependencies, what its manifest says after them, and source files. -/
def packageTree (name dependencies : String) (files : Table String) : FileTree :=
  .folder [
    ("Cargo.toml",
      .text ("[package]\nname = \"" ++ name ++ "\"\n[dependencies]\n" ++ dependencies)),
    ("src", .folder (files.map fun entry => (entry.1, .text entry.2)))]

/-- A package in which one file calls the first dependency `m` and another file the second. -/
def sharedName : FileSystem where
  root := .folder [
    ("r", .folder [
      ("app", packageTree "app" "first.path = \"../first\"\nsecond.path = \"../second\"\n" [
        ("lib.rs", "mod a;\nmod b;\n"),
        ("a.rs", "use first as m;\n"),
        ("b.rs",
          "use second as m;\npub struct B \x7b pub user: m::User, pub group: m::Group \x7d\n")]),
      ("first", packageTree "first" "" [("lib.rs", "pub struct User;\n")]),
      ("second", packageTree "second" "" [
        ("lib.rs", "pub struct User;\npub struct Group;\n")])])]

/-- The units of the package and its dependencies. -/
def sharedNameScope : Scope where
  graph := ⟨[
    ("app", {
      importPath := "app"
      name := "app"
      imports := [("first", ["m", "first"]), ("second", ["m", "second"])] }),
    ("first", { importPath := "first", name := "first", imports := [] }),
    ("second", { importPath := "second", name := "second", imports := [] })]⟩
  loader := .ofPackages sharedName ⟨"/r"⟩ "app"

/-- What the package is read from. -/
def sharedNameContents : Package.Contents where
  name := "app"
  kind := .library
  dependencies := [
    { name := "first", directory? := some ⟨"/r/first"⟩, renamed := false },
    { name := "second", directory? := some ⟨"/r/second"⟩, renamed := false }]
  files := (moduleFiles sharedName ⟨"/r/app/src/lib.rs"⟩ []).1.toOption.getD []

set_option maxRecDepth 100000 in
/-- All that is read from the package, found in one go. -/
theorem sharedName_read :
    ((UnitGraph.load sharedNameScope.loader "app" [] {}).1 = .ok sharedNameScope.graph ∧
      (sharedNameScope.loader.answer "app" 0).selection "app" =
        .ok (some (sharedNameContents.group ⟨"/r"⟩)) ∧
      (sharedNameContents.group ⟨"/r"⟩).types.map (fun decl => (decl.name,
        decl.fields.map (·.typeText))) = [("B", ["m.User", "m.Group"])] ∧
      sharedNameContents.files.map (·.bindings) = [[], [⟨"m", ["first"]⟩], [⟨"m", ["second"]⟩]] ∧
      (moduleFiles sharedName ⟨"/r/app/src/lib.rs"⟩ []).1.toOption.isSome = true) ∧
    (sharedNameScope.declared "first" "Group" = .ok none ∧
      ["User", "Group"].map (fun name => (sharedNameScope.declared "second" name).toOption.map
        (·.map (·.importPath))) = [some (some "second"), some (some "second")] ∧
      (sharedNameScope.declared "first" "User").toOption.map (·.map (·.importPath)) =
        some (some "first")) := by
  decide +kernel

set_option maxRecDepth 100000 in
theorem sharedNameContents_stand :
    sharedNameContents.Stand sharedName ⟨"/r"⟩ "app" "app" := by
  obtain ⟨⟨_, selected, _, _, succeeds⟩, _⟩ := sharedName_read
  refine ⟨⟨{ package? := some "app"
             dependencies := [("first", .detailed { path? := some "../first" }),
               ("second", .detailed { path? := some "../second" })] },
    none, [⟨.library, ⟨"/r/app/src/lib.rs"⟩⟩], by decide +kernel, by decide, by decide +kernel,
    by decide +kernel, by decide +kernel, ⟨.library, ⟨"/r/app/src/lib.rs"⟩⟩, List.mem_cons_self,
    rfl, [], ?_⟩, selected⟩
  dsimp only [sharedNameContents]
  exact exists_eq_of_isSome succeeds []

/-- The file that calls the second dependency `m`, and how it writes paths. -/
theorem exists_sharedName_file :
    ∃ file ∈ sharedNameContents.files,
      Source.dependencyOf (sharedNameContents.crates ⟨"/r"⟩) file.bindings "m" = some "second" ∧
      (file.uses (sharedNameContents.crates ⟨"/r"⟩)).qualifiers.get? "m" = some "m" ∧
      ∀ name ∈ ["User", "Group"], (Source.TypeExpr.path (some "m") name []).text
        (file.uses (sharedNameContents.crates ⟨"/r"⟩)) [] = "m" ++ "." ++ name := by
  obtain ⟨⟨_, _, _, bindings, _⟩, _⟩ := sharedName_read
  have among : [⟨"m", ["second"]⟩] ∈ sharedNameContents.files.map (·.bindings) := by
    rw [bindings]
    exact List.mem_cons_of_mem _ (List.mem_cons_of_mem _ List.mem_cons_self)
  obtain ⟨file, inside, bound⟩ := List.mem_map.mp among
  refine ⟨file, inside, ?_⟩
  rw [SourceFile.uses, bound]
  decide +kernel

/-- A declaration that is known by the unit it stands in. -/
theorem exists_of_declared_importPath {scope : Scope} {path unit : ImportPath} {name : String}
    (given : (scope.declared path name).toOption.map (·.map (·.importPath)) = some (some unit)) :
    ∃ d, scope.declared path name = .ok (some d) ∧ d.importPath = unit := by
  cases declared : scope.declared path name with
  | error failure =>
      rw [declared] at given
      cases given
  | ok found =>
      rw [declared] at given
      obtain ⟨d, rfl, same⟩ := Option.map_eq_some_iff.mp (Option.some.inj given)
      exact ⟨d, rfl, same⟩

/-- Groups are declared by the second dependency only, so that a path to them resolves there
although both dependencies are listed under its qualifier. -/
theorem qualified_path_resolves_group :
    (UnitGraph.load sharedNameScope.loader "app" [] {}).1 = .ok sharedNameScope.graph ∧
    sharedNameContents.Stand sharedName ⟨"/r"⟩ "app" "app" ∧
    ∃ file ∈ sharedNameContents.files,
      Source.dependencyOf (sharedNameContents.crates ⟨"/r"⟩) file.bindings "m" = some "second" ∧
      ∀ past, ∃ d, (sharedNameScope.resolve "app" ((Source.TypeExpr.path (some "m") "Group" []).text
          (file.uses (sharedNameContents.crates ⟨"/r"⟩)) []) past).1 = .ok (some d) ∧
        d.importPath = "second" := by
  obtain ⟨⟨loaded, _⟩, none, second, _⟩ := sharedName_read
  obtain ⟨file, inside, leads, qualified, writes⟩ := exists_sharedName_file
  have written := writes "Group" (by decide)
  have resolves := (qualified_path_resolves sharedName ⟨"/r"⟩ "app" [] {} sharedNameScope.graph
    loaded "app" (by decide)).2 sharedNameContents sharedNameContents_stand file inside []
    (some "m") "Group" [] "m" "Group" ⟨by decide, by decide⟩ written qualified
  obtain ⟨path, _, _, resolves⟩ := resolves
  refine ⟨loaded, sharedNameContents_stand, file, inside, leads, fun past => ?_⟩
  obtain ⟨found, given, finds⟩ := resolves past
  obtain ⟨d, declares, unit⟩ := exists_of_declared_importPath
    (List.cons.inj (List.cons.inj second).2).1
  refine ⟨d, ?_, unit⟩
  rw [← (finds d).mpr ⟨"second", ?_, declares⟩]
  · exact given
  · rw [written]
    exact ⟨["first"], [], by decide, List.forall_mem_singleton.mpr none⟩

/-- Both dependencies declare users. The path to those of the second one resolves to those of the
first, which another file calls by the same name. -/
theorem qualified_path_resolves_elsewhere :
    (UnitGraph.load sharedNameScope.loader "app" [] {}).1 = .ok sharedNameScope.graph ∧
    sharedNameContents.Stand sharedName ⟨"/r"⟩ "app" "app" ∧
    (sharedNameContents.group ⟨"/r"⟩).types.map (fun decl => (decl.name,
      decl.fields.map (·.typeText))) = [("B", ["m.User", "m.Group"])] ∧
    ∃ file ∈ sharedNameContents.files,
      Source.dependencyOf (sharedNameContents.crates ⟨"/r"⟩) file.bindings "m" = some "second" ∧
      (Source.TypeExpr.path (some "m") "User" []).text
        (file.uses (sharedNameContents.crates ⟨"/r"⟩)) [] = "m.User" ∧
      (∃ d, sharedNameScope.declared "second" "User" = .ok (some d)) ∧
      ∀ past, ∃ d, (sharedNameScope.resolve "app" "m.User" past).1 = .ok (some d) ∧
        d.importPath = "first" := by
  obtain ⟨⟨loaded, _, types, _⟩, _, second, first⟩ := sharedName_read
  obtain ⟨file, inside, leads, _, writes⟩ := exists_sharedName_file
  obtain ⟨d, declares, _⟩ := exists_of_declared_importPath (List.cons.inj second).1
  obtain ⟨e, decides, unit⟩ := exists_of_declared_importPath first
  refine ⟨loaded, sharedNameContents_stand, types, file, inside, leads, writes "User" (by decide),
    ⟨d, declares⟩, fun past => ⟨e, ?_, unit⟩⟩
  have unchanging : sharedNameScope.loader.Unchanging := Loader.unchanging_ofPackages _ _ _
  have candidates : sharedNameScope.graph.candidates "app" (TypeText.reference "m.User") =
      ["first", "second"] := by decide
  have name : (TypeText.reference "m.User").name = "User" := by decide
  rw [Scope.resolve_fst unchanging, candidates, name, Scope.found, decides]

/-! ## A key that is not listed -/

/-- A package whose dependency `foo` has a library of another name. -/
def namedLibrary : FileSystem where
  root := .folder [
    ("r", .folder [
      ("app", packageTree "app" "foo.path = \"../foo\"\n" [
        ("lib.rs", "pub struct B \x7b pub user: foo::User \x7d\n")]),
      ("foo", packageTree "foo" "[lib]\nname = \"foo_core\"\n" [
        ("lib.rs", "pub struct User;\n")])])]

/-- The units of the package and its dependency, which is listed under the name of its library. -/
def namedLibraryScope : Scope where
  graph := ⟨[
    ("app", { importPath := "app", name := "app", imports := [("foo", ["foo_core"])] }),
    ("foo", { importPath := "foo", name := "foo_core", imports := [] })]⟩
  loader := .ofPackages namedLibrary ⟨"/r"⟩ "app"

/-- What the package is read from. -/
def namedLibraryContents : Package.Contents where
  name := "app"
  kind := .library
  dependencies := [{ name := "foo", directory? := some ⟨"/r/foo"⟩, renamed := false }]
  files := (moduleFiles namedLibrary ⟨"/r/app/src/lib.rs"⟩ []).1.toOption.getD []

set_option maxRecDepth 100000 in
theorem namedLibrary_read :
    (UnitGraph.load namedLibraryScope.loader "app" [] {}).1 = .ok namedLibraryScope.graph ∧
      (namedLibraryScope.loader.answer "app" 0).selection "app" =
        .ok (some (namedLibraryContents.group ⟨"/r"⟩)) ∧
      (namedLibraryContents.group ⟨"/r"⟩).types.map (fun decl => (decl.name,
        decl.fields.map (·.typeText))) = [("B", ["foo.User"])] ∧
      namedLibraryContents.files.map (·.bindings) = [[]] ∧
      (moduleFiles namedLibrary ⟨"/r/app/src/lib.rs"⟩ []).1.toOption.isSome = true ∧
      (namedLibraryScope.declared "foo" "User").toOption.map (·.map (·.importPath)) =
        some (some "foo") := by
  decide +kernel

set_option maxRecDepth 100000 in
theorem namedLibraryContents_stand :
    namedLibraryContents.Stand namedLibrary ⟨"/r"⟩ "app" "app" := by
  obtain ⟨_, selected, _, _, succeeds, _⟩ := namedLibrary_read
  refine ⟨⟨{ package? := some "app"
             dependencies := [("foo", .detailed { path? := some "../foo" })] },
    none, [⟨.library, ⟨"/r/app/src/lib.rs"⟩⟩], by decide +kernel, by decide, by decide +kernel,
    by decide +kernel, by decide +kernel, ⟨.library, ⟨"/r/app/src/lib.rs"⟩⟩, List.mem_cons_self,
    rfl, [], ?_⟩, selected⟩
  dsimp only [namedLibraryContents]
  exact exists_eq_of_isSome succeeds []

/-- A path through the key of the dependency leads to it, and it declares what the path names. But
the unit lists it under the name of its library only, so that the path has no candidate and does not
resolve. -/
theorem qualified_path_resolves_nowhere :
    (UnitGraph.load namedLibraryScope.loader "app" [] {}).1 = .ok namedLibraryScope.graph ∧
    namedLibraryContents.Stand namedLibrary ⟨"/r"⟩ "app" "app" ∧
    (namedLibraryContents.group ⟨"/r"⟩).types.map (fun decl => (decl.name,
      decl.fields.map (·.typeText))) = [("B", ["foo.User"])] ∧
    (∃ file ∈ namedLibraryContents.files,
      Source.dependencyOf (namedLibraryContents.crates ⟨"/r"⟩) file.bindings "foo" = some "foo" ∧
      (Source.TypeExpr.path (some "foo") "User" []).text
        (file.uses (namedLibraryContents.crates ⟨"/r"⟩)) [] = "foo.User") ∧
    (∃ d, namedLibraryScope.declared "foo" "User" = .ok (some d) ∧ d.importPath = "foo") ∧
    namedLibraryScope.graph.candidates "app" (TypeText.reference "foo.User") = [] ∧
    ∀ past, (namedLibraryScope.resolve "app" "foo.User" past).1 = .ok none := by
  obtain ⟨loaded, _, types, bindings, _, declares⟩ := namedLibrary_read
  have among : [] ∈ namedLibraryContents.files.map (·.bindings) := by
    rw [bindings]
    exact List.mem_cons_self
  obtain ⟨file, inside, bound⟩ := List.mem_map.mp among
  have unchanging : namedLibraryScope.loader.Unchanging := Loader.unchanging_ofPackages _ _ _
  have candidates : namedLibraryScope.graph.candidates "app" (TypeText.reference "foo.User") =
      [] := by decide
  refine ⟨loaded, namedLibraryContents_stand, types, ⟨file, inside, ?_⟩,
    exists_of_declared_importPath declares, candidates, fun past => ?_⟩
  · rw [SourceFile.uses, bound]
    decide +kernel
  · rw [Scope.resolve_fst unchanging, candidates, Scope.found]

end ApiDocs
