import ApiDocs.Proofs.Package.Folders
import ApiDocs.Proofs.Package.Qualifiers

/-!
# Dependencies without a folder

A dependency that is given by a version, or by a path that leads out of the source root, is imported
by its name. The name is then loaded like any other import path. So the dependency stays out of the
graph if and only if no package stands in the folder of that name
(`unplaced_dependency_located_iff`).
-/

namespace ApiDocs

open ApiDocs.Path (ofNames)

/-- The dependency has no folder below the source root. -/
def ResolvedDependency.IsUnplaced (sourceRoot : Path) (dependency : ResolvedDependency) : Prop :=
  ∀ folder, dependency.directory? = some folder → importPath? sourceRoot folder = none

theorem ResolvedDependency.importPath_of_isUnplaced {sourceRoot : Path}
    {dependency : ResolvedDependency} (unplaced : dependency.IsUnplaced sourceRoot) :
    dependency.importPath sourceRoot = dependency.name := by
  rw [importPath]
  cases given : dependency.directory? with
  | none => rfl
  | some folder => rw [Option.bind_some, unplaced folder given, Option.getD_none]

/-! ## Answers for imports -/

namespace Package

theorem groups_answer_ne_none (fs : FileSystem) (sourceRoot folder : Path) :
    (answer fs sourceRoot folder).groups ≠ .ok none := by
  rw [groups_answer]
  cases (read fs sourceRoot folder []).1 with
  | error failure => exact nofun
  | ok groups => exact nofun

/-- A folder with a package is never answered as not located. -/
theorem answer_ne_notLocated (fs : FileSystem) (sourceRoot folder : Path) :
    answer fs sourceRoot folder ≠ .notLocated :=
  fun same => groups_answer_ne_none fs sourceRoot folder (congrArg Answer.groups same)

end Package

section Loaded

variable {fs : FileSystem} {sourceRoot : Path} {root : ImportPath}

/-- What a unit imports is known to the loader. -/
theorem Loader.mem_paths_of_imports (canonical : sourceRoot.IsCanonical) (path : ImportPath)
    (past : Nat) {decl : ImportDecl}
    (imports : decl ∈ ((Loader.ofPackages fs sourceRoot root).answer path past).imports) :
    decl.path ∈ (Loader.ofPackages fs sourceRoot root).paths := by
  rw [Loader.answer_ofPackages_eq canonical] at imports
  split at imports
  · rename_i located
    have listed := (Package.folderOf_mem_folders_iff canonical).mpr located.2
    refine List.mem_eraseDups.mpr (List.mem_cons_of_mem _ ?_)
    rw [List.flatMap_map]
    exact List.mem_flatMap.mpr ⟨_, listed, List.mem_map_of_mem imports⟩
  · cases imports

theorem Loader.mem_paths_of_reached (canonical : sourceRoot.IsCanonical) {ignore : List String}
    {past : List ImportPath} {path : ImportPath} {group : DeclGroup}
    (reached : UnitGraph.Reached (Loader.ofPackages fs sourceRoot root) ignore past root path group)
    {decl : ImportDecl} (imports : decl ∈ group.imports) :
    decl.path ∈ (Loader.ofPackages fs sourceRoot root).paths := by
  obtain ⟨_, _, groups, given, chosen⟩ := UnitGraph.reached_iff.mp reached
  refine Loader.mem_paths_of_imports canonical path (past.count path) ?_
  rw [Answer.imports, Answer.groupList, given]
  exact List.mem_flatMap.mpr ⟨group, Scope.mem_of_selectGroup chosen, imports⟩

/-- A path that is known is answered by what stands in its folder. -/
theorem Loader.answer_of_mem_paths (canonical : sourceRoot.IsCanonical) {path : ImportPath}
    (known : path ∈ (Loader.ofPackages fs sourceRoot root).paths) (past : Nat) :
    (Loader.ofPackages fs sourceRoot root).answer path past =
      if Package.isLocated fs sourceRoot path then
        Package.answer fs sourceRoot (Package.folderOf sourceRoot path)
      else .notLocated := by
  rw [Loader.answer_ofPackages_eq canonical]
  exact if_congr (and_iff_right known) rfl rfl

theorem Loader.notLocated_iff_of_mem_paths (canonical : sourceRoot.IsCanonical) {path : ImportPath}
    (known : path ∈ (Loader.ofPackages fs sourceRoot root).paths) :
    (∀ past, (Loader.ofPackages fs sourceRoot root).answer path past = .notLocated) ↔
      Package.isLocated fs sourceRoot path = false := by
  simp only [Loader.answer_of_mem_paths canonical known]
  cases Package.isLocated fs sourceRoot path with
  | false => simp
  | true => simp [Package.answer_ne_notLocated]

end Loaded

namespace UnitGraph

/-- If a graph is loaded, none of the paths that are met fails. -/
theorem exists_findAt_of_load {loader : Loader} {root : ImportPath} {ignore : List String}
    {journal : Journal} {graph : UnitGraph}
    (loaded : (load loader root ignore journal).1 = .ok graph) {path : ImportPath}
    (met : Relation.ReflTransGen (fun p q => q ∈ mentions (findAt loader ignore journal.loads) p)
      root path) :
    ∃ found, findAt loader ignore journal.loads path = .ok found := by
  have all : ∀ {paths : List ImportPath} {units gathered : Table UnitInfo},
      gather (findAt loader ignore journal.loads) units paths = .ok gathered →
        ∀ path ∈ paths, ∃ found, findAt loader ignore journal.loads path = .ok found := by
    intro paths
    induction paths with
    | nil => exact fun _ => List.forall_mem_nil _
    | cons first paths ih =>
        intro units gathered done
        rw [gather] at done
        cases here : findAt loader ignore journal.loads first with
        | error failure =>
            rw [here] at done
            cases done
        | ok found =>
            rw [here] at done
            exact List.forall_mem_cons.mpr ⟨⟨found, here⟩, ih done⟩
  obtain ⟨gathers, _⟩ := load_gathers loader root ignore journal
  rw [loaded] at gathers
  obtain ⟨units, gathered, _⟩ := exists_of_map_eq_ok gathers.symm
  exact all gathered path ((mem_walk_iff fun _ _ => mem_supply_of_mem_mentions).mpr met)

/-- An import that binds a name is a unit of the graph, if it is located and not ignored. -/
theorem mem_paths_of_named {loader : Loader} {root path : ImportPath} {ignore : List String}
    {journal : Journal} {graph : UnitGraph} {group : DeclGroup} {decl : ImportDecl}
    (loaded : (load loader root ignore journal).1 = .ok graph)
    (reached : Reached loader ignore journal.loads root path group)
    (named : decl ∈ namedImports group) (kept : ¬ Ignored ignore decl.path)
    (located : ∀ past, (loader.answer decl.path past).groups ≠ .ok none) :
    decl.path ∈ graph.paths := by
  obtain ⟨met, here⟩ := reached_iff.mp reached
  obtain ⟨found, finds⟩ := exists_findAt_of_load loaded
    (met.tail (mem_mentions_iff.mpr ⟨group, here, decl, named, rfl⟩))
  cases found with
  | some target =>
      have step := Reached.step reached named (findAt_eq_some_iff.mp finds)
      exact Table.mem_keys_of_get? ((get?_of_load loaded _ _).mpr ⟨target, step, rfl⟩)
  | none =>
      rw [findAt_of_not_ignored kept, Answer.selection] at finds
      split at finds
      · cases finds
      · rename_i none
        exact absurd none (located _)
      · split at finds <;> cases finds

/-- The units of a graph are located, and none is ignored. -/
theorem isLocated_of_mem_paths {fs : FileSystem} {sourceRoot : Path} {root : ImportPath}
    (canonical : sourceRoot.IsCanonical) {ignore : List String} {journal : Journal}
    {graph : UnitGraph}
    (loaded : (load (.ofPackages fs sourceRoot root) root ignore journal).1 = .ok graph)
    {path : ImportPath} (inGraph : path ∈ graph.paths) :
    Package.isLocated fs sourceRoot path = true ∧ ¬ Ignored ignore path := by
  obtain ⟨unit, known⟩ := Table.exists_get?_of_mem_keys inGraph
  obtain ⟨group, reached, _⟩ := (get?_of_load loaded path unit).mp known
  obtain ⟨_, kept, groups, given, _⟩ := reached_iff.mp reached
  refine ⟨?_, kept⟩
  rw [Loader.answer_ofPackages_eq canonical] at given
  split at given
  · rename_i located
    exact located.2
  · cases given

end UnitGraph

/-! ## Unplaced dependencies -/

theorem Package.Contents.toImport_mem_imports {contents : Package.Contents} (sourceRoot : Path)
    {d : ResolvedDependency} (listed : d ∈ contents.dependencies) :
    d.toImport sourceRoot ∈ (contents.group sourceRoot).imports :=
  List.mem_append_left _ (List.mem_map_of_mem listed)

/-- The import of a dependency binds a name, unless the dependency is renamed to `_`. -/
theorem Package.Contents.toImport_mem_namedImports {contents : Package.Contents}
    (sourceRoot : Path) {d : ResolvedDependency} (listed : d ∈ contents.dependencies)
    (binds : d.renamed = true → d.name ≠ "_") :
    d.toImport sourceRoot ∈ UnitGraph.namedImports (contents.group sourceRoot) := by
  refine List.mem_filter.mpr ⟨toImport_mem_imports sourceRoot listed, ?_⟩
  rw [ResolvedDependency.toImport]
  cases renamed : d.renamed with
  | false => rfl
  | true => simpa using binds renamed

/-- A unit that is reached is read from the contents of its package. A dependency of these contents
that has no folder below the source root is imported by its name, and the name is loaded as the
folder of that name: it is not located if and only if no package stands there. A graph has the
dependency for a unit only if it is located and not ignored; and always then, unless the dependency
is renamed to `_`. -/
theorem unplaced_dependency_located_iff (fs : FileSystem) (sourceRoot : Path)
    (canonical : sourceRoot.IsCanonical) (root : ImportPath) (ignore : List String)
    (journal : Journal) (referring : ImportPath) (group : DeclGroup)
    (reached : UnitGraph.Reached (Loader.ofPackages fs sourceRoot root) ignore journal.loads root
      referring group) :
    let loader := Loader.ofPackages fs sourceRoot root
    (∃ contents : Package.Contents,
      contents.Held fs sourceRoot (Package.folderOf sourceRoot referring) ∧
      group = contents.group sourceRoot) ∧
    ∀ contents : Package.Contents, group = contents.group sourceRoot →
    ∀ d ∈ contents.dependencies, d.IsUnplaced sourceRoot →
      d.importPath sourceRoot = d.name ∧
      (∀ past, loader.answer d.name past =
        if Package.isLocated fs sourceRoot d.name then
          Package.answer fs sourceRoot (Package.folderOf sourceRoot d.name)
        else .notLocated) ∧
      ((∀ past, loader.answer d.name past = .notLocated) ↔
        Package.isLocated fs sourceRoot d.name = false) ∧
      ∀ graph, (UnitGraph.load loader root ignore journal).1 = .ok graph →
        (d.name ∈ graph.paths → Package.isLocated fs sourceRoot d.name = true ∧
          ¬ UnitGraph.Ignored ignore d.name) ∧
        (Package.isLocated fs sourceRoot d.name = true → ¬ UnitGraph.Ignored ignore d.name →
          (d.renamed = true → d.name ≠ "_") → d.name ∈ graph.paths) := by
  intro loader
  obtain ⟨_, _, groups, given, chosen⟩ := UnitGraph.reached_iff.mp reached
  refine ⟨exists_contents given chosen, ?_⟩
  rintro contents rfl d listed unplaced
  have named := ResolvedDependency.importPath_of_isUnplaced unplaced
  have path : (d.toImport sourceRoot).path = d.name := named
  have imported := Package.Contents.toImport_mem_imports sourceRoot listed
  have known := Loader.mem_paths_of_reached canonical reached imported
  rw [path] at known
  refine ⟨named, Loader.answer_of_mem_paths canonical known,
    Loader.notLocated_iff_of_mem_paths canonical known, fun graph loaded =>
      ⟨UnitGraph.isLocated_of_mem_paths canonical loaded, fun here kept binds => ?_⟩⟩
  have bound := Package.Contents.toImport_mem_namedImports sourceRoot listed binds
  rw [← path]
  refine UnitGraph.mem_paths_of_named loaded reached bound (path ▸ kept) fun past => ?_
  rw [path, Loader.answer_of_mem_paths canonical known, if_pos here]
  exact Package.groups_answer_ne_none _ _ _

/-- A package with two dependencies that are given by a version. Another package stands in a folder
that has the name of the second one. -/
def versionsOnly : FileSystem where
  root := .folder [
    ("r", .folder [
      ("app", packageTree "app" "serde = \"1\"\nshared = \"1\"\n" [("lib.rs", "")]),
      ("shared", packageTree "shared" "" [("lib.rs", "pub struct User;\n")])])]

/-- What the package is read from. -/
def versionsOnlyContents : Package.Contents where
  name := "app"
  kind := .library
  dependencies := [
    { name := "serde", directory? := none, renamed := false },
    { name := "shared", directory? := none, renamed := false }]
  files := (moduleFiles versionsOnly ⟨"/r/app/src/lib.rs"⟩ []).1.toOption.getD []

theorem isUnplaced_of_mem_versionsOnly :
    ∀ d ∈ versionsOnlyContents.dependencies, d.IsUnplaced ⟨"/r"⟩ := by
  have without : ∀ d ∈ versionsOnlyContents.dependencies, d.directory? = none := by decide
  intro d listed folder given
  rw [without d listed] at given
  cases given

set_option maxRecDepth 100000 in
/-- All that is read from the package, found in one go. -/
theorem versionsOnly_read :
    ((UnitGraph.load (.ofPackages versionsOnly ⟨"/r"⟩ "app") "app" [] {}).1.toOption.map (·.paths) =
        some ["app", "shared"] ∧
      UnitGraph.findAt (.ofPackages versionsOnly ⟨"/r"⟩ "app") [] [] "app" =
        .ok (some (versionsOnlyContents.group ⟨"/r"⟩))) ∧
    (Manifest.load versionsOnly ⟨"/r/app/Cargo.toml"⟩).toOption.map (·.dependencies) =
      some [("serde", .version), ("shared", .version)] ∧
    Package.isLocated versionsOnly ⟨"/r"⟩ "serde" = false ∧
    Package.isLocated versionsOnly ⟨"/r"⟩ "shared" = true := by
  decide +kernel

theorem versionsOnly_reached :
    UnitGraph.Reached (.ofPackages versionsOnly ⟨"/r"⟩ "app") [] [] "app" "app"
      (versionsOnlyContents.group ⟨"/r"⟩) :=
  .root (UnitGraph.findAt_eq_some_iff.mp versionsOnly_read.1.2)

theorem exists_versionsOnly_graph :
    ∃ graph, (UnitGraph.load (.ofPackages versionsOnly ⟨"/r"⟩ "app") "app" [] {}).1 = .ok graph ∧
      graph.paths = ["app", "shared"] := by
  obtain ⟨⟨paths, _⟩, _⟩ := versionsOnly_read
  cases loaded : (UnitGraph.load (.ofPackages versionsOnly ⟨"/r"⟩ "app") "app" [] {}).1 with
  | error failure =>
      rw [loaded] at paths
      cases paths
  | ok graph =>
      rw [loaded] at paths
      exact ⟨graph, rfl, Option.some.inj paths⟩

/-- No folder has the name of the first dependency, so it is not located; the second one is. -/
theorem unplaced_dependency_located_iff_versions :
    UnitGraph.Reached (.ofPackages versionsOnly ⟨"/r"⟩ "app") [] [] "app" "app"
      (versionsOnlyContents.group ⟨"/r"⟩) ∧
    (∀ past, (Loader.ofPackages versionsOnly ⟨"/r"⟩ "app").answer "serde" past = .notLocated) ∧
    (∀ past, (Loader.ofPackages versionsOnly ⟨"/r"⟩ "app").answer "shared" past =
      Package.answer versionsOnly ⟨"/r"⟩ ⟨"/r/shared"⟩) := by
  obtain ⟨_, _, absent, present⟩ := versionsOnly_read
  have decided := (unplaced_dependency_located_iff versionsOnly ⟨"/r"⟩ ⟨by decide, by decide⟩ "app"
    [] {} "app" _ versionsOnly_reached).2 versionsOnlyContents rfl
  obtain ⟨_, _, serde, _⟩ := decided { name := "serde", directory? := none, renamed := false }
    (by decide) (isUnplaced_of_mem_versionsOnly _ (by decide))
  obtain ⟨_, shared, _⟩ := decided { name := "shared", directory? := none, renamed := false }
    (by decide) (isUnplaced_of_mem_versionsOnly _ (by decide))
  refine ⟨versionsOnly_reached, serde.mpr absent, fun past => ?_⟩
  rw [shared, if_pos present]
  exact congrArg (Package.answer versionsOnly ⟨"/r"⟩) (by decide)

/-- All dependencies of the package are versions. The second one is a unit of the graph, and what
stands in the folder of that name is read for it. -/
theorem version_dependency_is_loaded :
    (Manifest.load versionsOnly ⟨"/r/app/Cargo.toml"⟩).toOption.map (·.dependencies) =
      some [("serde", .version), ("shared", .version)] ∧
    UnitGraph.Reached (.ofPackages versionsOnly ⟨"/r"⟩ "app") [] [] "app" "app"
      (versionsOnlyContents.group ⟨"/r"⟩) ∧
    (∀ d ∈ versionsOnlyContents.dependencies, d.IsUnplaced ⟨"/r"⟩) ∧
    (∃ graph, (UnitGraph.load (.ofPackages versionsOnly ⟨"/r"⟩ "app") "app" [] {}).1 = .ok graph ∧
      "shared" ∈ graph.paths) ∧
    (Loader.ofPackages versionsOnly ⟨"/r"⟩ "app").answer "shared" 0 ≠ .notLocated := by
  obtain ⟨_, versions, _, located⟩ := versionsOnly_read
  obtain ⟨graph, loaded, paths⟩ := exists_versionsOnly_graph
  refine ⟨versions, versionsOnly_reached, isUnplaced_of_mem_versionsOnly, ⟨graph, loaded, ?_⟩, ?_⟩
  · rw [paths]
    exact List.mem_cons_of_mem _ List.mem_cons_self
  · have canonical : Path.IsCanonical ⟨"/r"⟩ := ⟨by decide, by decide⟩
    have imports : { path := "shared" } ∈ (versionsOnlyContents.group ⟨"/r"⟩).imports := by
      decide +kernel
    have known := Loader.mem_paths_of_reached canonical versionsOnly_reached imports
    rw [Loader.answer_ofPackages_eq canonical, if_pos ⟨known, located⟩]
    exact Package.answer_ne_notLocated _ _ _

end ApiDocs
