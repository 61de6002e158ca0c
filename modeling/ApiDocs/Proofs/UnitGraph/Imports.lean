import ApiDocs.Proofs.Table
import ApiDocs.UnitGraph
import Mathlib.Data.List.Induction

/-!
# The imports of a unit

The table of imports is built by folding over the declared imports and completed when all units are
known. `importTable_eq` and `get?_withDeclaredNames` give it in one piece: the imported paths in
order of first mention, each with its explicit aliases in order of first mention and then the
declared name of the unit it leads to.
-/

namespace ApiDocs

/-- One more element at the end is kept unless it is there already. -/
theorem eraseDups_concat {α : Type} [DecidableEq α] (xs : List α) (x : α) :
    (xs ++ [x]).eraseDups = if x ∈ xs then xs.eraseDups else xs.eraseDups ++ [x] := by
  rw [List.eraseDups_append]
  split
  · rename_i among
    simp [List.removeAll, among]
  · rename_i fresh
    simp [List.removeAll, fresh, List.eraseDups_cons]

namespace UnitGraph

/-! ## Explicit aliases -/

/-- The paths of imports in order of first mention. -/
def importedPaths (decls : List ImportDecl) : List ImportPath := (decls.map (·.path)).eraseDups

/-- The aliases that imports give a path, in order of first mention. -/
def explicitAliases (decls : List ImportDecl) (path : ImportPath) : List String :=
  ((decls.filter (·.path = path)).filterMap (·.alias?)).eraseDups

theorem nodup_importedPaths (decls : List ImportDecl) : (importedPaths decls).Nodup := by
  induction decls using List.reverseRecOn with
  | nil => exact List.nodup_nil
  | append_singleton decls decl ih =>
      rw [importedPaths, List.map_append, List.map_singleton, eraseDups_concat]
      split
      · exact ih
      · rename_i fresh
        refine List.nodup_append.mpr ⟨ih, List.pairwise_singleton _ _, ?_⟩
        rintro path early _ last rfl
        rw [List.mem_singleton.mp last] at early
        exact fresh (List.mem_eraseDups.mp early)

theorem explicitAliases_of_not_mem {decls : List ImportDecl} {path : ImportPath}
    (unmentioned : path ∉ importedPaths decls) : explicitAliases decls path = [] := by
  have none : decls.filter (·.path = path) = [] := by
    refine List.filter_eq_nil_iff.mpr fun decl among same => unmentioned ?_
    rw [← of_decide_eq_true same]
    exact List.mem_eraseDups.mpr (List.mem_map_of_mem among)
  rw [explicitAliases, none]
  rfl

/-- One more declaration adds its alias to its own path and to no other. -/
theorem explicitAliases_concat (decls : List ImportDecl) (decl : ImportDecl) (path : ImportPath) :
    explicitAliases (decls ++ [decl]) path =
      if path = decl.path then
        match decl.alias? with
        | some name =>
          if (explicitAliases decls decl.path).contains name then explicitAliases decls decl.path
          else explicitAliases decls decl.path ++ [name]
        | none => explicitAliases decls decl.path
      else explicitAliases decls path := by
  rw [explicitAliases, List.filter_append, List.filterMap_append]
  split
  · rename_i same
    subst same
    cases named : decl.alias? with
    | none => simp [named, explicitAliases]
    | some name =>
        have last : List.filterMap (·.alias?) ([decl].filter (·.path = decl.path)) = [name] := by
          simp [named]
        rw [last, eraseDups_concat]
        simp only [List.contains_iff_mem, explicitAliases, List.mem_eraseDups]
  · rename_i differs
    simp [Ne.symm differs, explicitAliases]

/-- The table of imports, path by path. -/
theorem importTable_eq (group : DeclGroup) :
    importTable group = (importedPaths (namedImports group)).map fun path =>
      (path, explicitAliases (namedImports group) path) := by
  rw [importTable]
  induction namedImports group using List.reverseRecOn with
  | nil => rfl
  | append_singleton decls decl ih =>
      have aliases : ((Table.get? ((importedPaths decls).map fun path =>
          (path, explicitAliases decls path)) decl.path).getD []) =
            explicitAliases decls decl.path := by
        rw [Table.get?_map_keys]
        split
        · rfl
        · rename_i unmentioned
          exact (explicitAliases_of_not_mem unmentioned).symm
      have paths : importedPaths (decls ++ [decl]) =
          if decl.path ∈ importedPaths decls then importedPaths decls
          else importedPaths decls ++ [decl.path] := by
        rw [importedPaths, List.map_append, List.map_singleton, eraseDups_concat, importedPaths]
        simp only [List.mem_eraseDups]
      rw [List.foldl_append, ih, List.foldl_cons, List.foldl_nil, addImport, aliases,
        Table.set_map_keys _ _ _ _ (nodup_importedPaths decls), paths]
      exact List.map_congr_left fun path _ =>
        congrArg (Prod.mk path) (explicitAliases_concat decls decl path).symm

/-! ## Declared names -/

/-- The aliases of an imported path: the explicit ones, then the declared name of the unit if it has
one that is not among them. -/
def allAliases (graph : UnitGraph) (decls : List ImportDecl) (path : ImportPath) : List String :=
  let explicit := explicitAliases decls path
  explicit ++ ((graph.get? path).map (·.name)).toList.filter (· ∉ explicit)

/-- The declared name of a unit is added once, after its explicit aliases. -/
theorem addDeclaredName_eq (units : Table UnitInfo) (path : ImportPath) (aliases : List String) :
    addDeclaredName units path aliases =
      aliases ++ ((units.get? path).map (·.name)).toList.filter (· ∉ aliases) := by
  rw [addDeclaredName]
  cases units.get? path with
  | none => simp
  | some unit => by_cases among : unit.name ∈ aliases <;> simp [among]

/-- The unit with the declared names of all its imports. -/
def completed (units : Table UnitInfo) (unit : UnitInfo) : UnitInfo :=
  { unit with
    imports := unit.imports.map fun entry => (entry.1, addDeclaredName units entry.1 entry.2) }

theorem get?_withDeclaredNames (units : Table UnitInfo) (path : ImportPath) :
    (withDeclaredNames units).get? path = (units.get? path).map (completed units) :=
  Table.get?_map_values units (fun _ unit => completed units unit) path

theorem paths_withDeclaredNames (units : Table UnitInfo) :
    (withDeclaredNames units).paths = units.keys := by
  rw [paths, withDeclaredNames, Table.keys, Table.keys, List.map_map]
  rfl

/-- Declared names are names of units of the graph. -/
theorem map_name_withDeclaredNames (units : Table UnitInfo) (path : ImportPath) :
    ((withDeclaredNames units).get? path).map (·.name) = (units.get? path).map (·.name) := by
  rw [get?_withDeclaredNames, Option.map_map]
  rfl

end UnitGraph

end ApiDocs
