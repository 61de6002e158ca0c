import ApiDocs.Declaration.OfSource
import ApiDocs.Proofs.Table
import Mathlib.Data.List.Induction

/-!
# What qualifiers stand for

In a file, a local name leads to a dependency by the latest binding of the name, or because it is
the name of the dependency (`dependencyOf`). Types are written under qualifiers instead. `Called`
says why a dependency goes by a qualifier, and `called_of_qualifiers` that the qualifier of a name
is one that the dependency goes by to which the name leads.
-/

namespace ApiDocs

namespace Source

/-! ## Dependencies of local names -/

/-- The import path of the dependency that a name leads to, where the latest binding comes first.
Only bindings to paths into a dependency count. -/
def latestDependency (crates : Table ImportPath) : List Binding → String → Option ImportPath
  | [], name => crates.get? name
  | binding :: earlier, name =>
    match binding.path with
    | [] => latestDependency crates earlier name
    | first :: rest =>
      if binding.name = name ∧ name ≠ "_" ∧ crates.has first then
        if rest = [] then crates.get? first else latestDependency crates earlier first
      else latestDependency crates earlier name

/-- The import path of the dependency that a name leads to in a file with these bindings. -/
def dependencyOf (crates : Table ImportPath) (bindings : List Binding) (name : String) :
    Option ImportPath :=
  latestDependency crates bindings.reverse name

/-- The dependency at a path goes by a qualifier: it is known by it, or a binding renames it. -/
def Called (crates : Table ImportPath) (bindings : List Binding) (qualifier : String)
    (path : ImportPath) : Prop :=
  crates.get? qualifier = some path ∨
    ∃ binding ∈ bindings, binding.import? crates = some ⟨path, some qualifier⟩

theorem Called.append {crates : Table ImportPath} {bindings : List Binding} {qualifier : String}
    {path : ImportPath} (called : Called crates bindings qualifier path) (more : List Binding) :
    Called crates (bindings ++ more) qualifier path :=
  called.imp_right fun ⟨binding, among, renames⟩ =>
    ⟨binding, List.mem_append_left _ among, renames⟩

/-- One more binding of a dependency decides about its own name and no other. -/
theorem dependencyOf_concat {crates : Table ImportPath} (bindings : List Binding)
    {binding : Binding} {first : String} {rest : List String} (leads : binding.path = first :: rest)
    (name : String) :
    dependencyOf crates (bindings ++ [binding]) name =
      if binding.name = name ∧ name ≠ "_" ∧ crates.has first then
        if rest = [] then crates.get? first else dependencyOf crates bindings first
      else dependencyOf crates bindings name := by
  rw [dependencyOf, List.reverse_concat, latestDependency, leads]
  rfl

section Qualifiers

variable {crates : Table ImportPath}

theorem get?_qualifiers_ofCrates (name : String) :
    (UseTable.ofCrates crates).qualifiers.get? name = (crates.get? name).map fun _ => name :=
  Table.get?_map_values crates (fun name _ => name) name

/-- What a binding does to the qualifiers. -/
theorem get?_qualifiers_record (table : UseTable) {binding : Binding} {first : String}
    {rest : List String} (leads : binding.path = first :: rest) (name : String) :
    (UseTable.record crates table binding).qualifiers.get? name =
      if binding.name = name ∧ name ≠ "_" ∧ crates.has first then
        if rest = [] then some name else some ((table.qualifiers.get? first).getD first)
      else table.qualifiers.get? name := by
  rw [UseTable.record, leads]
  by_cases known : crates.has first
  · by_cases blank : binding.name = "_"
    · have skipped : ¬ (binding.name = name ∧ name ≠ "_" ∧ crates.has first) :=
        fun counts => counts.2.1 (counts.1.symm.trans blank)
      rw [if_neg skipped]
      simp [blank]
    · have counts : (binding.name = name ∧ name ≠ "_" ∧ crates.has first) ↔ binding.name = name :=
        ⟨fun counts => counts.1, fun same => ⟨same, same ▸ blank, known⟩⟩
      have records : ¬ (!crates.has first || decide (binding.name = "_")) = true := by
        simp [known, blank]
      dsimp only
      rw [if_neg records]
      simp only [counts]
      cases rest with
      | nil =>
          rw [List.getLast?_nil, if_pos rfl, Table.get?_set]
          exact ite_congr rfl (fun same => congrArg some same) fun _ => rfl
      | cons second rest =>
          rw [if_neg (List.cons_ne_nil _ _), List.getLast?_cons, Table.get?_set]
  · simp [known]

/-- Dependencies keep a qualifier. -/
theorem exists_qualifier (bindings : List Binding) {name : String} (known : crates.has name) :
    ∃ qualifier, (UseTable.ofBindings crates bindings).qualifiers.get? name = some qualifier := by
  induction bindings using List.reverseRecOn with
  | nil =>
      obtain ⟨path, given⟩ := Option.isSome_iff_exists.mp known
      refine ⟨name, ?_⟩
      rw [UseTable.ofBindings, List.foldl_nil, get?_qualifiers_ofCrates, given]
      rfl
  | append_singleton bindings binding ih =>
      rw [UseTable.ofBindings, List.foldl_append, List.foldl_cons, List.foldl_nil]
      cases leads : binding.path with
      | nil =>
          rw [UseTable.record, leads]
          exact ih
      | cons first rest =>
          rw [get?_qualifiers_record _ leads]
          split
          · split
            · exact ⟨_, rfl⟩
            · exact ⟨_, rfl⟩
          · exact ih

/-- The qualifier of a name is one that the dependency goes by to which the name leads. -/
theorem called_of_qualifiers (bindings : List Binding) {name qualifier : String}
    (qualified : (UseTable.ofBindings crates bindings).qualifiers.get? name = some qualifier) :
    ∃ path, dependencyOf crates bindings name = some path ∧
      Called crates bindings qualifier path := by
  induction bindings using List.reverseRecOn generalizing name qualifier with
  | nil =>
      rw [UseTable.ofBindings, List.foldl_nil, get?_qualifiers_ofCrates] at qualified
      obtain ⟨path, given, rfl⟩ := Option.map_eq_some_iff.mp qualified
      exact ⟨path, given, Or.inl given⟩
  | append_singleton bindings binding ih =>
      rw [UseTable.ofBindings, List.foldl_append, List.foldl_cons, List.foldl_nil] at qualified
      have kept : ∀ {name qualifier : String}, (UseTable.ofBindings crates bindings).qualifiers.get?
          name = some qualifier → ∃ path, dependencyOf crates bindings name = some path ∧
            Called crates (bindings ++ [binding]) qualifier path := fun qualified =>
        let ⟨path, leads, called⟩ := ih qualified
        ⟨path, leads, called.append _⟩
      cases leads : binding.path with
      | nil =>
          rw [UseTable.record, leads] at qualified
          rw [dependencyOf, List.reverse_concat, latestDependency, leads]
          exact kept qualified
      | cons first rest =>
          rw [get?_qualifiers_record _ leads] at qualified
          rw [dependencyOf_concat bindings leads]
          split at qualified
          · rename_i counts
            obtain ⟨same, named, known⟩ := counts
            rw [if_pos ⟨same, named, known⟩]
            obtain ⟨path, given⟩ := Option.isSome_iff_exists.mp known
            split at qualified
            · rename_i whole
              subst whole
              cases qualified
              refine ⟨path, by rw [if_pos rfl, given], ?_⟩
              -- a dependency under its own name stays known by it
              by_cases own : binding.name = first
              · exact Or.inl (by rw [← same, own, given])
              · refine Or.inr ⟨binding, List.mem_append_right _ List.mem_cons_self, ?_⟩
                rw [Binding.import?, leads]
                rw [same] at own ⊢
                simp [own, named, given]
            · rename_i nested
              rw [if_neg nested]
              obtain ⟨outer, before⟩ := exists_qualifier bindings known
              change
                some (((UseTable.ofBindings crates bindings).qualifiers.get? first).getD first) = _
                at qualified
              rw [before] at qualified
              cases qualified
              exact kept before
          · rename_i passed
            rw [if_neg passed]
            exact kept qualified

end Qualifiers

/-! ## Renaming bindings as imports -/

theorem mem_addImports {crates : Table ImportPath} {imports : List ImportDecl}
    {bindings : List Binding} {decl : ImportDecl} :
    decl ∈ addImports crates imports bindings ↔
      decl ∈ imports ∨ ∃ binding ∈ bindings, binding.import? crates = some decl := by
  have added : ∀ (new : List ImportDecl) (imports : List ImportDecl),
      decl ∈ new.foldl (fun imports new =>
        if imports.contains new then imports else imports ++ [new]) imports ↔
        decl ∈ imports ∨ decl ∈ new := by
    intro new
    induction new with
    | nil => simp
    | cons first new ih =>
        intro imports
        rw [List.foldl_cons, ih]
        split
        · rename_i known
          have among : first ∈ imports := List.contains_iff_mem.mp known
          constructor
          · exact fun known => known.imp_right (List.mem_cons_of_mem _)
          · rintro (known | new)
            · exact Or.inl known
            · rcases List.mem_cons.mp new with rfl | later
              · exact Or.inl among
              · exact Or.inr later
        · rw [List.mem_append, List.mem_singleton, List.mem_cons, or_assoc]
  rw [addImports, added, List.mem_filterMap]

end Source

open Source

/-- The names that a file binds to paths. -/
def SourceFile.bindings (file : SourceFile) : List Binding :=
  bindingsOf (Item.unfolded.unfoldedAll file.content.items)

/-- The names in a file that lead into another crate. -/
def SourceFile.uses (crates : Table ImportPath) (file : SourceFile) : UseTable :=
  UseTable.ofBindings crates file.bindings

/-- The imports of a group are those that the bindings of its files give. -/
theorem DeclGroup.mem_imports_ofFiles {name : String} {kind : TargetKind}
    {crates : Table ImportPath} {files : List SourceFile} {decl : ImportDecl} :
    decl ∈ (DeclGroup.ofFiles name kind crates files).imports ↔
      ∃ file ∈ files, ∃ binding ∈ file.bindings, binding.import? crates = some decl := by
  have added : ∀ (files : List SourceFile) (group : DeclGroup),
      decl ∈ (files.foldl (addFile crates) group).imports ↔ decl ∈ group.imports ∨
        ∃ file ∈ files, ∃ binding ∈ file.bindings, binding.import? crates = some decl := by
    intro files
    induction files with
    | nil => simp
    | cons first files ih =>
        intro group
        rw [List.foldl_cons, ih]
        have one : decl ∈ (addFile crates group first).imports ↔ decl ∈ group.imports ∨
            ∃ binding ∈ first.bindings, binding.import? crates = some decl := mem_addImports
        rw [one, or_assoc]
        simp only [List.mem_cons, exists_eq_or_imp]
  rw [ofFiles, added]
  exact or_iff_right List.not_mem_nil

end ApiDocs
