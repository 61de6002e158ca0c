import ApiDocs.Proofs.Definer.PlainNames
import ApiDocs.Proofs.Reachability

/-!
# Regular scopes

A reference that is not ambiguous names copies of what it resolves to and of nothing else, whatever
else is stored (`Unambiguous.resolves`). In a regular scope names are plain, no import path can be
taken for another in a canonical name, and an alias names one import. Then no reference is ambiguous
and no name misleads (`Regular.clear`).
-/

namespace ApiDocs.Scope

/-- The import path is that of a unit, or imported by one, or the unit of a call. -/
inductive Mentioned (scope : Scope) (roots : ImportPath → String → Prop) : ImportPath → Prop
  | unit {path : ImportPath} : path ∈ scope.graph.paths → Mentioned scope roots path
  | imported {path imported : ImportPath} {unit : UnitInfo} :
    scope.graph.get? path = some unit → imported ∈ unit.imports.keys →
    Mentioned scope roots imported
  | called {path : ImportPath} {text : String} : roots path text → Mentioned scope roots path

/-- Names are plain, import paths are not empty and differ in more than slashes and points, and in
every unit an alias names one import. -/
structure Regular (scope : Scope) (roots : ImportPath → String → Prop) : Prop where
  unchanging : scope.loader.Unchanging
  plain : scope.loader.IsPlain
  plainCalls : ∀ referring text, roots referring text → Plain (TypeText.reference text).name
  nonempty : ∀ path ∈ scope.graph.paths, path.isEmpty = false
  distinct : ∀ path path', scope.Mentioned roots path → scope.Mentioned roots path' →
    pointedPath path.toList = pointedPath path'.toList → path = path'
  oneImport : ∀ path unit, scope.graph.get? path = some unit → ∀ entry ∈ unit.imports,
    ∀ entry' ∈ unit.imports, ∀ qualifier, qualifier ∈ entry.2 → qualifier ∈ entry'.2 →
    entry.1 = entry'.1

/-- The scope of one unit that declares the types and imports nothing. -/
def single (types : List TypeDecl) : Scope where
  graph := ⟨[("app", { importPath := "app", name := "app", imports := [] })]⟩
  loader := .fixed [("app", [{ name := "app", types }])]

variable {scope : Scope} {roots : ImportPath → String → Prop}

/-! ## Declarations -/

/-- What is offered comes from a unit of the graph. -/
theorem Offers.mem_paths {path : ImportPath} {name : String} {d : Definition}
    (offers : scope.Offers path name d) : d.importPath ∈ scope.graph.paths := by
  rw [offers.core_eq.1]
  obtain ⟨unit, known⟩ := Option.isSome_iff_exists.mp offers.1
  exact Table.mem_keys_of_get? known

/-- The members of a declaration remember the unit that declares them. -/
theorem Offers.origin_eq {path : ImportPath} {name : String} {d : Definition}
    (offers : scope.Offers path name d) {entry : String × Member} (among : entry ∈ d.members) :
    entry.2.info.origin = d.importPath := by
  rw [offers.core_eq.1]
  obtain ⟨_, _, _, group, decl, values, _, _, rfl⟩ := offers
  obtain ⟨field, _, given⟩ := (decl.fields_of_definition group.name path).1 entry among
  obtain ⟨info, built, origin⟩ := Member.of_member? given
  rw [built, Member.info_ofTypeText, origin]

theorem Reached.offers (unchanging : scope.loader.Unchanging) {d : Definition}
    (reached : scope.Reached roots d) : scope.Offers d.importPath d.name d :=
  offers_of_declared (reached.declared unchanging)

/-- What is embedded in a type that can be reached can be reached. -/
theorem Reached.contains {d v : Definition} (reached : scope.Reached roots d)
    (contains : scope.Contains d v) : scope.Reached roots v := by
  induction contains with
  | refl => exact reached
  | tail _ embeds ih => exact .step ih embeds.refers

theorem mem_of_declared_single {types : List TypeDecl} {path : ImportPath} {name : String}
    {d : Definition} (declares : (single types).declared path name = .ok (some d)) :
    path = "app" ∧ name ∈ types.map (·.name) := by
  obtain ⟨_, answer, answered, group, decl, values, selected, named, _⟩ :=
    offers_of_declared declares
  obtain ⟨groups, located, among⟩ :=
    Loader.exists_mem_of_mem_answers_fixed answered (mem_of_selectGroup selected)
  cases List.mem_singleton.mp located
  cases List.mem_singleton.mp among
  have matched : decl.name = name := by simpa using List.find?_some named
  exact ⟨rfl, matched ▸ List.mem_map_of_mem (List.mem_of_find?_eq_some named)⟩

/-! ## References -/

/-- The name of the reference is plain, no candidate can be taken for another unit, and a candidate
declares the name only if all others before it do not. -/
structure Unambiguous (scope : Scope) (referring : ImportPath) (text : String) : Prop where
  plain : Plain (TypeText.reference text).name
  distinct : ∀ path ∈ scope.graph.candidates referring (TypeText.reference text),
    ∀ path' ∈ scope.graph.paths, pointedPath path.toList = pointedPath path'.toList → path = path'
  once : (scope.graph.candidates referring (TypeText.reference text)).Pairwise fun earlier path =>
    earlier ≠ path → scope.declared earlier (TypeText.reference text).name = .ok none ∨
      ∀ d, scope.declared path (TypeText.reference text).name ≠ .ok (some d)

/-- An unambiguous reference resolves to the declaration that a stored copy comes from. -/
theorem Unambiguous.resolves {referring path : ImportPath} {text : String} {d e : Definition}
    (unambiguous : scope.Unambiguous referring text) (unchanging : scope.loader.Unchanging)
    (plain : scope.loader.IsPlain) (copies : scope.Copies d e)
    (candidate : path ∈ scope.graph.candidates referring (TypeText.reference text))
    (named : e.canonical = canonicalName path (TypeText.reference text).name) :
    scope.resolved? referring text = some d := by
  refine (copies.resolves_iff unchanging).mpr ?_
  obtain ⟨declares, core⟩ := copies
  have offers := offers_of_declared declares
  rw [Definition.canonical_eq_of_core core] at named
  rw [Definition.name_eq_of_core core, Definition.importPath_eq_of_core core]
  -- The canonical name gives away both the name and the import path.
  obtain ⟨paths, names⟩ :=
    (canonicalName_eq_iff (offers.isPlain plain).name unambiguous.plain).mp named
  have here : path = d.importPath :=
    unambiguous.distinct path candidate _ offers.mem_paths paths.symm
  rw [here] at candidate
  obtain ⟨before, after, split, fresh⟩ := List.eq_append_cons_of_mem candidate
  refine ⟨names, before, after, split, fun earlier among => ?_⟩
  have once := unambiguous.once
  rw [split] at once
  have alone := (List.pairwise_append.mp once).2.2 earlier among d.importPath List.mem_cons_self
  have differs : earlier ≠ d.importPath := fun same => fresh (same ▸ among)
  rw [names] at declares
  exact (alone differs).resolve_right fun absent => absent d declares

namespace Regular

theorem plain_of_met (regular : scope.Regular roots) {referring : ImportPath} {text : String}
    (met : scope.Met roots referring text) : Plain (TypeText.reference text).name := by
  rcases met with called | ⟨d, reached, makes⟩
  · exact regular.plainCalls referring text called
  · cases makes with
    | embedded among mergeable =>
        have plain := (reached.offers regular.unchanging).isPlain regular.plain
        exact plain.embedded text among mergeable
    | member contains among refers =>
        have inside := reached.contains contains
        have plain := (inside.offers regular.unchanging).isPlain regular.plain
        exact plain.members _ among text refers

theorem mentioned_of_met (regular : scope.Regular roots) {referring : ImportPath} {text : String}
    (met : scope.Met roots referring text) : scope.Mentioned roots referring := by
  rcases met with called | ⟨d, reached, makes⟩
  · exact .called called
  · have here := (reached.offers regular.unchanging).mem_paths
    cases makes with
    | embedded among mergeable => exact .unit here
    | member contains among refers =>
        have offers := (reached.contains contains).offers regular.unchanging
        rw [referringUnit, offers.origin_eq among]
        split
        · exact .unit here
        · exact .unit offers.mem_paths

/-- A reference has one candidate at most. -/
theorem candidate_unique (regular : scope.Regular roots) {referring path path' : ImportPath}
    {reference : TypeText.Reference} (candidate : path ∈ scope.graph.candidates referring reference)
    (candidate' : path' ∈ scope.graph.candidates referring reference) : path = path' := by
  rw [UnitGraph.candidates] at candidate candidate'
  cases qualified : reference.alias? with
  | none =>
      rw [qualified] at candidate candidate'
      exact (List.mem_singleton.mp candidate).trans (List.mem_singleton.mp candidate').symm
  | some qualifier =>
      rw [qualified] at candidate candidate'
      dsimp only at candidate candidate'
      cases known : scope.graph.get? referring with
      | none =>
          rw [known] at candidate
          cases candidate
      | some unit =>
          rw [known] at candidate candidate'
          obtain ⟨entry, kept, rfl⟩ := List.mem_map.mp candidate
          obtain ⟨entry', kept', rfl⟩ := List.mem_map.mp candidate'
          obtain ⟨present, named⟩ := List.mem_filter.mp kept
          obtain ⟨present', named'⟩ := List.mem_filter.mp kept'
          exact regular.oneImport referring unit known entry present entry' present' qualifier
            (List.contains_iff_mem.mp named) (List.contains_iff_mem.mp named')

/-- The candidates of a unit that is mentioned are mentioned. -/
theorem mentioned_of_candidate {referring path : ImportPath} {reference : TypeText.Reference}
    (mentioned : scope.Mentioned roots referring)
    (candidate : path ∈ scope.graph.candidates referring reference) :
    scope.Mentioned roots path := by
  rw [UnitGraph.candidates] at candidate
  split at candidate
  · rw [List.mem_singleton.mp candidate]
    exact mentioned
  · split at candidate
    · cases candidate
    · rename_i unit known
      obtain ⟨entry, kept, rfl⟩ := List.mem_map.mp candidate
      exact .imported known (List.mem_map_of_mem (List.mem_filter.mp kept).1)

/-- In a regular scope the references that are met are unambiguous. -/
theorem unambiguous (regular : scope.Regular roots) {referring : ImportPath} {text : String}
    (met : scope.Met roots referring text) : scope.Unambiguous referring text where
  plain := regular.plain_of_met met
  distinct path candidate path' known same := regular.distinct path path'
    (mentioned_of_candidate (regular.mentioned_of_met met) candidate) (.unit known) same
  once := List.pairwise_of_forall_mem_list fun _ candidate _ candidate' differs =>
    absurd (regular.candidate_unique candidate candidate') differs

/-- In a regular scope no name misleads. -/
theorem clear (regular : scope.Regular roots) : scope.Clear roots := by
  intro referring text path e met candidate reached same
  have copies : scope.Copies e e := ⟨reached.declared regular.unchanging, rfl⟩
  exact (regular.unambiguous met).resolves regular.unchanging regular.plain copies candidate same

/-- Whether a scope with a fixed loader is regular for some calls can be read off lists. -/
theorem of_fixed {graph : UnitGraph} {units : Table (List DeclGroup)}
    {calls : List (ImportPath × Member)}
    (plain : ∀ entry ∈ units, ∀ group ∈ entry.2, ∀ decl ∈ group.types, decl.IsPlain)
    (plainCalls : ∀ call ∈ calls, ∀ text ∈ call.2.unresolved,
      Plain (TypeText.reference text).name)
    (nonempty : ∀ path ∈ graph.paths, path.isEmpty = false)
    (distinct : ∀ path ∈ graph.paths ++ graph.units.flatMap (·.2.imports.keys) ++ calls.map (·.1),
      ∀ path' ∈ graph.paths ++ graph.units.flatMap (·.2.imports.keys) ++ calls.map (·.1),
      pointedPath path.toList = pointedPath path'.toList → path = path')
    (oneImport : ∀ unit ∈ graph.units, ∀ entry ∈ unit.2.imports, ∀ entry' ∈ unit.2.imports,
      ∀ qualifier ∈ entry.2, qualifier ∈ entry'.2 → entry.1 = entry'.1) :
    Regular ⟨graph, .fixed units⟩ (Definer.Called calls) where
  unchanging := Loader.unchanging_fixed units
  plain := Loader.isPlain_fixed plain
  plainCalls := by
    rintro referring text ⟨call, among, rfl, open_⟩
    exact plainCalls call among text open_
  nonempty := nonempty
  distinct := by
    have listed : ∀ {path : ImportPath},
        Mentioned ⟨graph, .fixed units⟩ (Definer.Called calls) path →
        path ∈ graph.paths ++ graph.units.flatMap (·.2.imports.keys) ++ calls.map (·.1) := by
      intro path mentioned
      cases mentioned with
      | unit known => exact List.mem_append_left _ (List.mem_append_left _ known)
      | imported known present =>
          refine List.mem_append_left _ (List.mem_append_right _ (List.mem_flatMap.mpr ?_))
          exact ⟨_, Table.mem_of_get? known, present⟩
      | called asked =>
          obtain ⟨call, among, rfl, _⟩ := asked
          exact List.mem_append_right _ (List.mem_map_of_mem among)
    exact fun path path' mentioned mentioned' same =>
      distinct path (listed mentioned) path' (listed mentioned') same
  oneImport := fun path unit known entry among entry' among' =>
    oneImport (path, unit) (Table.mem_of_get? known) entry among entry' among'

end Regular

end ApiDocs.Scope
