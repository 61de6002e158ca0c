import ApiDocs.Proofs.Definer.Trace
import ApiDocs.Proofs.Regular

/-!
# The store and resolution

`Store.lookup` asks of each candidate unit whether a type of that name is stored, and resolution
whether one is declared. What is stored depends on the calls so far, so the two can differ: where an
alias names several imports, the store may know a later one only, and a canonical name may belong to
another unit. They agree exactly if the unit of the stored type is the first candidate that declares
the name (`lookup_agrees_iff`).
-/

namespace ApiDocs

namespace Scope

variable {scope : Scope} {referring : ImportPath} {text : String} {e : Definition}

/-- Whatever calls did, a lookup finds a copy of a declaration under the name that a candidate
gives the reference. -/
theorem exists_copies_of_lookup (unchanging : scope.loader.Unchanging)
    {calls : List (ImportPath × Member)} {journal : Journal}
    (found : (Definer.defineInOrder scope calls { journal }).2.store.lookup scope.graph referring
      text = some e) :
    (∃ path ∈ scope.graph.candidates referring (TypeText.reference text),
      e.canonical = canonicalName path (TypeText.reference text).name) ∧
    ∃ d, scope.Copies d e := by
  obtain ⟨stack, reachable⟩ := Definer.exists_reachable scope calls journal
  obtain ⟨path, candidate, known⟩ := names_of_lookup found
  exact ⟨⟨path, candidate, Store.canonical_of_get? known⟩,
    (reachable.all (lasting_copies unchanging _ _)).stored _ e known⟩

end Scope

/-- After any calls, a lookup that finds a definition and resolution agree if and only if its unit
is the first candidate that declares the name of the reference. Then they give the same target. They
agree on every reference that is not ambiguous, which therefore has one target at all times. -/
theorem lookup_agrees_iff (scope : Scope) (unchanging : scope.loader.Unchanging)
    (calls : List (ImportPath × Member)) (journal : Journal) (referring : ImportPath)
    (text : String) (d : Definition)
    (found : (Definer.defineInOrder scope calls { journal }).2.store.lookup scope.graph referring
      text = some d) (past : Journal) :
    ((∃ e, (scope.resolve referring text past).1 = .ok (some e) ∧
        e.importPath = d.importPath ∧ e.name = d.name) ↔
      d.name = (TypeText.reference text).name ∧ scope.First referring text d.importPath) ∧
    (∀ e, (scope.resolve referring text past).1 = .ok (some e) → e.importPath = d.importPath →
      e.name = d.name → e.target = d.target) ∧
    (scope.loader.IsPlain → scope.Unambiguous referring text →
      (∃ e, (scope.resolve referring text past).1 = .ok (some e) ∧
        e.importPath = d.importPath ∧ e.name = d.name) ∧
      ∀ calls' journal' d',
        (Definer.defineInOrder scope calls' { journal := journal' }).2.store.lookup scope.graph
          referring text = some d' → d'.target = d.target) := by
  obtain ⟨⟨path, candidate, named⟩, d₀, copies⟩ := Scope.exists_copies_of_lookup unchanging found
  have resolves : ∀ e, (scope.resolve referring text past).1 = .ok (some e) ↔
      scope.resolved? referring text = some e := fun e => by
    rw [Scope.resolve_fst unchanging, Scope.resolved?_eq_some_iff unchanging]
  simp only [resolves]
  have same : ∀ e, scope.resolved? referring text = some e → e.importPath = d.importPath →
      e.name = d.name → d₀ = e := fun e given =>
    copies.eq_of_declared (Scope.declared_of_resolved? unchanging given).2.2
  have samePath : d₀.importPath = d.importPath := Definition.importPath_eq_of_core copies.2.symm
  have sameName : d₀.name = d.name := Definition.name_eq_of_core copies.2.symm
  refine ⟨?_, fun e given path name => ?_, fun plain unambiguous => ?_⟩
  · rw [← copies.resolves_iff unchanging]
    constructor
    · rintro ⟨e, given, path, name⟩
      rw [same e given path name]
      exact given
    · exact fun given => ⟨d₀, given, samePath, sameName⟩
  · rw [← same e given path name]
    exact Definition.target_eq_of_core copies.2.symm
  · have given := unambiguous.resolves unchanging plain copies candidate named
    refine ⟨⟨d₀, given, samePath, sameName⟩, fun calls' journal' d' found' => ?_⟩
    obtain ⟨⟨path', candidate', named'⟩, d₁, copies'⟩ :=
      Scope.exists_copies_of_lookup unchanging found'
    have given' := unambiguous.resolves unchanging plain copies' candidate' named'
    cases given.symm.trans given'
    exact Definition.target_eq_of_core (copies'.2.trans copies.2.symm)

/-- A unit that imports two others under the alias `m`; both declare users, one declares groups. The
graph is the one that is loaded from the unit. -/
def sharedAlias : Scope where
  graph := ⟨[
    ("app", {
      importPath := "app"
      name := "app"
      imports := [("first", ["m", "first"]), ("second", ["m", "second"])] }),
    ("first", { importPath := "first", name := "first", imports := [] }),
    ("second", { importPath := "second", name := "second", imports := [] })]⟩
  loader := .fixed [
    ("app", [{
      name := "app"
      imports := [⟨"first", some "m"⟩, ⟨"second", some "m"⟩] }]),
    ("first", [{ name := "first", types := [{ name := "User" }] }]),
    ("second", [{ name := "second", types := [{ name := "User" }, { name := "Group" }] }])]

/-- Calls for scalars of the unit that shares an alias. -/
def sharedCalls (texts : List String) : List (ImportPath × Member) :=
  texts.map fun text => ("app", .scalar {} text none)

/-- The units of the targets of scalars. -/
def targetPaths (members : List Member) : List (Option ImportPath) :=
  members.map fun
    | .scalar _ _ target => target.map (·.importPath)
    | _ => none

/-- The alias is shared, but only one of the units declares groups. -/
theorem lookup_agrees_iff_group :
    sharedAlias.loader.IsPlain ∧ sharedAlias.Unambiguous "app" "m.Group" ∧
    ∃ d, (Definer.defineInOrder sharedAlias (sharedCalls ["second.Group"]) {}).2.store.lookup
        sharedAlias.graph "app" "m.Group" = some d ∧
      ∃ e, (sharedAlias.resolve "app" "m.Group" {}).1 = .ok (some e) ∧
        e.importPath = d.importPath ∧ e.name = d.name := by
  have plain : sharedAlias.loader.IsPlain := Loader.isPlain_fixed (by decide +kernel)
  have candidates : sharedAlias.graph.candidates "app" (TypeText.reference "m.Group") =
      ["first", "second"] := by decide +kernel
  have absent : sharedAlias.declared "first" (TypeText.reference "m.Group").name = .ok none := by
    decide +kernel
  have unambiguous : sharedAlias.Unambiguous "app" "m.Group" := by
    refine ⟨by decide +kernel, by decide +kernel, ?_⟩
    rw [candidates]
    refine .cons (fun path later _ => Or.inl absent) (List.pairwise_singleton _ _)
  have stored :
      ((Definer.defineInOrder sharedAlias (sharedCalls ["second.Group"]) {}).2.store.lookup
        sharedAlias.graph "app" "m.Group").isSome = true := by decide +kernel
  obtain ⟨d, found⟩ := Option.isSome_iff_exists.mp stored
  have agrees := lookup_agrees_iff sharedAlias (Loader.unchanging_fixed _)
    (sharedCalls ["second.Group"]) {} "app" "m.Group" d found {}
  exact ⟨plain, unambiguous, d, found, (agrees.2.2 plain unambiguous).1⟩

/-- Users of the second unit are stored first, so the shared alias leads to them, and resolution to
the users of the first unit. As soon as these are stored, the same reference gets another target. -/
theorem lookup_differs_by_shared_alias :
    (UnitGraph.load sharedAlias.loader "app" [] {}).1 = .ok sharedAlias.graph ∧
    (∃ d, (Definer.defineInOrder sharedAlias (sharedCalls ["second.User"]) {}).2.store.lookup
        sharedAlias.graph "app" "m.User" = some d ∧ d.importPath = "second") ∧
    (∀ journal, ∃ e, (sharedAlias.resolve "app" "m.User" journal).1 = .ok (some e) ∧
      e.importPath = "first") ∧
    ∃ members left, Definer.defineInOrder sharedAlias
        (sharedCalls ["second.User", "m.User", "first.User", "m.User"]) {} = (.ok members, left) ∧
      targetPaths members = [some "second", some "second", some "first", some "first"] := by
  have stored : ((Definer.defineInOrder sharedAlias (sharedCalls ["second.User"]) {}).2.store.lookup
      sharedAlias.graph "app" "m.User").map (·.importPath) = some "second" := by decide +kernel
  have resolved : (sharedAlias.resolved? "app" "m.User").map (·.importPath) = some "first" := by
    decide +kernel
  have targets : (Definer.defineInOrder sharedAlias
      (sharedCalls ["second.User", "m.User", "first.User", "m.User"]) {}).1.toOption.map
        targetPaths = some [some "second", some "second", some "first", some "first"] := by
    decide +kernel
  refine ⟨by decide +kernel, Option.map_eq_some_iff.mp stored, fun journal => ?_, ?_⟩
  · obtain ⟨e, resolves, path⟩ := Option.map_eq_some_iff.mp resolved
    exact ⟨e, Scope.resolve_of_resolved? (Loader.unchanging_fixed _) resolves journal, path⟩
  · exact exists_of_toOption targets

end ApiDocs
